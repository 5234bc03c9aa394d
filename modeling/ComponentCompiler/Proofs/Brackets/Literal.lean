import ComponentCompiler.Proofs.Brackets.Line

/-!
# Reading template literals

`readBody` reads what is between the backticks of a template literal. Main statements: `read_textExpression` and
`static_text_values`.
-/

namespace ComponentCompiler.Template.TemplateLiteral

open Template.Balanced Text

inductive Part where
  | text (chars : List Char)
  | code (chars : List Char)
  deriving DecidableEq, Repr

/-- Characters that stand next to each other are one text. -/
def addChar (c : Char) : List Part → List Part
  | .text chars :: parts => .text (c :: chars) :: parts
  | parts => .text [c] :: parts

def prepend (add : List Part → List Part) : Option (List Part × List Char) → Option (List Part × List Char) :=
  Option.map fun read => (add read.1, read.2)

/-- The parts up to the backtick that ends the literal, and what is behind it. -/
def readBody : List Char → Option (List Part × List Char)
  | [] => none
  | '`' :: rest => some ([], rest)
  | '\\' :: c :: rest => prepend (addChar c) (readBody rest)
  | '$' :: '\x7b' :: rest =>
    match _ : find bodyGoal ⟨rest, 0⟩ with
    | .error _ => none
    | .ok stop => prepend (.code (Cursor.upTo ⟨rest, 0⟩ stop) :: ·) (readBody stop.rest.tail)
  | c :: rest => prepend (addChar c) (readBody rest)
termination_by text => text.length
decreasing_by
  · simp only [List.length_cons]
    omega
  · rename_i found
    have shorter : stop.rest.length ≤ rest.length := scan_length found
    simp only [List.length_tail, List.length_cons]
    omega
  · simp

def read? : List Char → Option (List Part × List Char)
  | '`' :: rest => readBody rest
  | _ => none

/-- What a fragment is read back as; nothing if it is an empty text. -/
def part? : Fragment → Option Part
  | .static text => if text.isEmpty then none else some (.text text.toList)
  | .dynamic code | .reactive code => some (.code code.text.toList)

/-- A scan for a brace ends behind the code. -/
def EndsAtBrace (code : List Char) : Prop := ∃ p, find bodyGoal ⟨code ++ ['\x7d'], 0⟩ = .ok ⟨['\x7d'], p⟩

theorem EndsAtBrace.closed {code} (ends : EndsAtBrace code) : Closed code := by
  obtain ⟨p, found⟩ := ends
  have found : scan bodyGoal [] 0 (code ++ ([] ++ ['\x7d'])) = _ := found
  rcases pass_of_scan rfl rfl .nil (.refl []) found rfl with closed | ⟨-, feed⟩
  · exact closed
  · cases feed

section

variable {rest : List Char} {c d : Char}

theorem prepend_prepend (add more : List Part → List Part) (read : Option (List Part × List Char)) :
    prepend add (prepend more read) = prepend (add <| more ·) read := by
  cases read <;> rfl

theorem readBody_escaped : readBody ('\\' :: c :: rest) = prepend (addChar c) (readBody rest) := by
  rw [readBody]

theorem readBody_plain (tick : c ≠ '`') (backslash : c ≠ '\\') (dollar : ¬ (c = '$' ∧ rest.head? = some '\x7b')) :
    readBody (c :: rest) = prepend (addChar c) (readBody rest) := by
  rw [readBody]
  · exact tick
  · rintro _ _ rfl
    exact absurd rfl backslash
  · rintro _ rfl rfl
    exact absurd ⟨rfl, rfl⟩ dollar

theorem readBody_code {code} (closed : Closed code) :
    readBody ('$' :: '\x7b' :: (code ++ '\x7d' :: rest)) = prepend (.code code :: ·) (readBody rest) := by
  obtain ⟨p, found⟩ : ∃ p, find bodyGoal ⟨code ++ '\x7d' :: rest, 0⟩ = .ok ⟨'\x7d' :: rest, p⟩ :=
    scan_of_pass (b := []) rfl rfl rfl rfl (.inl closed) 0
  rw [readBody, found]
  simp [Cursor.upTo]

theorem readBody_templateChars (text : List Char) (other : d ≠ '\x7b') :
    readBody (templateChars text ++ d :: rest) = prepend (text.foldr addChar ·) (readBody (d :: rest)) := by
  fun_induction templateChars text with
  | case1 => exact (Option.map_id' ..).symm
  | case2 text ih => simp [readBody_escaped, ih, prepend_prepend]
  | case3 text ih => simp [readBody_escaped, ih, prepend_prepend]
  | case4 text ih =>
    have brace : readBody ('\x7b' :: (templateChars text ++ d :: rest)) = _ :=
      readBody_plain (by decide) (by decide) (by simp)
    simp [readBody_escaped, brace, ih, prepend_prepend]
  | case5 c text tick backslash dollar ih =>
    have plain : readBody (c :: (templateChars text ++ d :: rest)) = _ :=
      readBody_plain tick backslash (templateChars_opens_none dollar other rest)
    simp [plain, ih, prepend_prepend]

end

theorem foldr_addChar {text parts} (given : text ≠ []) (apart : ∀ chars more, parts ≠ .text chars :: more) :
    text.foldr addChar parts = .text text :: parts := by
  induction text with
  | nil => exact absurd rfl given
  | cons c text ih =>
    cases text with
    | nil =>
      rw [List.foldr_cons, List.foldr_nil, addChar]
      exact apart
    | cons d text => rw [List.foldr_cons, ih (by simp), addChar]

theorem parts_behind_static {text items} (apart : Fragment.Apart (.static text :: items)) (chars : List Char)
    (more : List Part) : items.filterMap part? ≠ .text chars :: more := by
  cases items with
  | nil => simp
  | cons b items =>
    cases b with
    | static => cases apart.1
    | dynamic | reactive => simp [part?]

theorem foldr_static {text items} (apart : Fragment.Apart (.static text :: items)) :
    text.toList.foldr addChar (items.filterMap part?) = (Fragment.static text :: items).filterMap part? := by
  by_cases empty : text.isEmpty
  · simp [part?, String.isEmpty_iff.1 empty]
  · have given : text.toList ≠ [] := by simpa [String.isEmpty_iff] using empty
    simp [foldr_addChar given (parts_behind_static apart), part?, empty]

theorem readBody_items {items} (apart : Fragment.Apart items)
    (whole : ∀ i ∈ items, ∀ code, part? i = some (.code code) → Closed code) :
    readBody (items.flatMap (fun i => i.inTemplateLiteral.toList) ++ ['`']) = some (items.filterMap part?, []) := by
  induction items with
  | nil => simp [readBody]
  | cons i items ih =>
    obtain ⟨here, later⟩ := List.forall_mem_cons.1 whole
    have others := ih apart.tail later
    have inserted {code : Code} (closed : Closed code.text.toList) :
        readBody (("$\x7b" ++ code.text ++ "\x7d").toList ++
          (items.flatMap (fun i => i.inTemplateLiteral.toList) ++ ['`'])) =
          some (.code code.text.toList :: items.filterMap part?, []) := by
      rw [Fragment.toList_inserted, List.cons_append, List.cons_append, List.append_assoc]
      rw [List.singleton_append, readBody_code closed, others]
      rfl
    rw [List.flatMap_cons, List.append_assoc]
    cases i with
    | static text =>
      obtain ⟨d, rest, next, ends⟩ := apart.next
      rw [Fragment.inTemplateLiteral, templateText, String.toList_ofList, next, readBody_templateChars _ (by grind),
        ← next, others, ← foldr_static apart]
      rfl
    | dynamic code => exact inserted (here _ rfl)
    | reactive code => exact inserted (here _ rfl)

/-- A text with code is written as a template literal that reads back as its fixed texts and its code, in order. -/
theorem read_textExpression {items : List Fragment} (live : items.any (!·.isStatic)) (apart : Fragment.Apart items)
    (balanced : ∀ i ∈ items, ∀ code, part? i = some (.code code) → EndsAtBrace code) :
    read? (Fragment.textExpression items).toList = some (items.filterMap part?, []) := by
  have mixed : ¬ items.all Fragment.isStatic = true := by simpa using live
  have split : (Fragment.textExpression items).toList =
      '`' :: (items.flatMap (fun i => i.inTemplateLiteral.toList) ++ ['`']) := by
    rw [Fragment.textExpression, if_neg mixed]
    simp [List.flatMap_map]
  rw [split, read?]
  exact readBody_items apart fun i mem code shown => (balanced i mem code shown).closed

/-- A dollar before code, a dollar before a brace, backslashes, backticks and a literal inside the code. -/
theorem read_textExpression_dollars :
    let items : List Fragment :=
      [.static "`$", .dynamic ⟨"f(`$\x7ba\x7d`)", false, ⟨4, 15⟩⟩, .static "$\x7b\\$", .reactive ⟨"b", true, ⟨23, 24⟩⟩]
    Fragment.textExpression items = "`\\`$$\x7bf(`$\x7ba\x7d`)\x7d\\$\x7b\\\\$$\x7bb\x7d`" ∧
      read? (Fragment.textExpression items).toList =
        some ([.text "`$".toList, .code "f(`$\x7ba\x7d`)".toList, .text "$\x7b\\$".toList, .code ['b']], []) := by
  intro items
  refine ⟨by decide +kernel, ?_⟩
  have balanced : ∀ i ∈ items, ∀ code, part? i = some (.code code) → EndsAtBrace code := by
    simp only [items, List.forall_mem_cons]
    refine ⟨by simp [part?], ?_, by simp [part?], ?_, List.forall_mem_nil _⟩
    · rintro _ ⟨⟩
      exact ⟨_, rfl⟩
    · rintro _ ⟨⟩
      exact ⟨_, rfl⟩
  have apart : Fragment.Apart items := ⟨rfl, rfl, rfl, trivial⟩
  exact (read_textExpression rfl apart balanced).trans (by decide +kernel)

/-! ### Values -/

/-- The characters of a template literal end here, by a backtick or by `$` and a brace. -/
def endsText : List Char → Bool
  | [] => false
  | c :: rest => c = '`' || (c = '$' && rest.head? = some '\x7b')

/-- What a backslash and `c` stand for in a script; none if the escape may go on behind `c` or continues a line. -/
def escape? (c : Char) : Option Char :=
  if c.isDigit || c ∈ ['u', 'x', '\n', '\r', '\u2028', '\u2029'] then none
  else if c = 'v' then some '\x0b'
  else some ((Json.shortEscape? c).getD c)

/-- The value that a script gives to characters of a template literal, and what ends them. A carriage return, or one
with a line feed, is read as a line feed. -/
def value? : List Char → Option (List Char × List Char)
  | [] => none
  | '\\' :: e :: rest => (escape? e).bind fun d => (value? rest).map fun read => (d :: read.1, read.2)
  | c :: rest =>
    if endsText (c :: rest) then some ([], c :: rest)
    else if c = '\r' && rest.head? = some '\n' then value? rest
    else (value? rest).map fun read => ((if c = '\r' then '\n' else c) :: read.1, read.2)

/-- The text with its carriage returns, each with the line feed behind it, as line feeds. -/
def returnsFed : List Char → List Char
  | [] => []
  | c :: rest =>
    if c = '\r' && rest.head? = some '\n' then returnsFed rest
    else (if c = '\r' then '\n' else c) :: returnsFed rest

theorem return_not_mem (text : List Char) : '\r' ∉ returnsFed text := by
  fun_induction returnsFed text with
  | case1 => exact List.not_mem_nil
  | case2 c rest _ ih => exact ih
  | case3 c rest _ ih =>
    rw [List.mem_cons, not_or]
    exact ⟨by split <;> grind, ih⟩

theorem returnsFed_eq_self {text} : returnsFed text = text ↔ '\r' ∉ text := by
  refine ⟨fun same => same ▸ return_not_mem text, fun plain => ?_⟩
  induction text with
  | nil => rfl
  | cons c text ih =>
    rw [List.mem_cons, not_or] at plain
    simp [returnsFed, Ne.symm plain.1, ih plain.2]

theorem value?_plain {c rest} (plain : c ≠ '\\') :
    value? (c :: rest) = if endsText (c :: rest) then some ([], c :: rest)
      else if c = '\r' && rest.head? = some '\n' then value? rest
      else (value? rest).map fun read => ((if c = '\r' then '\n' else c) :: read.1, read.2) := by
  rw [value?]
  exact fun _ _ same => absurd same plain

theorem value?_templateChars {d rest} (text : List Char) (ended : endsText (d :: rest) = true) :
    value? (templateChars text ++ d :: rest) = some (returnsFed text, d :: rest) := by
  have last : d = '`' ∨ d = '$' := by
    simp only [endsText, Bool.or_eq_true, Bool.and_eq_true, decide_eq_true_eq] at ended
    exact ended.imp_right And.left
  have escaped {c : Char} {more : List Char} (itself : escape? c = some c) :
      value? ('\\' :: c :: more) = (value? more).map fun read => (c :: read.1, read.2) := by
    rw [value?, itself]
    rfl
  fun_induction templateChars text with
  | case1 => rw [List.nil_append, value?_plain (by grind), if_pos ended, returnsFed]
  | case2 text ih => simp [escaped (c := '`') rfl, ih, returnsFed]
  | case3 text ih => simp [escaped (c := '\\') rfl, ih, returnsFed]
  | case4 text ih => simp [escaped (c := '$') rfl, value?_plain, endsText, ih, returnsFed]
  | case5 c text tick backslash dollar ih =>
    have starts {x : Char} (plain : x ≠ '\\' ∧ x ≠ '`' ∧ x ≠ '$') :
        (templateChars text ++ d :: rest).head? = some x ↔ text.head? = some x :=
      head_templateChars (by grind) plain
    have goesOn : endsText (c :: (templateChars text ++ d :: rest)) = false := by
      have brace : ¬(c = '$' ∧ text.head? = some '\x7b') := by
        rintro ⟨rfl, first⟩
        obtain ⟨more, rfl⟩ := List.head?_eq_some_iff.1 first
        exact dollar more rfl rfl
      simp only [endsText, starts (x := '\x7b') (by decide)]
      simpa [show c ≠ '`' from tick] using brace
    rw [List.cons_append, value?_plain backslash, goesOn, ih, returnsFed]
    simp only [starts (x := '\n') (by decide), Bool.false_eq_true, if_false]
    split <;> rfl

theorem apart_behind {before items} (apart : Fragment.Apart (before ++ items)) : Fragment.Apart items := by
  induction before with
  | nil => exact apart
  | cons i before ih => exact ih apart.tail

/-- A fixed text has the same value alone, as a string literal, as next to code, as part of a template literal, exactly
if no carriage return is in it. -/
theorem static_text_values {before after : List Fragment} {text : String} (live : (before ++ after).any (!·.isStatic))
    (apart : Fragment.Apart (before ++ .static text :: after)) :
    let front := '`' :: before.flatMap fun i => i.inTemplateLiteral.toList
    let back := after.flatMap (fun i => i.inTemplateLiteral.toList) ++ ['`']
    (Fragment.textExpression (before ++ .static text :: after)).toList = front ++ (templateChars text.toList ++ back) ∧
      value? (templateChars text.toList ++ back) = some (returnsFed text.toList, back) ∧
      Json.parse? (Fragment.textExpression [.static text]) = some (.string text) ∧
      (returnsFed text.toList = text.toList ↔ '\r' ∉ text.toList) := by
  intro front back
  have mixed : ¬(before ++ .static text :: after).all Fragment.isStatic = true := by
    obtain ⟨i, mem, code⟩ := List.any_eq_true.1 live
    intro fixed
    have static := List.all_eq_true.1 fixed i (by grind)
    rw [static] at code
    cases code
  refine ⟨?_, ?_, ?_, returnsFed_eq_self⟩
  · rw [Fragment.textExpression, if_neg mixed]
    simp [List.flatMap_map, front, back, Fragment.inTemplateLiteral, templateText]
  · obtain ⟨d, rest, next, ends⟩ := (apart_behind apart).next
    simp only [back, next]
    exact value?_templateChars _ (by simpa [endsText] using ends)
  · simp [Fragment.textExpression, Fragment.isStatic, Fragment.staticText, parse?_quote]

/-- Backticks, backslashes and dollars between two pieces of code. -/
theorem static_text_values_dollars :
    let code : Fragment := .dynamic ⟨"x", true, ⟨0, 1⟩⟩
    Fragment.Apart [code, .static "`\\$\x7b$", code] ∧
      value? "\\`\\\\\\$\x7b$$\x7bx\x7d`".toList = some ("`\\$\x7b$".toList, "$\x7bx\x7d`".toList) := by
  intro code
  have apart : Fragment.Apart ([code] ++ .static "`\\$\x7b$" :: [code]) := ⟨rfl, rfl, trivial⟩
  obtain ⟨-, value, -, same⟩ := static_text_values (by rfl) apart
  have plain : '\r' ∉ "`\\$\x7b$".toList := by decide
  rw [same.2 plain] at value
  exact ⟨apart, Eq.trans (congrArg value? (by decide +kernel)) (value.trans (by decide +kernel))⟩

/-- A carriage return inside of a line stays in the text, and next to code it becomes a line feed. -/
theorem return_before_code :
    let text := "a\rb "
    let code : Code := ⟨"x", true, ⟨6, 7⟩⟩
    (Outline.textRun.run ⟨"a\rb \x7b\x7bx\x7d\x7d\n".toList, 0⟩).toOption.map Prod.fst =
      some [.static text, .dynamic code] ∧
      Json.readString [] (Fragment.textExpression [.static text]).toList.tail = some (text.toList, []) ∧
      Fragment.textExpression [.static text, .dynamic code] = "`a\rb $\x7bx\x7d`" ∧
      value? "a\rb $\x7bx\x7d`".toList = some ("a\nb ".toList, "$\x7bx\x7d`".toList) ∧ "a\nb " ≠ text := by
  decide +kernel

end ComponentCompiler.Template.TemplateLiteral
