import ComponentCompiler.Proofs.Program.Distinct
import ComponentCompiler.Proofs.Text.Quoted

/-!
# Brackets in generated lines
-/

namespace ComponentCompiler

namespace Template.Balanced

open Text

theorem pass_plain {frames text} (code : isCode frames = true) (plain : ∀ c ∈ text, c ∉ marks) :
    pass frames text = some frames := by
  have next {c : Char} (mem : c ∈ text) (rest : List Char) : step bodyGoal frames 0 c rest = .one frames := by
    have mark : '\x7d' ≠ c := by
      rintro rfl
      exact plain _ mem (by decide)
    match frames, code with
    | [], _ => simp [step, bodyGoal, mark, codeStep_plain (plain c mem)]
    | .bracket _ :: _, _ => exact codeStep_plain (plain c mem)
  induction text with
  | nil => rfl
  | cons c text ih =>
    have others := ih (fun d mem => plain d (List.mem_cons_of_mem c mem)) fun mem => next (List.mem_cons_of_mem c mem)
    cases text with
    | nil => exact pass_last (next List.mem_cons_self _)
    | cons d text => exact (pass_one (next List.mem_cons_self _)).trans others

theorem pass_quote (text : List Char) : pass [] (quoteList text) = some [] := by
  obtain ⟨-, behind⟩ := quoteList_isString text bodyGoal [] 0 ['\x7d']
  have found : scan bodyGoal [] 0 (quoteList text ++ ([] ++ ['\x7d'])) = _ :=
    (scan_one rfl).trans (behind.trans (scan_stop rfl))
  rcases pass_of_scan rfl rfl .nil (.refl []) found rfl with closed | ⟨-, feed⟩
  · exact closed
  · cases feed

theorem head_templateChars {text rest d x} (other : d ≠ x) (plain : x ≠ '\\' ∧ x ≠ '`' ∧ x ≠ '$') :
    (templateChars text ++ d :: rest).head? = some x ↔ text.head? = some x := by
  obtain ⟨backslash, tick, dollar⟩ := plain
  fun_cases templateChars text with
  | case1 => simp [other]
  | case2 | case3 | case4 => simp [backslash.symm, tick.symm, dollar.symm]
  | case5 => exact .rfl

theorem templateChars_opens_none {c d text} (dollar : ∀ more, c = '$' → text = '\x7b' :: more → False)
    (other : d ≠ '\x7b')
    (rest : List Char) : ¬ (c = '$' ∧ (templateChars text ++ d :: rest).head? = some '\x7b') := by
  rintro ⟨rfl, brace⟩
  obtain ⟨more, rfl⟩ := List.head?_eq_some_iff.1 ((head_templateChars other (by decide)).1 brace)
  exact dollar _ rfl rfl

theorem pass_templateChars (text : List Char) {d} (other : d ≠ '\x7b') (rest : List Char) :
    pass [.template] (templateChars text ++ d :: rest) = pass [.template] (d :: rest) := by
  fun_induction templateChars text with
  | case1 => rfl
  | case2 text ih => exact (pass_two rfl).trans ih
  | case3 text ih => exact (pass_two rfl).trans ih
  | case4 text ih => exact (pass_two rfl).trans ((pass_cons (by simp) rfl).trans ih)
  | case5 c text tick backslash dollar ih =>
    have opens := templateChars_opens_none dollar other rest
    have decided : step bodyGoal [.template] 0 c (templateChars text ++ d :: rest) = .one [.template] := by
      have tick : c ≠ '`' := tick
      have backslash : c ≠ '\\' := backslash
      simp only [step, templateStep, Bool.and_eq_true, decide_eq_true_eq, opens, tick, backslash, if_false, false_and]
    exact (pass_cons (by simp) decided).trans ih

end Template.Balanced

namespace Template.Fragment

open Template.Balanced

def Whole : Fragment → Prop
  | .static _ => True
  | .dynamic code | .reactive code => Closed code.text.toList

def Apart : List Fragment → Prop
  | [] | [_] => True
  | a :: b :: rest => (a.isStatic && b.isStatic) = false ∧ Apart (b :: rest)

theorem Apart.tail {a items} (apart : Apart (a :: items)) : Apart items := by
  cases items with
  | nil => trivial
  | cons b rest => exact apart.2

theorem toList_inserted (code : String) :
    ("$\x7b" ++ code ++ "\x7d").toList = '$' :: '\x7b' :: (code.toList ++ ['\x7d']) := by
  simp

theorem Apart.next {text items} (apart : Apart (.static text :: items)) :
    ∃ d rest, items.flatMap (fun i => i.inTemplateLiteral.toList) ++ ['`'] = d :: rest ∧
      (d = '`' ∨ d = '$' ∧ rest.head? = some '\x7b') := by
  cases items with
  | nil => exact ⟨'`', [], rfl, .inl rfl⟩
  | cons b items =>
    cases b with
    | static => cases apart.1
    | dynamic code | reactive code =>
      rw [List.flatMap_cons, inTemplateLiteral, toList_inserted]
      exact ⟨'$', _, rfl, .inr ⟨rfl, rfl⟩⟩

theorem pass_inserted {code} (whole : Closed code.toList) {rest} (more : rest ≠ []) :
    pass [.template] (("$\x7b" ++ code ++ "\x7d").toList ++ rest) = pass [.template] rest := by
  have inside : pass [.bracket '\x7d', .template] code.toList = some [.bracket '\x7d', .template] :=
    pass_onto rfl whole
  have split : ("$\x7b" ++ code ++ "\x7d").toList ++ rest = '$' :: '\x7b' :: (code.toList ++ '\x7d' :: rest) := by simp
  rw [split]
  calc pass [.template] ('$' :: '\x7b' :: (code.toList ++ '\x7d' :: rest))
      = pass [.bracket '\x7d', .template] (code.toList ++ '\x7d' :: rest) := pass_two rfl
    _ = pass [.bracket '\x7d', .template] ('\x7d' :: rest) := pass_append_inert inside (by decide)
    _ = pass [.template] rest := pass_cons more rfl

theorem pass_items {items} (whole : ∀ i ∈ items, i.Whole) (apart : Apart items) :
    pass [.template] (items.flatMap (fun i => i.inTemplateLiteral.toList) ++ ['`']) = some [] := by
  induction items with
  | nil => rfl
  | cons i items ih =>
    have others := ih (fun j mem => whole j (List.mem_cons_of_mem i mem)) apart.tail
    rw [List.flatMap_cons, List.append_assoc]
    cases i with
    | static text =>
      obtain ⟨d, rest, next, ends⟩ := apart.next
      have escaped : (Fragment.static text).inTemplateLiteral.toList = Text.templateChars text.toList := by
        simp [inTemplateLiteral, Text.templateText]
      rw [next] at others ⊢
      rw [escaped, pass_templateChars _ (by grind)]
      exact others
    | dynamic code | reactive code =>
      exact (pass_inserted (whole _ List.mem_cons_self) (by simp)).trans others

end Template.Fragment

namespace Program

open Template Template.Balanced
open Text (isIdentifierPart)

def Piece.Whole : Piece → Prop
  | .name text | .code text => Closed text.toList
  | .callee c => Closed c.text.toList
  | .content items => items.all Fragment.isStatic = true ∨ (∀ i ∈ items, i.Whole) ∧ Fragment.Apart items
  | _ => True

theorem Path.text_parts (path : Path) : ∀ c ∈ path.text.toList, isIdentifierPart c = true := by
  have digit {i : Nat} {c : Char} (mem : c ∈ Nat.toDigits 10 i) : isIdentifierPart c = true := by
    have isDigit := Nat.isDigit_of_mem_toDigits (by decide) (by decide) mem
    simp only [Char.isDigit, Bool.and_eq_true, decide_eq_true_eq] at isDigit
    simp only [isIdentifierPart, Text.isAsciiAlphanumeric, Text.isAsciiDigit, Char.le_def, Bool.or_eq_true,
      Bool.and_eq_true, decide_eq_true_eq]
    exact .inl (.inl (.inr isDigit))
  rw [Path.toList_text]
  induction path with
  | nil => simp [List.intercalate]
  | cons i path ih =>
    intro c mem
    cases path with
    | nil => exact digit (by simpa [List.intercalate] using mem)
    | cons j path =>
      have split : c ∈ Nat.toDigits 10 i ∨ c = '_' ∨ c ∈ ['_'].intercalate ((j :: path).map (Nat.toDigits 10)) := by
        simpa [List.intercalate] using mem
      rcases split with first | rfl | rest
      · exact digit first
      · decide
      · exact ih c rest

theorem Temp.name_parts (t : Temp) : ∀ c ∈ t.name.toList, isIdentifierPart c = true := by
  intro c mem
  simp only [Temp.name, String.toList_append, List.mem_append] at mem
  rcases mem with (mark | letter) | path
  · have all : "___".toList.all isIdentifierPart = true := by decide
    exact List.all_eq_true.1 all c mark
  · have all : t.kind.letter.toList.all isIdentifierPart = true := by cases t.kind <;> decide
    exact List.all_eq_true.1 all c letter
  · exact t.path.text_parts c path

theorem Node.name_parts (n : Node) : ∀ c ∈ n.name.toList, isIdentifierPart c = true := by
  cases n with
  | realParent => exact List.all_eq_true.1 (by decide)
  | parent => exact List.all_eq_true.1 (by decide)
  | temp t => exact t.name_parts

theorem Helper.name_parts (h : Helper) : ∀ c ∈ h.name.toList, isIdentifierPart c = true := by
  cases h <;> exact List.all_eq_true.1 (by decide)

theorem isIdentifierList_parts {text} (identifier : Text.isIdentifierList text = true) :
    ∀ c ∈ text, isIdentifierPart c = true := by
  cases text with
  | nil => cases identifier
  | cons c text =>
    obtain ⟨first, others⟩ : Text.isIdentifierStart c = true ∧ text.all isIdentifierPart = true := by
      simpa [Text.isIdentifierList] using identifier
    refine List.forall_mem_cons.2 ⟨?_, List.all_eq_true.1 others⟩
    simp only [Text.isIdentifierStart, isIdentifierPart, Text.isAsciiAlphanumeric, Bool.or_eq_true] at first ⊢
    exact first.imp_left (Or.imp_left .inl)

theorem pass_identifier {text} (parts : ∀ c ∈ text, isIdentifierPart c = true) : pass [] text = some [] :=
  pass_plain rfl fun c mem => not_mark_of_identifierPart (parts c mem)

theorem pass_callee {c : Code} (whole : Closed c.text.toList) : pass [] c.callee.toList = some [] := by
  unfold Code.callee
  split
  · exact whole
  · have inside : pass [.bracket ')'] c.text.toList = some [.bracket ')'] := pass_onto rfl whole
    have split : ("(" ++ c.text ++ ")").toList = '(' :: (c.text.toList ++ [')']) := by simp
    rw [split]
    calc pass [] ('(' :: (c.text.toList ++ [')']))
        = pass [.bracket ')'] (c.text.toList ++ [')']) := pass_cons (by simp) rfl
      _ = pass [.bracket ')'] [')'] := pass_append_inert inside (by decide)
      _ = some [] := rfl

theorem pass_propertyKey (name : String) : pass [] (Text.propertyKey name).toList = some [] := by
  unfold Text.propertyKey
  split
  · rename_i identifier
    exact pass_identifier (isIdentifierList_parts identifier)
  · rw [Text.quote, String.toList_ofList]
    exact pass_quote _

theorem pass_textExpression {items}
    (whole : items.all Fragment.isStatic = true ∨ (∀ i ∈ items, i.Whole) ∧ Fragment.Apart items) :
    pass [] (Fragment.textExpression items).toList = some [] := by
  unfold Fragment.textExpression
  split
  · rw [Text.quote, String.toList_ofList]
    exact pass_quote _
  · rename_i live
    obtain ⟨whole, apart⟩ := whole.resolve_left live
    have split : ("`" ++ String.join (items.map Fragment.inTemplateLiteral) ++ "`").toList =
        '`' :: (items.flatMap (fun i => i.inTemplateLiteral.toList) ++ ['`']) := by
      simp [List.flatMap_map]
    rw [split]
    exact (pass_cons (by simp) rfl).trans (Fragment.pass_items whole apart)

theorem Piece.pass_text {p : Piece} (whole : p.Whole) (free : ∀ text, p ≠ .fixed text) :
    Balanced.pass [] p.text.toList = some [] := by
  cases p with
  | fixed text => exact absurd rfl (free text)
  | name text => exact whole
  | code text => exact whole
  | callee c => exact pass_callee whole
  | quoted text =>
    rw [Piece.text, Text.quote, String.toList_ofList]
    exact pass_quote _
  | key name => exact pass_propertyKey name
  | content items => exact pass_textExpression whole
  | helper h => exact pass_identifier h.name_parts
  | declare t => exact pass_identifier t.name_parts
  | node n => exact pass_identifier n.name_parts

/-- Where the reading of a line is: inside which frames, and whether anything may come next. Behind a piece that is
not fixed only characters may come that no step looks for. -/
structure Spot where
  frames : List Frame
  settled : Bool

def beginsInert (text : List Char) : Bool := text.head?.any fun c => decide (Inert c)

def endsCalm (text : List Char) : Bool := text.getLast?.all fun c => decide (Calm c)

def Piece.follow (s : Spot) : Piece → Option Spot
  | .fixed text =>
    if (s.settled || beginsInert text.toList) && endsCalm text.toList then
      (pass s.frames text.toList).map fun frames => ⟨frames, true⟩
    else none
  | _ => if s.settled && isCode s.frames then some ⟨s.frames, false⟩ else none

def Line.follow (s : Spot) (line : Line) : Option Spot := line.foldlM Piece.follow s

def Leads (frames : List Frame) (text : List Char) (s : Spot) : Prop :=
  ∀ rest, (s.settled = true ∨ beginsInert rest = true) → pass frames (text ++ rest) = pass s.frames rest

theorem beginsInert_cons {text} (begins : beginsInert text = true) : ∃ d rest, text = d :: rest ∧ Inert d := by
  cases text with
  | nil => cases begins
  | cons d rest => exact ⟨d, rest, rfl, of_decide_eq_true begins⟩

theorem Piece.follow_fixed {s s' text} (followed : (Piece.fixed text).follow s = some s') :
    (s.settled = true ∨ beginsInert text.toList = true) ∧ endsCalm text.toList = true ∧ s'.settled = true ∧
      pass s.frames text.toList = some s'.frames := by
  rw [Piece.follow] at followed
  split at followed
  · rename_i fits
    obtain ⟨frames, passed, rfl⟩ := Option.map_eq_some_iff.1 followed
    rw [Bool.and_eq_true, Bool.or_eq_true] at fits
    exact ⟨fits.1, fits.2, rfl, passed⟩
  · cases followed

theorem Piece.follow_free {s s' : Spot} {p : Piece} (free : ∀ text, p ≠ .fixed text) (followed : p.follow s = some s') :
    s.settled = true ∧ isCode s.frames = true ∧ s' = ⟨s.frames, false⟩ := by
  have rule : p.follow s = if s.settled && isCode s.frames then some ⟨s.frames, false⟩ else none := by
    cases p with
    | fixed text => exact absurd rfl (free text)
    | _ => rfl
  rw [rule] at followed
  split at followed
  · rename_i fits
    rw [Bool.and_eq_true] at fits
    exact ⟨fits.1, fits.2, (Option.some.inj followed).symm⟩
  · cases followed

theorem Piece.follow_leads {frames text s s'} {p : Piece} (whole : p.Whole) (leads : Leads frames text s)
    (followed : p.follow s = some s') : Leads frames (text ++ p.text.toList) s' := by
  intro rest next
  rw [List.append_assoc]
  by_cases fixed : ∃ content, p = .fixed content
  · obtain ⟨content, rfl⟩ := fixed
    obtain ⟨begins, ends, -, passed⟩ := Piece.follow_fixed followed
    have begins' : s.settled = true ∨ beginsInert (content.toList ++ rest) = true := by
      refine begins.imp_right fun inert => ?_
      obtain ⟨d, more, split, inert⟩ := beginsInert_cons inert
      rw [split]
      exact decide_eq_true inert
    have calm : ∀ c, content.toList.getLast? = some c → Calm c := by
      intro c last
      simpa [endsCalm, last] using ends
    exact (leads _ begins').trans (pass_append_calm passed calm)
  · have free : ∀ content, p ≠ .fixed content := fun content same => fixed ⟨content, same⟩
    obtain ⟨settled, code, rfl⟩ := Piece.follow_free free followed
    have passed : pass s.frames p.text.toList = some s.frames := pass_onto code (Piece.pass_text whole free)
    obtain ⟨d, more, rfl, inert⟩ := beginsInert_cons (next.resolve_left nofun)
    exact (leads _ (.inl settled)).trans (pass_append_inert passed inert)

theorem Line.follow_leads {frames text s s'} {line : Line} (whole : ∀ p ∈ line, p.Whole)
    (leads : Leads frames text s) (followed : line.follow s = some s') :
    Leads frames (text ++ line.text.toList) s' := by
  induction line generalizing text s with
  | nil =>
    cases followed
    rw [show Line.text [] = "" from rfl, String.toList_empty, List.append_nil]
    exact leads
  | cons p line ih =>
    obtain ⟨mid, first, rest⟩ := Option.bind_eq_some_iff.1 followed
    have split : Line.text (p :: line) = p.text ++ Line.text line := by
      rw [← String.toList_inj]
      simp [Line.text]
    rw [split, String.toList_append, ← List.append_assoc]
    exact ih (fun q mem => whole q (List.mem_cons_of_mem p mem))
      (Piece.follow_leads (whole p List.mem_cons_self) leads first) rest

theorem isCode_onto {frames base} (code : isCode frames = true) (around : isCode base = true) :
    isCode (frames ++ base) = true := by
  match frames, code with
  | [], _ => exact around
  | .bracket _ :: _, _ => rfl

theorem Piece.follow_onto {p : Piece} {frames after base settled settled'} (around : isCode base = true)
    (followed : p.follow ⟨frames, settled⟩ = some ⟨after, settled'⟩) :
    p.follow ⟨frames ++ base, settled⟩ = some ⟨after ++ base, settled'⟩ := by
  by_cases fixed : ∃ content, p = .fixed content
  · obtain ⟨content, rfl⟩ := fixed
    obtain ⟨begins, ends, done, passed⟩ := Piece.follow_fixed followed
    have fits : ((settled || beginsInert content.toList) && endsCalm content.toList) = true := by
      rw [Bool.and_eq_true, Bool.or_eq_true]
      exact ⟨begins, ends⟩
    cases done
    rw [Piece.follow, if_pos fits, pass_onto around passed]
    rfl
  · have free : ∀ content, p ≠ .fixed content := fun content same => fixed ⟨content, same⟩
    obtain ⟨rfl, code, same⟩ := Piece.follow_free free followed
    cases same
    cases p with
    | fixed content => exact absurd rfl (free content)
    | _ => exact if_pos (isCode_onto code around)

end Program

end ComponentCompiler
