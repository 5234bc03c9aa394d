import ComponentCompiler.Proofs.Argument.Loop
import ComponentCompiler.Proofs.Respan.Outline

/-!
# The canonical text of an outline

`render` writes an outline with one item a line. Every part of a well-formed line is read back up to spans.
-/

namespace ComponentCompiler.Template.Outline

open Text

/-! ### Writing -/

/-- Whether the braces in front make pairs. -/
def isPaired : List Char → Bool
  | [] => true
  | c :: rest => if c = '{' then !isPaired rest else true

/-- Fixed text as it is written: backslashes twice, and `{{` behind a backslash. The braces of a run are paired from
the right. -/
def escape : List Char → List Char
  | [] => []
  | [c] => if c = '\\' then ['\\', '\\'] else [c]
  | c :: d :: rest =>
    if c = '\\' then '\\' :: '\\' :: escape (d :: rest)
    else if c = '{' && d = '{' && isPaired rest then '\\' :: '{' :: '{' :: escape rest
    else c :: escape (d :: rest)

def fragmentText : Fragment → List Char
  | .static text => escape text.toList
  | .dynamic code => '{' :: '{' :: ' ' :: code.text.toList ++ [' ', '}', '}']
  | .reactive code => '{' :: '{' :: ':' :: ' ' :: code.text.toList ++ [' ', '}', '}']

/-- Code between an opening mark and a closing one on a line of its own, which also ends a comment. -/
def codeText (opening : Char) (code : Code) (close : Char) : List Char :=
  opening :: code.text.toList ++ ['\n', close]

/-- The inside of a string literal. A backslash before a line feed stands for itself. -/
def quotedText : List Char → List Char
  | [] => []
  | c :: rest =>
    (if c = '"' || c = '\\' && rest.head? ≠ some '\n' then ['\\', c] else [c]) ++ quotedText rest

def Value.written : Value → List Char
  | .text content _ => '"' :: quotedText content.toList ++ ['"']
  | .code c => codeText '{' c '}'

def Sigil.written : Sigil → List Char
  | .plain => []
  | .reactive => [':']
  | .event => ['@']
  | .sync => ['!']
  | .receiver kind => '(' :: kind.toList ++ [')']

def Attribute.written (a : Attribute) : List Char :=
  a.sigil.written ++ a.name.toList ++ (a.modifiers.flatMap fun m => '|' :: m.1.toList) ++
    a.value.toList.flatMap fun v => '=' :: v.written

def attributesText : List Attribute → List Char
  | [] => []
  | as => '(' :: (as.flatMap fun a => ' ' :: a.written) ++ [')']

def Shorthand.written : Shorthand → List Char
  | .id name _ => '#' :: name.toList
  | .className (.static name) _ => '.' :: name.toList
  | .className (.dynamic code) _ => '.' :: codeText '{' code '}'
  | .className (.reactive code) _ => '.' :: ':' :: codeText '{' code '}'

def Header.written (h : Header) : List Char :=
  h.name.toList ++ h.shorthands.flatMap Shorthand.written ++ attributesText h.attributes

def Directive.written (d : Directive) : List Char :=
  '@' :: d.name.toList ++ d.argument.toList.flatMap fun code => codeText '(' code ')'

def indentation (depth : Nat) : List Char := List.replicate (4 * depth) ' '

mutual

def itemText (depth : Nat) : Item → List Char
  | .tag header children _ | .component header children _ =>
    header.written ++ '\n' :: itemsText (depth + 1) children
  | .text items _ => '|' :: ' ' :: items.flatMap fragmentText ++ ['\n']
  | .directive d children _ => d.written ++ '\n' :: itemsText (depth + 1) children

def itemsText (depth : Nat) : List Item → List Char
  | [] => []
  | i :: items => indentation depth ++ itemText depth i ++ itemsText depth items

end

def render (items : List Item) : String := String.ofList (itemsText 0 items)

/-! ### Reading -/

/-- From every state with `before` the reader comes to one with `after`, and what it gives has `P`. -/
def Reads (m : StateT σ (Except ParseError) α) (before after : σ → Prop) (P : α → Prop) : Prop :=
  ∀ s, before s → Ends (fun _ => False) (fun a t => P a ∧ after t) (m.run s)

namespace Reads

variable {σ α β : Type} {m n : StateT σ (Except ParseError) α} {f : α → StateT σ (Except ParseError) β}
  {before mid after : σ → Prop} {P : α → Prop} {Q : β → Prop} {a : α}

theorem pure (h : P a) : Reads (Pure.pure a) before before P := fun _ here => ⟨h, here⟩

theorem bind (first : Reads m before mid P) (next : ∀ a, P a → Reads (f a) mid after Q) :
    Reads (m >>= f) before after Q :=
  fun s here => (first s here).bind fun a t read => next a read.1 t read.2

theorem known (first : Reads m before mid (· = a)) (next : Reads (f a) mid after Q) : Reads (m >>= f) before after Q :=
  first.bind fun _ same => same ▸ next

theorem map {g : α → β} (h : Reads m before after P) (same : ∀ a, P a → Q (g a)) : Reads (g <$> m) before after Q :=
  h.bind fun a fine => .pure (same a fine)

theorem get {f : σ → StateT σ (Except ParseError) β} (next : ∀ s, before s → Reads (f s) before after Q) :
    Reads (MonadState.get >>= f) before after Q := fun s here => next s here s here

theorem ite_pos {c : Prop} [Decidable c] (holds : c) (h : Reads m before after P) :
    Reads (if c then m else n) before after P := by
  rwa [if_pos holds]

theorem ite_neg {c : Prop} [Decidable c] (fails : ¬c) (h : Reads n before after P) :
    Reads (if c then m else n) before after P := by
  rwa [if_neg fails]

theorem gives {s} (h : Reads m before after P) (here : before s) : ∃ a, m.run' s = .ok a ∧ P a := by
  have ends := h s here
  rw [StateT.run'_eq]
  cases ran : m.run s with
  | error e =>
    rw [ran] at ends
    exact ends.elim
  | ok p =>
    rw [ran] at ends
    exact ⟨p.1, rfl, ends.1⟩

end Reads

abbrev Shows (text : List Char) (c : Cursor) : Prop := c.rest = text

section

variable {text rest mid marks : List Char}

theorem reads_set {c : Cursor} (shown : c.rest = rest) : Reads (set c) (Shows text) (Shows rest) fun _ => True :=
  fun _ _ => ⟨trivial, shown⟩

theorem reads_lift {x : Except ParseError α} {a : α} (h : x = .ok a) :
    Reads (StateT.lift x) (Shows text) (Shows text) (· = a) := by
  subst h
  exact fun _ here => ⟨rfl, here⟩

theorem reads_pos : Reads Read.pos (Shows text) (Shows text) fun _ => True := fun _ here => ⟨trivial, here⟩

theorem reads_spanFrom {start} : Reads (Read.spanFrom start) (Shows text) (Shows text) fun _ => True :=
  fun _ here => ⟨trivial, here⟩

theorem reads_peek : Reads Read.peek (Shows text) (Shows text) (· = text.head?) :=
  fun _ here => ⟨congrArg List.head? here, here⟩

theorem reads_accept (literal : List Char) :
    Reads (Read.accept literal) (Shows (literal ++ rest)) (Shows rest) (· = true) := by
  intro c shown
  refine (accept_ends literal).mono fun found d tried => ?_
  cases tried with
  | passed passes => exact ⟨rfl, List.append_cancel_left (passes.rest.symm.trans shown)⟩
  | missing absent => simp [shown, List.isPrefixOf_iff_prefix.2 (List.prefix_append literal rest)] at absent

theorem reads_accept_other {literal} (other : literal.isPrefixOf text = false) :
    Reads (Read.accept literal) (Shows text) (Shows text) (· = false) := by
  intro c shown
  refine (accept_ends literal).mono fun found d tried => ?_
  cases tried with
  | passed passes =>
    simp [← shown, passes.rest, List.isPrefixOf_iff_prefix.2 (List.prefix_append literal d.rest)] at other
  | missing => exact ⟨rfl, shown⟩

theorem Reads.found (literal) {m n} {P : α → Prop} (h : Reads m (Shows mid) (Shows rest) P) :
    Reads (Read.accept literal >>= fun found => if found = true then m else n) (Shows (literal ++ mid))
      (Shows rest) P :=
  (reads_accept literal).known (.ite_pos rfl h)

theorem Reads.other {literal m n} {P : α → Prop} (other : literal.isPrefixOf text = false)
    (h : Reads n (Shows text) (Shows rest) P) :
    Reads (Read.accept literal >>= fun found => if found = true then m else n) (Shows text) (Shows rest) P :=
  (reads_accept_other other).known (.ite_neg (by decide) h)

theorem reads_takeWhile {part : Char → Bool} {run} (parts : ∀ c ∈ run, part c = true)
    (stops : rest.head?.any part = false) :
    Reads (Read.takeWhile part) (Shows (run ++ rest)) (Shows rest) (· = run) := by
  have taken : (run ++ rest).takeWhile part = run := by
    rw [List.takeWhile_append_of_pos parts]
    cases rest with
    | nil => simp
    | cons c rest => simp_all
  intro c shown
  refine (takeWhile_ends part).mono fun text d read => ?_
  obtain ⟨rfl, passes⟩ := read
  have split := passes.rest
  rw [shown, taken] at split
  exact ⟨by rw [shown, taken], (List.append_cancel_left split).symm⟩

/-- The text goes on with one of `marks`. -/
def Heads (marks text : List Char) : Prop := ∃ c ∈ marks, ∃ rest, text = c :: rest

theorem Heads.single (c : Char) (rest : List Char) : Heads [c] (c :: rest) := ⟨c, List.mem_singleton_self c, rest, rfl⟩

theorem Heads.stops {part : Char → Bool} (h : Heads marks text) (apart : marks.any part = false) :
    text.head?.any part = false := by
  obtain ⟨c, mem, rest, rfl⟩ := h
  simpa using List.any_eq_false.1 apart c mem

theorem Heads.other {x literal} (h : Heads marks text) (apart : marks.contains x = false) :
    (x :: literal).isPrefixOf text = false := by
  obtain ⟨c, mem, rest, rfl⟩ := h
  have : x ≠ c := by rintro rfl; simp_all
  simp [List.isPrefixOf, this]

theorem Heads.mono {more} (h : Heads marks text) (within : marks ⊆ more) : Heads more text :=
  h.imp fun _ => And.imp_left (within ·)

theorem Heads.flatMap {write : α → List Char} {parts : List α} (starts : ∀ a ∈ parts, Heads marks (write a))
    (ends : Heads marks text) : Heads marks (parts.flatMap write ++ text) := by
  cases parts with
  | nil => exact ends
  | cons a parts =>
    obtain ⟨c, mem, rest, same⟩ := starts a List.mem_cons_self
    exact ⟨c, mem, rest ++ (parts.flatMap write ++ text), by simp [same]⟩

/-! ### Names and code -/

theorem Named.cons {first part : Char → Bool} {n} (named : Named first part n) :
    ∃ c cs, n.toList = c :: cs ∧ first c = true := by
  have start := named.start
  cases chars : n.toList with
  | nil => simp [chars] at start
  | cons c cs => exact ⟨c, cs, rfl, by simpa [chars] using start⟩

theorem Named.other {first part : Char → Bool} {n x literal} (named : Named first part n) (apart : first x = false) :
    (x :: literal).isPrefixOf (n.toList ++ rest) = false := by
  obtain ⟨c, cs, chars, start⟩ := named.cons
  have : x ≠ c := by rintro rfl; simp_all
  rw [chars]
  exact (Heads.single c (cs ++ rest)).other (by simpa using this)

theorem reads_name {expected n} (named : IsName n) (stops : rest.head?.any isNamePart = false) :
    Reads (name expected) (Shows (n.toList ++ rest)) (Shows rest) (· = n) := by
  obtain ⟨c, cs, chars, start⟩ := named.cons
  refine reads_peek.known (.ite_pos (by simpa [chars] using start) ?_)
  exact (reads_takeWhile named.parts stops).known (.pure String.ofList_toList)

theorem ofList_erased {code : Code} {close behind a b span} (cut : code.Cut close behind) (before : allBlank a = true)
    (after : allBlank b = true) :
    (Code.ofList (a ++ (code.text.toList ++ b)) span).respan .erased = code.respan .erased := by
  simp [Code.ofList, Code.respan, trim_unique before cut.trimmed after, cut.bare, Span.erased]

theorem reads_delimited {opening close what code} (cut : code.Bracketed close) :
    Reads (delimited close what) (Shows (codeText opening code close ++ rest)) (Shows rest)
      (·.respan .erased = code.respan .erased) := by
  refine .get fun start shown => ?_
  have inner : start.next.rest = code.text.toList ++ (['\n'] ++ ([close] ++ rest)) := by
    simp [Cursor.next, shown, codeText]
  obtain ⟨stop, found⟩ := cut.kept ⟨[close], what, ⟨start.pos, start.next.pos⟩⟩ start.next.pos rest rfl
  rw [← inner] at found
  refine (reads_lift found).known ?_
  refine (reads_set rfl).bind fun _ _ => .pure ?_
  rw [upTo_append (show start.next.rest = ([] ++ (code.text.toList ++ ['\n'])) ++ ([close] ++ rest) by simp [inner])]
  exact ofList_erased cut rfl rfl

/-! ### Ids and classes -/

theorem reads_className {fragment span} (fine : (Shorthand.className fragment span).WellFormed)
    (stops : rest.head?.any isNamePart = false) :
    Reads className (Shows ((Shorthand.className fragment span).written.tail ++ rest)) (Shows rest)
      (·.respan .erased = fragment.respan .erased) := by
  cases fragment with
  | static n =>
    obtain ⟨c, cs, chars, start⟩ := Named.cons fine
    have brace : ¬(n.toList ++ rest).head? = some '{' := by
      rw [chars]
      rintro ⟨⟩
      cases start
    refine .other (Named.other fine rfl) (reads_peek.known (.ite_neg brace ?_))
    exact (reads_takeWhile fine.parts stops).known (.ite_neg (by simp [chars]) (.pure (by rw [String.ofList_toList])))
  | dynamic code =>
    refine .other rfl (reads_peek.known (.ite_pos rfl ?_))
    exact (reads_delimited fine).bind fun _ same => .pure (congrArg Fragment.dynamic same)
  | reactive code =>
    refine .found [':'] (reads_peek.known (.ite_pos rfl ?_))
    exact (reads_delimited fine).bind fun _ same => .pure (congrArg Fragment.reactive same)

theorem reads_shorthand {s : Shorthand} (fine : s.WellFormed) (stops : rest.head?.any isNamePart = false) :
    Reads shorthand? (Shows (s.written ++ rest)) (Shows rest) fun r =>
      ∃ s', r = some s' ∧ s'.respan .erased = s.respan .erased := by
  refine reads_pos.bind fun start _ => ?_
  cases s with
  | id n span => exact .found ['#'] ((reads_name fine stops).known (reads_spanFrom.bind fun _ _ => .pure ⟨_, rfl, rfl⟩))
  | className fragment span =>
    have dot :
        (Shorthand.className fragment span).written = ['.'] ++ (Shorthand.className fragment span).written.tail := by
      cases fragment <;> rfl
    rw [dot, List.append_assoc]
    refine .other rfl (.found ['.'] ((reads_className fine stops).bind fun _ same => ?_))
    exact reads_spanFrom.bind fun _ _ => .pure ⟨_, rfl, by simp [Shorthand.respan, same, Span.erased]⟩

/-! ### Repetition -/

/-- Parts that each begin with one of `marks` are read one by one. -/
theorem reads_many (marks : List Char) {read : Read (Option α)} {view : α → β} {write : α → List Char}
    {parts : List α} {tail : List Char}
    (starts : ∀ a ∈ parts, Heads marks (write a)) (ends : Heads marks tail)
    (each : ∀ a ∈ parts, ∀ rest, Heads marks rest →
      Reads read (Shows (write a ++ rest)) (Shows rest) fun r => ∃ b, r = some b ∧ view b = view a)
    (stop : Reads read (Shows tail) (Shows rest) (· = none)) :
    Reads (Read.many read) (Shows (parts.flatMap write ++ tail)) (Shows rest) (·.map view = parts.map view) := by
  have go (n : Nat) (enough : (parts.flatMap write).length < n) :
      Reads (Read.many.go read n) (Shows (parts.flatMap write ++ tail)) (Shows rest) (·.map view = parts.map view) := by
    induction parts generalizing n with
    | nil =>
      obtain _ | n := n
      · cases enough
      · exact stop.known (.pure rfl)
    | cons a parts ih =>
      obtain ⟨⟨c, mem, cs, first⟩, others⟩ := List.forall_mem_cons.1 starts
      obtain ⟨here, later⟩ := List.forall_mem_cons.1 each
      obtain _ | n := n
      · cases enough
      rw [List.flatMap_cons, List.append_assoc]
      refine (here _ (.flatMap others ends)).bind ?_
      rintro _ ⟨b, rfl, same⟩
      refine (ih others later n ?_).bind fun bs rest => .pure (by rw [List.map_cons, List.map_cons, same, rest])
      simp only [List.flatMap_cons, List.length_append, first, List.length_cons] at enough
      omega
  refine .get fun c shown => go _ ?_
  rw [shown, List.length_append]
  omega

theorem Shorthand.written_heads (s : Shorthand) : Heads ['#', '.', '(', '\n'] s.written := by
  cases s with
  | id n span => exact ⟨'#', by decide, _, rfl⟩
  | className fragment span => cases fragment <;> exact ⟨'.', by decide, _, rfl⟩

theorem reads_shorthands {shorthands : List Shorthand} {tail} (fine : ∀ s ∈ shorthands, s.WellFormed)
    (ends : Heads ['(', '\n'] tail) :
    Reads (Read.many shorthand?) (Shows (shorthands.flatMap Shorthand.written ++ tail)) (Shows tail)
      (·.map (Shorthand.respan .erased) = shorthands.map (Shorthand.respan .erased)) := by
  refine reads_many ['#', '.', '(', '\n'] (fun s _ => s.written_heads) ?_
    (fun s mem rest heads => reads_shorthand (fine s mem) (heads.stops rfl)) ?_
  · exact ends.mono (by simp)
  · exact reads_pos.bind fun start _ => .other (ends.other rfl) (.other (ends.other rfl) (.pure rfl))

/-! ### Attributes -/

theorem stringBody?_quotedText {chars} (fine : IsStringText chars) (pos : Nat) (rest : List Char) :
    ∃ stop, stringBody? pos (quotedText chars ++ '"' :: rest) = some (chars, ⟨rest, stop⟩) := by
  have escaped (pos : Nat) (d : Char) (rest : List Char) : stringBody? pos ('\\' :: d :: rest) =
      (stringBody? (pos + 1 + d.utf8Size) rest).map fun r =>
        (if d = '"' || d = '\\' then d :: r.1 else '\\' :: d :: r.1, r.2) := by
    rw [stringBody?.eq_def]
    rfl
  induction fine generalizing pos with
  | nil => exact ⟨pos + 1, by rw [stringBody?.eq_def]; rfl⟩
  | @feed more _ ih =>
    obtain ⟨stop, read⟩ := ih (pos + 1 + '\n'.utf8Size)
    have written : quotedText ('\\' :: '\n' :: more) = '\\' :: '\n' :: quotedText more := rfl
    exact ⟨stop, by simp [written, escaped, read]⟩
  | @cons c more inside h ih =>
    by_cases mark : c = '"' ∨ c = '\\'
    · -- A backslash that is no escape stands before no line feed.
      have behind : more.head? ≠ some '\n' := by
        intro first
        cases h with
        | cons apart _ => exact apart (Option.some.inj first)
        | nil | feed => cases first
      have written : quotedText (c :: more) = '\\' :: c :: quotedText more := by
        rcases mark with rfl | rfl <;> simp [quotedText, behind]
      obtain ⟨stop, read⟩ := ih (pos + 1 + c.utf8Size)
      exact ⟨stop, by simp [written, escaped, read, mark]⟩
    · obtain ⟨quote, slash⟩ := not_or.1 mark
      obtain ⟨stop, read⟩ := ih (pos + c.utf8Size)
      refine ⟨stop, ?_⟩
      rw [quotedText, if_neg (by simp [quote, slash]), stringBody?.eq_def]
      simp [inside, quote, slash, read]

theorem reads_value {v : Value} (fine : v.WellFormed) :
    Reads value (Shows (v.written ++ rest)) (Shows rest) (·.respan .erased = v.respan .erased) := by
  refine reads_peek.known ?_
  cases v with
  | text content span =>
    refine .get fun start shown => ?_
    have inner : start.next.rest = quotedText content.toList ++ '"' :: rest := by
      simp [Cursor.next, shown, Value.written]
    obtain ⟨stop, read⟩ := stringBody?_quotedText fine start.next.pos rest
    simp only [inner, read]
    exact (reads_set rfl).bind fun _ _ => .pure (by simp [Value.respan, Span.erased])
  | code c =>
    refine .ite_neg (by decide) (.ite_pos rfl ?_)
    exact (reads_delimited fine).bind fun _ same => .pure (congrArg Value.code same)

theorem reads_sigil {a : Attribute} (fine : a.WellFormed) :
    Reads sigil (Shows (a.sigil.written ++ (a.name.toList ++ rest))) (Shows (a.name.toList ++ rest)) (· = a.sigil) := by
  obtain ⟨g, n, modifiers, v, span⟩ := a
  have named := fine.name
  cases g with
  | plain =>
    have other {x : Char} (apart : isNameStart x = false) : [x].isPrefixOf (n.toList ++ rest) = false :=
      named.1.other apart
    exact .other (other rfl) (.other (other rfl) (.other (other rfl) (.other (other rfl) (.pure rfl))))
  | event => exact .found ['@'] (.pure rfl)
  | sync => exact .other rfl (.found ['!'] (.pure rfl))
  | reactive => exact .other rfl (.other rfl (.found [':'] (.pure rfl)))
  | receiver k =>
    rw [Sigil.written, List.append_assoc]
    refine .other rfl (.other rfl (.other rfl (.found ['('] ?_)))
    exact (reads_name named.1 rfl).known (.found [')'] (.pure rfl))

theorem reads_modifiers {modifiers : List (String × Span)} (fine : ∀ m ∈ modifiers, IsName m.1)
    (ends : Heads ['=', ' ', ')'] rest) :
    Reads (Read.many modifier?) (Shows ((modifiers.flatMap fun m => '|' :: m.1.toList) ++ rest)) (Shows rest)
      (·.map (fun m => (m.1, m.2.erased)) = modifiers.map fun m => (m.1, m.2.erased)) := by
  refine reads_many ['|', '=', ' ', ')'] (fun m _ => ⟨'|', by decide, _, rfl⟩) ?_ (fun m mem rest heads => ?_) ?_
  · exact ends.mono (by simp)
  · refine .found ['|'] (reads_pos.bind fun _ _ => (reads_name (fine m mem) (heads.stops rfl)).known ?_)
    exact reads_spanFrom.bind fun _ _ => .pure ⟨_, rfl, rfl⟩
  · exact .other (ends.other rfl) (.pure rfl)

theorem reads_attributeEnd {start g n modifiers span} {others : List (String × Span)} {v : Option Value}
    (same : modifiers.map (fun m => (m.1, m.2.erased)) = others.map fun m => (m.1, m.2.erased))
    (fine : ∀ x ∈ v, x.WellFormed) (ends : Heads [' ', ')'] rest) :
    Reads (attributeEnd start g n modifiers) (Shows ((v.toList.flatMap fun v => '=' :: v.written) ++ rest)) (Shows rest)
      (·.respan .erased = Attribute.respan .erased ⟨g, n, others, v, span⟩) := by
  have ending {v' : Option Value} (read : v'.map (Value.respan .erased) = v.map (Value.respan .erased)) :
      Reads (do return Attribute.mk g n modifiers v' (← Read.spanFrom start)) (Shows rest) (Shows rest)
        (·.respan .erased = Attribute.respan .erased ⟨g, n, others, v, span⟩) :=
    reads_spanFrom.bind fun _ _ => .pure (by rw [Attribute.respan, same, read]; rfl)
  cases v with
  | none => exact .other (ends.other rfl) (Reads.known (a := none) (.pure rfl) (ending rfl))
  | some v =>
    rw [Option.toList_some, List.flatMap_singleton]
    have given : Reads (some <$> value) (Shows (v.written ++ rest)) (Shows rest)
        (·.map (Value.respan .erased) = some (v.respan .erased)) :=
      (reads_value (fine v rfl)).map fun _ => congrArg some
    exact .found ['='] (given.bind fun _ => ending)

theorem reads_singleAttribute {a : Attribute} (fine : a.WellFormed) (ends : Heads [' ', ')'] rest) :
    Reads singleAttribute (Shows (a.written ++ rest)) (Shows rest) (·.respan .erased = a.respan .erased) := by
  unfold singleAttribute
  refine reads_pos.bind fun start _ => ?_
  obtain ⟨g, n, modifiers, v, span⟩ := a
  have named := fine.name
  have valued := fine.value
  have valueEnd : Heads ['=', ' ', ')'] ((v.toList.flatMap fun v => '=' :: v.written) ++ rest) :=
    .flatMap (fun v _ => ⟨'=', by decide, _, rfl⟩) (ends.mono (by simp))
  have nameEnd : Heads ['|', '=', ' ', ')']
      ((modifiers.flatMap fun m => '|' :: m.1.toList) ++ ((v.toList.flatMap fun v => '=' :: v.written) ++ rest)) :=
    .flatMap (fun m _ => ⟨'|', by decide, _, rfl⟩) (valueEnd.mono (by simp))
  simp only [Attribute.written, List.append_assoc]
  refine (reads_sigil fine).known ?_
  cases g with
  | receiver k =>
    obtain ⟨-, rfl, rfl⟩ := named
    exact reads_attributeEnd rfl valued ends
  | _ =>
    refine (reads_name named.1 (nameEnd.stops rfl)).known ?_
    exact (reads_modifiers named.2 valueEnd).bind fun found same => reads_attributeEnd same valued ends

theorem reads_nextAttribute {opening} {a : Attribute} (fine : a.WellFormed) (ends : Heads [' ', ')'] rest) :
    Reads (nextAttribute? opening) (Shows ([' '] ++ (a.written ++ rest))) (Shows rest) fun r =>
      ∃ b, r = some b ∧ b.respan .erased = a.respan .erased := by
  obtain ⟨c, cs, first, apart⟩ : ∃ c cs, a.written = c :: cs ∧ (isBlank c || c = ',' || c = ')') = false := by
    obtain ⟨g, n, modifiers, v, span⟩ := a
    cases g with
    | plain =>
      obtain ⟨c, cs, chars, start⟩ := fine.name.1.cons
      refine ⟨c, _, by simp only [Attribute.written, Sigil.written, chars]; rfl, ?_⟩
      have part : isIdentifierPart c = true := by grind [isNameStart, isIdentifierPart, isAsciiAlphanumeric]
      have ink := Argument.isBlank_of_identifierPart part
      have comma : c ≠ ',' := by rintro rfl; cases start
      have close : c ≠ ')' := by rintro rfl; cases start
      simp [ink, comma, close]
    | event | sync | reactive | receiver => exact ⟨_, _, rfl, by decide⟩
  simp only [Bool.or_eq_false_iff, decide_eq_false_iff_not] at apart
  have read := reads_singleAttribute fine ends
  rw [first] at read ⊢
  refine (reads_takeWhile (List.forall_mem_singleton.2 rfl) (by simp [apart])).bind fun _ _ => reads_peek.known ?_
  refine .other ((Heads.single c _).other (by simp [eq_comm, apart.2])) ?_
  exact read.map fun b same => ⟨b, rfl, same⟩

theorem reads_attributes {as : List Attribute} (fine : ∀ a ∈ as, a.WellFormed) (ends : Heads ['\n'] rest) :
    Reads attributes (Shows (attributesText as ++ rest)) (Shows rest)
      (·.map (Attribute.respan .erased) = as.map (Attribute.respan .erased)) := by
  refine reads_pos.bind fun start _ => ?_
  cases as with
  | nil => exact .other (ends.other rfl) (.pure rfl)
  | cons a as =>
    simp only [attributesText, List.cons_append, List.append_assoc]
    refine .found ['('] (reads_many [' ', ')'] (fun b _ => ⟨' ', by decide, _, rfl⟩)
      ⟨')', by decide, rest, rfl⟩ (fun b mem rest heads => reads_nextAttribute (fine b mem) heads) ?_)
    refine (reads_takeWhile (List.forall_mem_nil _) rfl).bind fun _ _ => reads_peek.known ?_
    exact .found [')'] (.pure rfl)

/-! ### Text -/

theorem reads_interpolationFrom {opening reactive code} (cut : code.Interpolated) :
    Reads (interpolationFrom opening reactive)
      (Shows ([' '] ++ (code.text.toList ++ ([' '] ++ (['}', '}'] ++ rest))))) (Shows rest)
      (·.respan .erased = Fragment.respan .erased (if reactive then .reactive code else .dynamic code)) := by
  refine .get fun inner shown => ?_
  obtain ⟨stop, found⟩ := cut.kept ⟨['}', '}'], .interpolation, opening⟩ (inner.pos + byteLength [' ']) rest rfl
  rw [← Balanced.scan_blanks rfl rfl rfl, ← shown] at found
  have passed : inner.upTo ⟨['}', '}'] ++ rest, stop⟩ = [' '] ++ (code.text.toList ++ [' ']) :=
    upTo_append (by simp [shown])
  have some : allBlank ([' '] ++ (code.text.toList ++ [' '])) = false := by
    rw [← Bool.not_eq_true, ← trim_eq_nil, trim_unique rfl cut.trimmed rfl]
    exact cut.some
  simp only [Balanced.find, found]
  refine Reads.known (a := ⟨['}', '}'] ++ rest, stop⟩) (.pure rfl) ?_
  have whole : ([' '] ++ (code.text.toList ++ [' '])).contains '\n' = false := by simp [cut.whole]
  simp only [passed, whole, some]
  refine (reads_set rfl).bind fun _ _ => .pure ?_
  cases reactive
  · exact congrArg Fragment.dynamic (ofList_erased cut.toCut rfl rfl)
  · exact congrArg Fragment.reactive (ofList_erased cut.toCut rfl rfl)

theorem reads_interpolation {f} (fine : f.Interpolates) :
    Reads interpolation (Shows (fragmentText f ++ rest)) (Shows rest) (·.respan .erased = f.respan .erased) := by
  unfold interpolation
  refine reads_pos.bind fun start _ => ?_
  cases f with
  | static text => cases fine
  | dynamic code =>
    simp only [fragmentText, List.cons_append, List.append_assoc]
    refine (reads_accept ['{', '{']).known ((reads_accept_other rfl).known ?_)
    exact reads_interpolationFrom fine
  | reactive code =>
    simp only [fragmentText, List.cons_append, List.append_assoc]
    refine (reads_accept ['{', '{']).known ((reads_accept [':']).known ?_)
    exact reads_interpolationFrom fine

/-- Steps through `text` lead to the end of the line, and with `run` in front they are gathered to what has `E`. -/
def Gathers (rest run text : List Char) (E : List Fragment → Prop) : Prop :=
  ∀ n, text.length < n → Reads (Read.many.go textStep? n) (Shows text) (Shows ('\n' :: rest)) fun steps =>
    E (gather run steps)

variable {run : List Char} {E : List Fragment → Prop}

theorem Gathers.chars (chars) (first : Reads textStep? (Shows text) (Shows mid) (· = some (.chars chars)))
    (shorter : mid.length < text.length) (others : Gathers rest (run ++ chars) mid E) : Gathers rest run text E := by
  rintro (_ | n) enough
  · cases enough
  · exact first.known ((others n (by omega)).bind fun steps fine => .pure fine)

theorem atLineEnd_eq_false (pos : Nat) {c} (feed : c ≠ '\n') (back : c = '\r' → text ≠ [] ∧ text.head? ≠ some '\n') :
    Cursor.atLineEnd ⟨c :: text, pos⟩ = false := by
  unfold Cursor.atLineEnd
  grind

theorem gathers_char {c} (feed : c ≠ '\n') (slash : c ≠ '\\') (back : c = '\r' → mid.head? ≠ some '\n')
    (brace : c = '{' → mid.head? ≠ some '{') (some : mid ≠ []) (others : Gathers rest (run ++ [c]) mid E) :
    Gathers rest run (c :: mid) E := by
  refine .chars [c] (.get fun cursor shown => ?_) (Nat.lt_succ_self _) others
  obtain ⟨_, pos⟩ := cursor
  cases shown
  have going := atLineEnd_eq_false pos feed fun same => ⟨some, back same⟩
  have other {literal : List Char} : ('\\' :: literal).isPrefixOf (c :: mid) = false := by
    simp [List.isPrefixOf, slash.symm]
  have single : ['{', '{'].isPrefixOf (c :: mid) = false := by
    cases mid <;> grind [List.isPrefixOf]
  refine .ite_neg (by simp [going]) (.other other (.other other (.other other (.ite_neg (by simp [single]) ?_))))
  exact (reads_set rfl).bind fun _ _ => .pure rfl

/-- A character is written behind a backslash or as it is, a brace only if those behind it make pairs. -/
theorem escape_head {c cs x} (shown : (escape (c :: cs) ++ mid).head? = some x) :
    x = '\\' ∨ x = c ∧ (c = '{' → isPaired cs = true) := by
  cases cs <;> unfold escape at shown <;> grind [isPaired]

theorem endsLone_cons {c cs} (h : endsLone cs) (other : cs = ['{'] → c ≠ '{') : endsLone (c :: cs) := by
  obtain ⟨last, single⟩ := h
  cases cs with
  | nil => cases last
  | cons d cs => cases cs <;> simp_all [endsLone]

/-- Escaped text is gathered to the characters that it stands for, if `mid` makes no pair with its last brace and does
not end the line at its last character. -/
theorem gathers_escape {cs} (whole : '\n' ∉ cs) (lone : endsLone cs → mid.head? ≠ some '{')
    (back : cs.getLast? = some '\r' → mid.head? ≠ some '\n') (some : mid ≠ [])
    (others : Gathers rest (run ++ cs) mid E) : Gathers rest run (escape cs ++ mid) E := by
  have slash (run text : List Char) (others : Gathers rest (run ++ ['\\']) text E) :
      Gathers rest run ('\\' :: '\\' :: text) E := by
    refine .chars ['\\'] ?_ (by simp only [List.length_cons]; omega) others
    rintro ⟨_, pos⟩ rfl
    exact ⟨rfl, rfl⟩
  fun_induction escape cs generalizing run with
  | case1 => simpa using others
  | case2 => exact slash _ _ others
  | case3 c other =>
    obtain ⟨feed, -⟩ := List.ne_and_not_mem_of_not_mem_cons whole
    refine gathers_char feed.symm other (fun same => back (by simp [same])) (fun same => lone ?_) some others
    simp [endsLone, same]
  | case4 d tail ih =>
    obtain ⟨-, whole⟩ := List.ne_and_not_mem_of_not_mem_cons whole
    refine slash _ _ (ih whole (fun h => lone (endsLone_cons h fun _ => by decide)) (by simpa using back) ?_)
    simpa using others
  | case5 c d tail other pair ih =>
    obtain ⟨⟨rfl, rfl⟩, paired⟩ : (c = '{' ∧ d = '{') ∧ isPaired tail = true := by simpa using pair
    have single : tail ≠ ['{'] := by rintro rfl; cases paired
    refine .chars ['{', '{'] ?_ (by simp; omega) (ih (by simp_all) ?_ ?_ ?_)
    · rintro ⟨_, pos⟩ rfl
      exact ⟨rfl, rfl⟩
    · intro h
      refine lone (endsLone_cons (endsLone_cons h (absurd · single)) ?_)
      rintro ⟨⟩
      cases h.1
    · intro last
      exact back (by simp [last, List.getLast?_cons])
    · simpa using others
  | case6 c d tail other unpaired ih =>
    obtain ⟨feed, inner⟩ := List.ne_and_not_mem_of_not_mem_cons whole
    rw [List.cons_append]
    refine gathers_char feed.symm other ?_ ?_ (by simp [some])
      (ih inner ?_ (by simpa using back) (by simpa using others))
    · intro _ shown
      rcases escape_head shown with same | ⟨rfl, -⟩
      · cases same
      · simp at inner
    · rintro rfl shown
      rcases escape_head shown with same | ⟨rfl, paired⟩
      · cases same
      · simp [paired] at unpaired
    · refine fun h => lone (endsLone_cons h ?_)
      rintro ⟨⟩ rfl
      simp [isPaired] at unpaired

theorem gathers_lineEnd (done : E (gather run [])) : Gathers rest run ('\n' :: rest) E := by
  rintro (_ | n) enough
  · cases enough
  · rintro ⟨_, pos⟩ rfl
    exact ⟨done, rfl⟩

def lead (run : List Char) : List Fragment := if run.isEmpty then [] else [.static (String.ofList run)]

theorem Fragment.Interpolates.written {f : Fragment} (fine : f.Interpolates) :
    ∃ more, fragmentText f = '{' :: '{' :: more := by
  cases f with
  | static text => cases fine
  | dynamic code | reactive code => exact ⟨_, rfl⟩

theorem gathers_code {f : Fragment} {F : List Fragment → Prop} (fine : f.Interpolates) (others : Gathers rest [] mid F)
    (joined : ∀ f' : Fragment, f'.respan .erased = f.respan .erased → ∀ fs, F fs → E (lead run ++ f' :: fs)) :
    Gathers rest run (fragmentText f ++ mid) E := by
  obtain ⟨more, written⟩ := Fragment.Interpolates.written fine
  have first : Reads textStep? (Shows (fragmentText f ++ mid)) (Shows mid) fun r =>
      ∃ f' : Fragment, r = some (.code f') ∧ f'.respan .erased = f.respan .erased := by
    refine .get fun c shown => ?_
    obtain ⟨_, pos⟩ := c
    cases shown
    have going : Cursor.atLineEnd ⟨fragmentText f ++ mid, pos⟩ = false := by rw [written]; rfl
    have other {literal : List Char} : ('\\' :: literal).isPrefixOf (fragmentText f ++ mid) = false := by
      rw [written]; rfl
    refine .ite_neg (by simp [going]) (.other other (.other other (.other other (.ite_pos (by simp [written]) ?_))))
    exact (reads_interpolation fine).bind fun f' same => .pure ⟨f', rfl, same⟩
  rintro (_ | n) enough
  · cases enough
  refine first.bind ?_
  rintro _ ⟨f', rfl, same⟩
  refine (others n ?_).bind fun steps read => .pure ?_
  · simp [written] at enough
    omega
  · have all := joined f' same _ read
    rw [lead] at all
    rw [gather]
    split at all <;> simp_all

theorem IsTextLine.behind {items} (line : IsTextLine (lead run ++ items)) : IsTextLine items := by
  unfold lead at line
  split at line
  · exact line
  · exact line.2.2.2

theorem IsTextLine.code {f items} (line : IsTextLine (f :: items)) (other : f.isStatic = false) : f.Interpolates := by
  cases f with
  | static text => cases other
  | dynamic code | reactive code => exact line.1

theorem getLast?_of_trimEnd {cs} (kept : trimEnd cs = cs) : cs.getLast? ≠ some '\r' := by
  intro last
  obtain ⟨a, rfl⟩ := List.getLast?_eq_some_iff.1 last
  rw [trimEnd_append_blank rfl] at kept
  obtain ⟨b, split, -⟩ := exists_trimEnd_append a
  have lengths := congrArg List.length split
  simp [kept] at lengths

/-- Nothing but code, or the end of the line, follows text that was not yet gathered. -/
theorem gathers_items {items} (line : IsTextLine (lead run ++ items)) :
    Gathers rest run (items.flatMap fragmentText ++ '\n' :: rest)
      (·.map (Fragment.respan .erased) = (lead run ++ items).map (Fragment.respan .erased)) := by
  induction items generalizing run with
  | nil =>
    refine gathers_lineEnd ?_
    by_cases none : run = []
    · subst none
      rfl
    · obtain ⟨-, kept⟩ : '\n' ∉ run ∧ trimEnd run = run := by simpa [lead, none, IsTextLine] using line
      simp [gather, kept, lead, none]
  | cons f items ih =>
    rw [List.flatMap_cons, List.append_assoc]
    cases f with
    | static text =>
      obtain rfl : run = [] := by
        refine Decidable.byContradiction fun none => ?_
        simp [lead, none, IsTextLine, Fragment.isStatic] at line
      obtain ⟨some, whole, ends, later⟩ := id line
      have own : lead text.toList = [.static text] := by simp [lead, some]
      have read := @ih text.toList (by rw [own]; exact line)
      rw [own] at read
      refine gathers_escape whole ?_ ?_ (by simp) read
      · intro lone
        cases items with
        | nil => simp
        | cons next items => exact absurd lone ends.2
      · intro last
        cases items with
        | nil => exact absurd last (getLast?_of_trimEnd ends)
        | cons next items =>
          obtain ⟨more, written⟩ := Fragment.Interpolates.written (IsTextLine.code later ends.1)
          simp [written]
    | dynamic code | reactive code =>
      have fine := line.behind
      refine gathers_code fine.1 (@ih [] fine.2) fun f' same fs read => ?_
      simp [same, read, lead]

theorem reads_textRun {items} (line : IsTextLine items) :
    Reads textRun (Shows (items.flatMap fragmentText ++ '\n' :: rest)) (Shows ('\n' :: rest))
      (·.map (Fragment.respan .erased) = items.map (Fragment.respan .erased)) := by
  have steps : Reads (Read.many textStep?) (Shows (items.flatMap fragmentText ++ '\n' :: rest)) (Shows ('\n' :: rest))
      fun steps => (gather [] steps).map (Fragment.respan .erased) = items.map (Fragment.respan .erased) :=
    .get fun c shown => gathers_items (show IsTextLine (lead [] ++ items) from line) _ (by
      rw [shown]
      exact Nat.lt_succ_self _)
  exact steps.bind fun _ read => .pure read

end

end ComponentCompiler.Template.Outline
