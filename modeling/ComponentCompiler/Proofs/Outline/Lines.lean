import ComponentCompiler.Proofs.Outline.Levels

/-!
# Lines of outlines

`Listed` says that the lines of an outline stand one behind the other in the text. Main statements: `parse_listed`,
`parse_wellFormed` and `parse_in_step`.
-/

namespace ComponentCompiler.Template

open Text

namespace Outline

def Header.marked (h : Header) : List Mark :=
  h.shorthands.flatMap Shorthand.marked ++ h.attributes.flatMap Attribute.marked

def Directive.marked (d : Directive) : List Mark := .place d.nameSpan :: d.argument.toList.map .code

def Item.marked : Item → List Mark
  | .tag header _ _ | .component header _ _ => header.marked
  | .text items _ => items.flatMap marksOfFragment
  | .directive d _ _ => d.marked

mutual

def Item.preorder : Item → List Item
  | .tag header children span => .tag header children span :: preorder children
  | .component header children span => .component header children span :: preorder children
  | .text items span => [.text items span]
  | .directive d children span => .directive d children span :: preorder children

def preorder : List Item → List Item
  | [] => []
  | i :: items => i.preorder ++ preorder items

end

theorem preorder_eq (items : List Item) : preorder items = items.flatMap Item.preorder := by
  induction items with
  | nil => rfl
  | cons i items ih => rw [preorder, ih, List.flatMap_cons]

theorem preorder_item (i : Item) : i.preorder = i :: preorder i.children := by
  cases i <;> rfl

theorem preorder_concat (before : List Item) (i : Item) :
    preorder (before ++ [i]) = preorder before ++ i :: preorder i.children := by
  rw [preorder_eq, List.flatMap_append, List.flatMap_singleton, ← preorder_eq, preorder_item]

theorem mem_preorder {i items} (mem : i ∈ items) : i ∈ preorder items := by
  rw [preorder_eq]
  refine List.mem_flatMap.2 ⟨i, mem, ?_⟩
  rw [preorder_item]
  exact List.mem_cons_self

/-- Between `c` and `d` the lines stand one behind the other, none of them empty, each with all its marks. -/
inductive Listed : Cursor → List Item → Cursor → Prop where
  | nil {c d : Cursor} (leads : c.Leads d) : Listed c [] d
  | cons {c a b d : Cursor} {i : Item} {items : List Item} (before : c.Leads a) (header : a.Leads b)
      (long : a.pos < b.pos) (span : i.span = ⟨a.pos, b.pos⟩) (marks : ∀ k ∈ i.marked, k.Stands a b)
      (rest : Listed b items d) : Listed c (i :: items) d

section

variable {b c d e : Cursor} {xs ys : List Item}

theorem Listed.leads (listed : Listed c xs d) : c.Leads d := by
  induction listed with
  | nil leads => exact leads
  | cons before header _ _ _ _ ih => exact before.trans (header.trans ih)

theorem Listed.after (listed : Listed c xs d) (before : b.Leads c) : Listed b xs d := by
  cases listed with
  | nil leads => exact .nil (before.trans leads)
  | cons first header long span marks rest => exact .cons (before.trans first) header long span marks rest

theorem Listed.append (first : Listed c xs d) (second : Listed d ys e) : Listed c (xs ++ ys) e := by
  induction first with
  | nil leads => exact second.after leads
  | cons before header long span marks _ ih => exact .cons before header long span marks (ih second)

theorem Listed.moves {i} (listed : Listed c (preorder (i :: xs)) d) : c.pos < d.pos := by
  rw [preorder, preorder_item] at listed
  cases listed with
  | cons before _ long _ _ rest =>
    exact Nat.lt_of_le_of_lt before.pos_le (Nat.lt_of_lt_of_le long rest.leads.pos_le)

end

end Outline

namespace Layout

open Cursor

structure Left (before : List (List Char)) (r : Reading) : Prop where
  chain : r.levels.IsChain Deeper
  some : r.levels ≠ []
  closing : Closing r.levels r.pending
  balance : r.levels.length + r.pending.count .dedent = before.length

section

variable {o : Cursor} {r : Reading} {levels before : List (List Char)} {t : Layout} {tokens : List Layout}

theorem Left.of_length (left : Left levels r) (same : levels.length = before.length) : Left before r :=
  { left with balance := left.balance.trans same }

theorem Due.left (due : Due levels r.levels r.pending) (other : r.pending ≠ [.indent]) : Left levels r := by
  have closing := due.shape.resolve_left other
  exact ⟨due.chain, due.some, closing, due.balance.trans (by rw [closing.counts.1, Nat.add_zero])⟩

theorem Due.indent (due : Due before levels tokens) (first : tokens.head? = .some .indent) : tokens = [.indent] := by
  refine due.shape.resolve_right fun closing => ?_
  cases closing <;> cases first

theorem ne_indent (first : tokens.head? = some t) (other : t ≠ .indent) : tokens ≠ [.indent] := by
  rintro rfl
  exact other (Option.some.inj first).symm

theorem Left.cases (left : Left before r) :
    r.pending = [.sibling] ∧ r.levels.length = before.length ∨ r.pending = [.eof] ∧ before.length = 1 ∨
      ∃ rest, r.pending = .dedent :: rest ∧ Closing r.levels rest ∧
        r.levels.length + rest.count .dedent + 1 = before.length := by
  obtain ⟨-, -, closing, balance⟩ := left
  generalize r.pending = tokens at closing balance
  cases closing with
  | line => exact .inl ⟨rfl, balance⟩
  | eof base => exact .inr (.inl ⟨rfl, balance.symm.trans base⟩)
  | dedent rest => exact .inr (.inr ⟨_, rfl, rest, by simpa [Nat.add_assoc] using balance⟩)

theorem Misplaced.locates {e} (misplaced : Misplaced r e) (leads : o.Leads r.cursor) : o.Locates e := by
  obtain ⟨lead, line, found, -, -, rfl⟩ := misplaced
  obtain ⟨c, starts, passes⟩ := (firstLine?_indented found).starts
  have blanks := (r.cursor.passes_dropWhile isInlineBlank).leads
  have covered := (leads.trans (blanks.trans ((leads_skipLine _).trans starts.leads))).reaches passes.leads
  have same : line.pos - byteLength lead = c.pos := by rw [passes.pos, Nat.add_sub_cancel]
  exact ⟨same ▸ covered, trivial⟩

theorem peek_leads (r : Reading) : Ends (fun _ => True) (fun _ r' => r.cursor.Leads r'.cursor) (peek.run r) := by
  unfold peek
  refine Ends.bind (Q := fun a t => a = r ∧ t = r) ⟨rfl, rfl⟩ ?_
  rintro _ _ ⟨rfl, rfl⟩
  split
  · exact Leads.refl _
  · exact (Ends.lift (advance_ends _)).faultless.bind fun r' _ moved => moved.1.leads

end

end Layout

namespace Outline

/-- What to do where lines and layout are out of step. -/
structure Detours where
  /-- Tokens are asked for inside a line. -/
  inLine : Reading → Except ParseError Reading
  /-- There is a deeper line behind a line and its block. -/
  deeper : LineRead (List Item)
  /-- The level of a block does not end behind its lines. -/
  blockEnd : LineRead (List Item)
  /-- The text does not end behind the lines of the outermost level. -/
  templateEnd : LineRead (List Item)

namespace Detours

open LineRead

variable (off : Detours)

def peek : LineRead Layout := do
  let r ← get
  match r.pending with
  | token :: _ => return token
  | [] =>
    let r ← if (r.cursor.dropWhile isInlineBlank).atLineEnd then Layout.advance r else off.inLine r
    set r
    return r.pending.headD .eof

def next : LineRead Layout := do
  let token ← off.peek
  modify fun r => { r with pending := r.pending.tail }
  return token

def noBlock : LineRead Unit := do
  if (← off.peek) = .indent then
    let pos := (← get).cursor.pos
    throw (.unexpectedIndent (Span.emptyAt pos))

def lines (line : LineRead Item) : LineRead (List Item) := do
  go ((← get).cursor.rest.length + 1)
where
  go : Nat → LineRead (List Item)
    | 0 => return []
    | n + 1 => do
      let item ← line
      match ← off.peek with
      | .sibling =>
        let _ ← off.next
        return item :: (← go n)
      | .indent => off.deeper
      | .dedent | .eof => return [item]

def block (line : LineRead Item) : LineRead (List Item) := do
  if (← off.peek) = .indent then
    let _ ← off.next
    let items ← off.lines line
    match ← off.next with
    | .dedent => return items
    | _ => off.blockEnd
  else return []

def tail (line : LineRead Item) (allowText : Bool) : LineRead (List Item) := do
  if ← inline (Read.accept [':']) then
    let _ ← inline (Read.takeWhile isInlineBlank)
    if (← get).cursor.atLineEnd then inline (Read.fail .inlineChild)
    else return [← line]
  else
    let blanks ← inline (Read.takeWhile isInlineBlank)
    let start := (← get).cursor
    if start.atLineEnd then off.block line
    else if allowText && !blanks.isEmpty then
      let items ← inline textRun
      let span ← inline (Read.spanFrom start.pos)
      return .text items span :: (← off.block line)
    else inline (Read.fail .lineTail)

def element (line : LineRead Item) (isPart : Char → Bool) (make : Header → List Item → Span → Item) :
    LineRead Item := do
  let start ← inline Read.pos
  let name ← inline (Read.takeWhile isPart)
  let shorthands ← inline (Read.many shorthand?)
  let attributes ← inline attributes
  let span ← inline (Read.spanFrom start)
  let children ← off.tail line true
  return make ⟨String.ofList name, shorthands, attributes⟩ children span

def directiveEnd (line : LineRead Item) (start : Nat) (name : String) (nameSpan : Span) (argument : Option Code) :
    LineRead Item := do
  let span ← inline (Read.spanFrom start)
  let children ←
    if isBlockless name then do
      let _ ← inline (Read.takeWhile isInlineBlank)
      if (← get).cursor.atLineEnd then
        off.noBlock
        pure []
      else inline (Read.fail .lineEnd)
    else off.tail line false
  return .directive ⟨name, nameSpan, argument⟩ children span

def directive (line : LineRead Item) : LineRead Item := do
  let start ← inline Read.pos
  let _ ← inline (Read.accept ['@'])
  let nameStart ← inline Read.pos
  let name ← inline (name .directiveName)
  let nameSpan ← inline (Read.spanFrom nameStart)
  let argument ←
    if (← inline Read.peek) = some '(' then some <$> inline parenthesized else pure none
  off.directiveEnd line start name nameSpan argument

def textLine : LineRead Item := do
  let start ← inline Read.pos
  let _ ← inline (Read.accept ['|'])
  let _ ← inline (Read.accept [' '])
  let items ← inline textRun
  let span ← inline (Read.spanFrom start)
  off.noBlock
  return .text items span

def line : Nat → LineRead Item
  | 0 => inline (Read.fail .lineStart)
  | depth + 1 => do
    match ← inline Read.peek with
    | some c =>
      if 'a' ≤ c && c ≤ 'z' then off.element (line depth) isNamePart .tag
      else if 'A' ≤ c && c ≤ 'Z' then off.element (line depth) isWordPart .component
      else if c = '@' then off.directive (line depth)
      else if c = '|' then off.textLine
      else inline (Read.fail .lineStart)
    | none => inline (Read.fail .lineStart)

def template (depth : Nat) : LineRead (List Item) := do
  let items ← off.lines (off.line depth)
  match ← off.next with
  | .eof => return items
  | _ => off.templateEnd

def parse (source : String) (base : Nat) : Except ParseError (List Item) :=
  let start := Cursor.start source base
  match Layout.firstLine? start with
  | none => .ok []
  | some (indent, cursor) =>
    (off.template (start.rest.length + 1)).run' { cursor, levels := [indent] }

end Detours

open Cursor Layout

/-- From `r` on the two readers do the same. It ends as `Q` says, or with a fault of a line behind `o`. -/
def Both (o : Cursor) (Q : α → Reading → Prop) (m m' : LineRead α) (r : Reading) : Prop :=
  m'.run r = m.run r ∧ Ends o.Locates Q (m.run r)

section

variable {o c : Cursor} {r : Reading} {levels : List (List Char)} {α β : Type}

theorem inline_ends {m} {E : ParseError → Prop} {Q : α → Cursor → Prop} (inner : Ends E Q (m.run r.cursor)) :
    Ends E (fun a r' => Q a r'.cursor ∧ r' = { r with cursor := r'.cursor }) ((LineRead.inline m).run r) := by
  unfold LineRead.inline
  refine Ends.bind (Q := fun a t => a = r ∧ t = r) ⟨rfl, rfl⟩ ?_
  rintro _ _ ⟨rfl, rfl⟩
  refine (Ends.lift inner).bind fun found _ done => ?_
  exact ⟨done.1, rfl⟩

theorem run_reading (f : Reading → LineRead α) : (get >>= f).run r = (f r).run r := rfl

theorem run_linePos (f : Nat → LineRead α) : (LineRead.inline Read.pos >>= f).run r = (f r.cursor.pos).run r := rfl

theorem run_linePeek (f : Option Char → LineRead α) :
    (LineRead.inline Read.peek >>= f).run r = (f r.cursor.peek?).run r := rfl

namespace Both

variable {Q Q' : α → Reading → Prop} {R : β → Reading → Prop} {m m' n n' : LineRead α} {f f' : α → LineRead β}

theorem bind (first : Both o Q m m' r) (next : ∀ a t, Q a t → Both o R (f a) (f' a) t) :
    Both o R (m >>= f) (m' >>= f') r := by
  obtain ⟨same, ends⟩ := first
  refine ⟨?_, ends.bind fun a t done => (next a t done).2⟩
  rw [StateT.run_bind, StateT.run_bind, same]
  cases ran : m.run r with
  | error e => rfl
  | ok result => exact (next result.1 result.2 (ends.of_ok ran)).1

theorem inline {m} {Q : α → Cursor → Prop} (part : Ends o.Locates Q (m.run c))
    (next : ∀ a d, Q a d → Both o R (f a) (f' a) ⟨d, levels, []⟩) :
    Both o R (LineRead.inline m >>= f) (LineRead.inline m >>= f') ⟨c, levels, []⟩ := by
  refine bind ⟨rfl, inline_ends part⟩ fun a t done => ?_
  rw [done.2]
  exact next a t.cursor done.1

theorem fail (before : o.Leads c) {expected} (inner : expected.isInner = true) :
    Both o Q (LineRead.inline (Read.fail expected)) (LineRead.inline (Read.fail expected)) ⟨c, levels, []⟩ :=
  ⟨rfl, locates_unexpectedAt before inner⟩

theorem reading {f f' : Reading → LineRead α} (rest : Both o Q (f r) (f' r) r) :
    Both o Q (get >>= f) (get >>= f') r := rest

theorem pos {f f' : Nat → LineRead α} (rest : Both o Q (f r.cursor.pos) (f' r.cursor.pos) r) :
    Both o Q (LineRead.inline Read.pos >>= f) (LineRead.inline Read.pos >>= f') r := rest

theorem peek {f f' : Option Char → LineRead α} (rest : Both o Q (f r.cursor.peek?) (f' r.cursor.peek?) r) :
    Both o Q (LineRead.inline Read.peek >>= f) (LineRead.inline Read.peek >>= f') r := rest

theorem spanFrom {start} {f f' : Span → LineRead α}
    (rest : Both o Q (f ⟨start, r.cursor.pos⟩) (f' ⟨start, r.cursor.pos⟩) r) :
    Both o Q (LineRead.inline (Read.spanFrom start) >>= f) (LineRead.inline (Read.spanFrom start) >>= f') r := rest

theorem ite {p : Prop} [Decidable p] (yes : p → Both o Q m m' r) (no : ¬p → Both o Q n n' r) :
    Both o Q (if p then m else n) (if p then m' else n') r := by
  split
  · exact yes ‹_›
  · exact no ‹_›

theorem mono (inner : Both o Q m m' r) (weaker : ∀ a t, Q a t → Q' a t) : Both o Q' m m' r :=
  ⟨inner.1, inner.2.mono weaker⟩

end Both

end

theorem accepted_first {c d x found} (first : c.peek? = some x) (tried : Accepted c [x] found d) :
    c.Leads d ∧ c.pos < d.pos := by
  cases tried with
  | passed passes => exact ⟨passes.leads, passes.pos_lt⟩
  | missing absent =>
    obtain ⟨rest, pos⟩ := c
    obtain ⟨rest, rfl⟩ := List.head?_eq_some_iff.1 first
    simp [List.isPrefixOf] at absent

/-- Reading `items` leads from `c` on to `r`, and the layout tokens below them are taken. -/
structure Gives (c : Cursor) (levels : List (List Char)) (items : List Item) (r : Reading) : Prop where
  listed : Listed c (preorder items) r.cursor
  fine : ∀ i ∈ items, i.WellFormed
  left : Left levels r

def ReadsLine (o : Cursor) (line line' : LineRead Item) : Prop :=
  ∀ {c levels}, o.Leads c → levels.IsChain Deeper → levels ≠ [] →
    Both o (fun i => Gives c levels [i]) line line' ⟨c, levels, []⟩

section

variable {o c d : Cursor} {r : Reading} {levels : List (List Char)} {off : Detours} {t : Layout} {tokens : List Layout}
  {items : List Item}

theorem Gives.cons {i : Item} {r' : Reading} (first : Gives c levels [i] r) (rest : Gives r.cursor r.levels items r')
    (same : r.levels.length = levels.length) : Gives c levels (i :: items) r' where
  listed := by
    have listed := first.listed
    rw [preorder, preorder, List.append_nil] at listed
    exact listed.append rest.listed
  fine := List.forall_mem_cons.2 ⟨first.fine i List.mem_cons_self, rest.fine⟩
  left := rest.left.of_length same

theorem Gives.after (gives : Gives d levels items r) (before : c.Leads d) : Gives c levels items r :=
  { gives with listed := gives.listed.after before }

theorem dropWhile_lineEnd (ended : c.atLineEnd = true) : c.dropWhile isInlineBlank = c := by
  obtain ⟨rest, pos⟩ := c
  unfold atLineEnd at ended
  split at ended
  case h_5 => cases ended
  all_goals
    rename_i same
    cases same
    rfl

theorem peek_pending (pending : r.pending = t :: tokens) :
    Both o (fun u r' => u = t ∧ r' = r) Layout.peek off.peek r := by
  obtain ⟨cursor, levels, _⟩ := r
  cases pending
  exact ⟨rfl, rfl, rfl⟩

theorem next_pending (pending : r.pending = t :: tokens) :
    Both o (fun u r' => u = t ∧ r' = { r with pending := tokens }) Layout.next off.next r := by
  obtain ⟨cursor, levels, _⟩ := r
  cases pending
  exact ⟨rfl, rfl, rfl⟩

variable (before : o.Leads c) (chain : levels.IsChain Deeper) (some : levels ≠ [])

include before chain some

theorem peek_both (ended : c.atLineEnd = true) :
    Both o (fun t r => c.Leads r.cursor ∧ Due levels r.levels r.pending ∧ r.pending.head? = .some t)
      Layout.peek off.peek ⟨c, levels, []⟩ := by
  have there : (c.dropWhile isInlineBlank).atLineEnd = true := by rwa [dropWhile_lineEnd ended]
  have advanced : Yields o.Locates (Advanced ⟨c, levels, []⟩) (advance ⟨c, levels, []⟩) := by
    have ends := advance_ends ⟨c, levels, []⟩
    cases moved : advance ⟨c, levels, []⟩ with
    | ok r =>
      rw [moved] at ends
      exact ends
    | error e =>
      rw [moved] at ends
      rcases ends with misplaced | ⟨inside, -⟩
      · exact misplaced.locates before
      · exact absurd there (Bool.eq_false_iff.1 inside)
  refine ⟨?_, ?_⟩
  · simp [Detours.peek, Layout.peek, there]
  · unfold Layout.peek
    rw [run_reading]
    refine (Ends.lift advanced).bind fun r _ moved => ?_
    have due := moved.1.due chain some
    refine ⟨moved.1.leads, due, ?_⟩
    show r.pending.head? = .some (r.pending.headD .eof)
    cases pending : r.pending with
    | cons => rfl
    | nil =>
      rw [pending] at due
      rcases due.shape with same | closing
      · cases same
      · cases closing

theorem noBlock_both (ended : c.atLineEnd = true) :
    Both o (fun _ r => c.Leads r.cursor ∧ Left levels r) LineRead.noBlock off.noBlock ⟨c, levels, []⟩ := by
  refine (peek_both before chain some ended).bind fun t r peeked => ?_
  obtain ⟨moved, due, first⟩ := peeked
  refine .ite (fun _ => ⟨rfl, (before.trans moved).reaches (.refl _), trivial⟩) fun other => ?_
  exact ⟨rfl, moved, due.left (ne_indent first other)⟩

end

section

variable {o : Cursor} {off : Detours} {line line' : LineRead Item} (each : ReadsLine o line line') {c : Cursor}
  {levels : List (List Char)} (before : o.Leads c) (chain : levels.IsChain Deeper) (some : levels ≠ [])

include each before chain some

theorem lines_both :
    Both o (fun items r => Gives c levels items r ∧ r.pending.head? ≠ .some .sibling) (lines line) (off.lines line')
      ⟨c, levels, []⟩ := by
  have go {n : Nat} {c : Cursor} {levels : List (List Char)} (before : o.Leads c) (chain : levels.IsChain Deeper)
      (some : levels ≠ []) (enough : c.rest.length < n) :
      Both o (fun items r => Gives c levels items r ∧ r.pending.head? ≠ .some .sibling) (lines.go line n)
        (Detours.lines.go off line' n) ⟨c, levels, []⟩ := by
    induction n generalizing c levels with
    | zero => cases enough
    | succ n ih =>
      refine (each before chain some).bind fun item r read => ?_
      have behind := read.listed.leads
      rcases read.left.cases with ⟨shape, same⟩ | ⟨shape, -⟩ | ⟨rest, shape, -⟩
      · refine (peek_pending shape).bind ?_
        rintro _ _ ⟨rfl, rfl⟩
        refine (next_pending shape).bind ?_
        rintro _ _ ⟨rfl, rfl⟩
        have shorter := Nat.lt_of_lt_of_le (behind.length_lt read.listed.moves) (Nat.le_of_lt_succ enough)
        refine (ih (before.trans behind) read.left.chain read.left.some shorter).bind fun rest r' others => ?_
        exact ⟨rfl, read.cons others.1 same, others.2⟩
      · refine (peek_pending shape).bind ?_
        rintro _ _ ⟨rfl, rfl⟩
        exact ⟨rfl, read, by simp [shape]⟩
      · refine (peek_pending shape).bind ?_
        rintro _ _ ⟨rfl, rfl⟩
        exact ⟨rfl, read, by simp [shape]⟩
  exact go before chain some (Nat.lt_succ_self _)

theorem block_both (ended : c.atLineEnd = true) :
    Both o (Gives c levels) (block line) (off.block line') ⟨c, levels, []⟩ := by
  refine (peek_both before chain some ended).bind fun t r peeked => ?_
  obtain ⟨moved, due, first⟩ := peeked
  refine .ite (fun opens => ?_) fun other => ⟨rfl, .nil moved, by simp, due.left (ne_indent first other)⟩
  have shape := due.indent (opens ▸ first)
  have inner : r.levels.length = levels.length + 1 := by simpa [shape] using due.balance
  refine (next_pending shape).bind ?_
  rintro _ _ ⟨rfl, rfl⟩
  refine (lines_both each (before.trans moved) due.chain due.some).bind fun items r' read => ?_
  obtain ⟨gives, other⟩ := read
  -- The level that was opened is not the base, so the text does not end before it is closed.
  rcases gives.left.cases with ⟨shape, -⟩ | ⟨-, base⟩ | ⟨rest, shape, closing, balance⟩
  · exact absurd (by rw [shape]; rfl) other
  · rw [inner] at base
    exact absurd (List.eq_nil_of_length_eq_zero (Nat.succ.inj base)) some
  · refine (next_pending shape).bind ?_
    rintro _ _ ⟨rfl, rfl⟩
    refine ⟨rfl, gives.listed.after moved, gives.fine, gives.left.chain, gives.left.some, closing, ?_⟩
    exact Nat.succ.inj (balance.trans inner)

theorem tail_both (allowText : Bool) :
    Both o (Gives c levels) (tail line allowText) (off.tail line' allowText) ⟨c, levels, []⟩ := by
  refine .inline (accept_leads [':']) fun colon c₁ first => ?_
  refine .ite (fun _ => ?_) fun _ => ?_
  · refine .inline (takeWhile_ends _) fun _ c₂ blanks => ?_
    have here := first.trans blanks.2.leads
    refine .reading (.ite (fun _ => .fail (before.trans here) rfl) fun _ => ?_)
    refine (each (before.trans here) chain some).bind fun item r read => ?_
    exact ⟨rfl, read.after here⟩
  · refine .inline (takeWhile_ends _) fun _ c₂ blanks => ?_
    have here := first.trans blanks.2.leads
    refine .reading (.ite (fun ended => ?_) fun going => ?_)
    · exact (block_both each (before.trans here) chain some ended).mono fun _ _ read => read.after here
    refine .ite (fun _ => ?_) fun _ => .fail (before.trans here) rfl
    refine .inline (textRun_ends (before.trans here)) fun items c₃ text => .spanFrom ?_
    have there := here.trans text.1.leads
    refine (block_both each (before.trans there) chain some text.2).bind fun below r read => ⟨rfl, ?_, ?_, read.left⟩
    · exact .cons here text.1.leads (text.1.moves (by simpa using going)) rfl text.1.stands read.listed
    · exact List.forall_mem_cons.2 ⟨.text text.1.good, read.fine⟩

theorem element_both {first part : Char → Bool} {make : Header → List Item → Span → Item}
    (start : c.peek?.any first = true)
    (inside : ∀ x, first x = true → part x = true)
    (made : ∀ h items s, (make h items s).preorder = make h items s :: preorder items ∧
      (make h items s).span = s ∧ (make h items s).marked = h.marked)
    (fine : ∀ h items s, h.WellFormed first part → (∀ i ∈ items, i.WellFormed) → (make h items s).WellFormed) :
    Both o (fun i => Gives c levels [i]) (element line part make) (off.element line' part make) ⟨c, levels, []⟩ := by
  refine .pos (.inline (takeWhile_ends part) fun name c₁ named => ?_)
  obtain ⟨rfl, named⟩ := named
  have long := pos_lt_of_takeWhile
    ((Option.any_eq_true _ _).2 (((Option.any_eq_true _ _).1 start).imp fun x => And.imp_right (inside x))) named
  have here := named.leads
  refine .inline (many_tracks shorthand?_tracks _ (before.trans here)) fun shorthands c₂ given => ?_
  have behind := here.trans given.leads
  refine .inline (attributes_tracks _ (before.trans behind)) fun attributes c₃ also => .spanFrom ?_
  have whole := behind.trans also.leads
  refine (tail_both each (before.trans whole) chain some true).bind fun children r below => ⟨rfl, ?_, ?_, below.left⟩
  · obtain ⟨order, span, marks⟩ :=
      made ⟨String.ofList (c.rest.takeWhile part), shorthands, attributes⟩ children ⟨c.pos, c₃.pos⟩
    have stand : ∀ k ∈ (Header.mk (String.ofList (c.rest.takeWhile part)) shorthands attributes).marked,
        k.Stands c c₃ := by
      refine List.forall_mem_append.2 ⟨fun k mem => ?_, fun k mem => ?_⟩
      · exact (given.stands k mem).widen here also.leads
      · exact (also.stands k mem).widen behind (.refl _)
    have more := Nat.lt_of_lt_of_le long (given.leads.trans also.leads).pos_le
    have listed := Listed.cons (.refl _) whole more span (marks.symm ▸ stand) below.listed
    rwa [preorder, preorder, List.append_nil, order]
  · exact List.forall_mem_singleton.2 (fine _ _ _ ⟨named_takeWhile start inside, given.good, also.good⟩ below.fine)

theorem directiveEnd_both {d name nameSpan argument} (header : c.Leads d) (long : c.pos < d.pos)
    (marks : ∀ k ∈ (Directive.mk name nameSpan argument).marked, k.Stands c d)
    (fine : (Directive.mk name nameSpan argument).WellFormed) :
    Both o (fun i => Gives c levels [i]) (directiveEnd line c.pos name nameSpan argument)
      (off.directiveEnd line' c.pos name nameSpan argument) ⟨d, levels, []⟩ := by
  have here := before.trans header
  have ending {children : List Item} {r : Reading} (below : Gives d levels children r)
      (blockless : isBlockless name = true → children = []) :
      Gives c levels [.directive ⟨name, nameSpan, argument⟩ children ⟨c.pos, d.pos⟩] r := by
    refine ⟨?_, List.forall_mem_singleton.2 (.directive fine below.fine blockless), below.left⟩
    rw [preorder, preorder, List.append_nil]
    exact .cons (.refl c) header long rfl marks below.listed
  refine .spanFrom (.ite (fun _ => ?_) fun blocky => ?_)
  · refine .inline (takeWhile_ends _) fun _ d₁ blanks => ?_
    have there := blanks.2.leads
    refine .reading (.ite (fun ended => ?_) fun _ => ?_)
    · refine (noBlock_both (here.trans there) chain some ended).bind fun _ r moved => ?_
      exact ⟨rfl, ending ⟨.nil (there.trans moved.1), by simp, moved.2⟩ fun _ => rfl⟩
    · exact ⟨rfl, locates_unexpectedAt (here.trans there) rfl⟩
  · refine (tail_both each here chain some false).bind fun children r below => ?_
    exact ⟨rfl, ending below fun blockless => absurd blockless blocky⟩

theorem directive_both (first : c.peek? = .some '@') :
    Both o (fun i => Gives c levels [i]) (directive line) (off.directive line') ⟨c, levels, []⟩ := by
  unfold directive
  refine .pos (.inline (accept_ends ['@']) fun _ c₁ sign => ?_)
  obtain ⟨here, long⟩ := accepted_first first sign
  refine .pos (.inline (name_tracks rfl _ (before.trans here)) fun name c₂ named => .spanFrom (.peek ?_))
  have there := here.trans named.leads
  have place : (Mark.place ⟨c₁.pos, c₂.pos⟩).Stands c c₂ := (Mark.stands_place named.leads).widen here (.refl _)
  have more {c₃ : Cursor} {argument : Option Code} (behind : c₂.Leads c₃)
      (shown : ∀ k ∈ argument, (Mark.code k).Stands c c₃ ∧ k.Bracketed ')') :
      Both o (fun i => Gives c levels [i]) (directiveEnd line c.pos name ⟨c₁.pos, c₂.pos⟩ argument)
        (off.directiveEnd line' c.pos name ⟨c₁.pos, c₂.pos⟩ argument) ⟨c₃, levels, []⟩ := by
    have on := named.leads.trans behind
    refine directiveEnd_both each before chain some (here.trans on) (Nat.lt_of_lt_of_le long on.pos_le)
      (List.forall_mem_cons.2 ⟨place.widen (.refl _) behind, ?_⟩) ⟨named.good, fun k mem => (shown k mem).2⟩
    exact List.forall_mem_map.2 fun k mem => (shown k (Option.mem_toList.1 mem)).1
  refine .ite (fun _ => ?_) fun _ => more (.refl _) (by simp)
  rw [bind_map_left, bind_map_left]
  refine .inline (delimited_tracks rfl _ (before.trans there)) fun code c₃ cut => more cut.leads fun k mem => ?_
  rw [← Option.mem_some.1 mem]
  exact ⟨(cut.stands _ (List.mem_singleton.2 rfl)).widen there (.refl _), cut.good⟩

end

section

variable {o : Cursor} {off : Detours}

theorem textLine_both {c levels} (before : o.Leads c) (chain : levels.IsChain Deeper) (some : levels ≠ [])
    (first : c.peek? = .some '|') : Both o (fun i => Gives c levels [i]) textLine off.textLine ⟨c, levels, []⟩ := by
  refine .pos (.inline (accept_ends ['|']) fun _ c₁ bar => ?_)
  obtain ⟨here, long⟩ := accepted_first first bar
  refine .inline (accept_leads [' ']) fun _ c₂ blank => ?_
  have there := here.trans blank
  refine .inline (textRun_ends (before.trans there)) fun items c₃ text => .spanFrom ?_
  have header := there.trans text.1.leads
  refine (noBlock_both (before.trans header) chain some text.2).bind fun _ r moved => ⟨rfl, ?_, ?_, moved.2⟩
  · refine .cons (.refl _) header ?_ rfl (fun k mem => (text.1.stands k mem).widen there (.refl _)) (.nil moved.1)
    exact Nat.lt_of_lt_of_le long (blank.trans text.1.leads).pos_le
  · exact List.forall_mem_singleton.2 (.text text.1.good)

theorem line_both (depth : Nat) : ReadsLine o (line depth) (off.line depth) := by
  induction depth with
  | zero => exact fun before _ _ => .fail before rfl
  | succ depth ih =>
    intro c levels before chain some
    refine .peek ?_
    cases first : c.peek? with
    | none => exact .fail before rfl
    | some x =>
      refine .ite (fun lower => ?_) fun _ => ?_
      · exact element_both ih before chain some (first ▸ lower) isNamePart_of_tagStart (fun _ _ _ => ⟨rfl, rfl, rfl⟩)
          fun _ _ _ => .tag
      refine .ite (fun upper => ?_) fun _ => ?_
      · exact element_both ih before chain some (first ▸ upper) isWordPart_of_componentStart
          (fun _ _ _ => ⟨rfl, rfl, rfl⟩) fun _ _ _ => .component
      refine .ite (fun sign => directive_both ih before chain some (sign ▸ first)) fun _ => ?_
      exact .ite (fun bar => textLine_both before chain some (bar ▸ first)) fun _ => .fail before rfl

theorem template_both (off : Detours) {c} (indent : List Char) (before : o.Leads c) (depth : Nat) :
    Both o (fun items r => Listed c (preorder items) r.cursor ∧ ∀ i ∈ items, i.WellFormed) (template depth)
      (off.template depth) ⟨c, [indent], []⟩ := by
  refine (lines_both (line_both depth) before (.singleton _) nofun).bind fun items r read => ?_
  obtain ⟨gives, other⟩ := read
  rcases gives.left.cases with ⟨shape, -⟩ | ⟨shape, -⟩ | ⟨rest, -, -, balance⟩
  · exact absurd (by rw [shape]; rfl) other
  · refine (next_pending shape).bind ?_
    rintro _ _ ⟨rfl, rfl⟩
    exact ⟨rfl, gives.listed, gives.fine⟩
  · -- One level is open, and it stays open.
    have one := List.length_pos_iff.2 gives.left.some
    simp only [List.length_singleton] at balance
    omega

end

theorem parse_detoured (off : Detours) (source : String) (base : Nat) :
    off.parse source base = parse source base ∧
      Yields (Cursor.start source base).Locates
        (fun items => (∃ d, Listed (.start source base) (preorder items) d) ∧ ∀ i ∈ items, i.WellFormed)
        (parse source base) := by
  unfold Detours.parse parse
  dsimp only
  cases found : Layout.firstLine? (Cursor.start source base) with
  | none => exact ⟨rfl, ⟨_, .nil (.refl _)⟩, by simp⟩
  | some next =>
    obtain ⟨indent, cursor⟩ := next
    obtain ⟨b, starts, passes⟩ := (Layout.firstLine?_indented found).starts
    have before := starts.leads.trans passes.leads
    obtain ⟨same, read⟩ := template_both off indent before ((Cursor.start source base).rest.length + 1)
    dsimp only
    rw [StateT.run'_eq, StateT.run'_eq, same]
    refine ⟨rfl, ?_⟩
    cases ended : (template ((Cursor.start source base).rest.length + 1)).run ⟨cursor, [indent], []⟩ with
    | error e =>
      rw [ended] at read
      exact read
    | ok result =>
      rw [ended] at read
      exact ⟨⟨_, read.1.after before⟩, read.2⟩

theorem parse_read (source : String) (base : Nat) :
    Yields (Cursor.start source base).Locates
      (fun items => (∃ d, Listed (.start source base) (preorder items) d) ∧ ∀ i ∈ items, i.WellFormed)
      (parse source base) := (parse_detoured ⟨.ok, pure [], pure [], pure []⟩ source base).2

theorem parse_listed (source : String) (base : Nat) :
    Yields (Cursor.start source base).Locates (fun items => ∃ d, Listed (.start source base) (preorder items) d)
      (parse source base) := (parse_read source base).mono fun _ => And.left

theorem listed_of_parse {source base items} (read : parse source base = .ok items) :
    ∃ d, Listed (.start source base) (preorder items) d := by
  have listed := parse_listed source base
  rwa [read] at listed

theorem parse_wellFormed {source base items} (h : parse source base = .ok items) : ∀ i ∈ items, i.WellFormed := by
  have read := parse_read source base
  rw [h] at read
  exact read.2

/-- Lines and layout stay in step on every text: no detour is taken, and nothing is wrong with the end of a block or
of the template. -/
theorem parse_in_step (source : String) (base : Nat) :
    (∀ off : Detours, off.parse source base = parse source base) ∧
      ∀ found span, parse source base ≠ .error (.unexpected found .blockEnd span) ∧
        parse source base ≠ .error (.unexpected found .templateEnd span) := by
  refine ⟨fun off => (parse_detoured off source base).1, fun found span => ⟨fun failed => ?_, fun failed => ?_⟩⟩
  all_goals
    have read := parse_read source base
    rw [failed] at read
    exact Bool.false_ne_true read.2

end Outline

end ComponentCompiler.Template
