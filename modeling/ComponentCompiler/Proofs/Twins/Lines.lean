import ComponentCompiler.Proofs.Outline.Lines
import ComponentCompiler.Proofs.Twins.Inline

/-!
# Lines of twin texts
-/

namespace ComponentCompiler.Template

open Text Outline

namespace Outline

def Header.isBroken (h : Header) : Bool := h.shorthands.any Shorthand.isBroken || h.attributes.any Attribute.isBroken

/-- Whether a string on the item's own line runs on behind a line end. The code in a text ends on its line. -/
def Item.isBroken : Item → Bool
  | .tag header _ _ | .component header _ _ => header.isBroken
  | .text _ _ => false
  | .directive d _ _ => d.argument.any Code.isBroken

end Outline

namespace Twin

variable (T : Twin) {α β : Type}

structure Beside (n : Nat) (r r' : Reading) : Prop where
  cursor : T.near r.cursor r'.cursor
  levels : r'.levels = r.levels
  pending : r'.pending = r.pending
  left : r.cursor.rest.length < n

/-- The item leads over a place that may be read in another way. -/
def cuts (i : Item) : Bool := T.crossed i.span.start i.span.stop

structure LineAlike (n : Nat) (flag : (Item → Bool) → α → Bool) (φ : Change → α → α) (m m' : LineRead α) : Prop where
  keeps {r r'} (beside : T.Beside n r r') : T.Abreast (flag Item.isBroken) φ
    (fun s s' => T.Beside n s s' ∧ r.cursor.Leads s.cursor) (fun a _ => flag T.cuts a = true) (m.run r) (m'.run r')

/-- Nothing that is no item is flagged. -/
abbrev unflagged {α : Type} (_ : Item → Bool) (_ : α) : Bool := false

def flagItem (p : Item → Bool) (i : Item) : Bool := i.preorder.any p

def flagItems (p : Item → Bool) (items : List Item) : Bool := (preorder items).any p

theorem flagItems_cons (p : Item → Bool) (i : Item) (items : List Item) :
    flagItems p (i :: items) = (flagItem p i || flagItems p items) := List.any_append

theorem flagItem_eq (p : Item → Bool) (i : Item) : flagItem p i = (p i || flagItems p i.children) := by
  rw [flagItem, preorder_item, List.any_cons, flagItems]

variable {T} {n : Nat} {flag : (Item → Bool) → α → Bool} {φ : Change → α → α} {flag' : (Item → Bool) → β → Bool}
  {φ' : Change → β → β} {m m' : LineRead α} {f f' : α → LineRead β}

namespace LineAlike

theorem pure {a a'} (same : φ T.there a' = φ T.here a)
    (whole : T.breaks → flag Item.isBroken a = false) :
    T.LineAlike n flag φ (pure a) (pure a') := ⟨fun beside => .both whole same ⟨beside, .refl _⟩⟩

theorem bind (first : T.LineAlike n flag φ m m')
    (next : ∀ a a', (T.breaks → flag Item.isBroken a = false) → φ T.there a' = φ T.here a →
      T.LineAlike n flag' φ' (f a) (f' a'))
    (stays : ∀ p a t, flag p a = true → Ends (fun _ => True) (fun b _ => flag' p b = true) ((f a).run t)) :
    T.LineAlike n flag' φ' (m >>= f) (m' >>= f') := by
  refine ⟨fun beside => ?_⟩
  refine (first.keeps beside).bind (fun a a' t t' _ whole same onto => ?_) (fun a t => stays _ a t)
    fun a t _ => stays _ a t
  exact ((next a a' whole same).keeps onto.1).mono (fun _ _ later => ⟨later.1, onto.2.trans later.2⟩) fun _ _ => id

theorem same (first : T.LineAlike n unflagged plain m m') (next : ∀ a, T.LineAlike n flag' φ' (f a) (f' a)) :
    T.LineAlike n flag' φ' (m >>= f) (m' >>= f') := by
  refine first.bind (fun a a' _ same => ?_) fun _ _ _ impossible => absurd impossible Bool.false_ne_true
  rw [show a' = a from same]
  exact next a

theorem ite {p : Prop} [Decidable p] {n₁ n₂} (yes : T.LineAlike n flag φ m m') (no : T.LineAlike n flag φ n₁ n₂) :
    T.LineAlike n flag φ (if p then m else n₁) (if p then m' else n₂) := by
  split
  · exact yes
  · exact no

theorem reading {g g' : Reading → LineRead β}
    (next : ∀ r r', T.near r.cursor r'.cursor → T.LineAlike n flag' φ' (g r) (g' r')) :
    T.LineAlike n flag' φ' (get >>= g) (get >>= g') :=
  ⟨fun beside => (next _ _ beside.cursor).keeps beside⟩

end LineAlike

/-! ### Layout -/

variable (T) in
/-- The next lines are found in step. -/
class Laid : Prop extends T.Lawful where
  line {c c'} : T.near c c' → Option.Rel (fun a a' => a'.1 = a.1 ∧ T.near a.2 a'.2) (Layout.firstLine? c.skipLine)
    (Layout.firstLine? c'.skipLine)
  finish {c c'} : T.near c c' →
    T.near (c.skipLine.skip c.skipLine.rest.length) (c'.skipLine.skip c'.skipLine.rest.length)
  dedent {c d d' lead} : Layout.firstLine? c = some (lead, d) → T.near d d' → T.fault
    (.inconsistentDedent ⟨d.pos - byteLength lead, d.pos⟩) (.inconsistentDedent ⟨d'.pos - byteLength lead, d'.pos⟩)
  indent {p p'} : T.place p p' → T.fault (.unexpectedIndent (Span.emptyAt p)) (.unexpectedIndent (Span.emptyAt p'))

theorem Beside.lower {r r' k} (beside : T.Beside n r r') (left : r.cursor.rest.length < k) : T.Beside k r r' :=
  ⟨beside.cursor, beside.levels, beside.pending, left⟩

theorem Beside.onto {r r' s s' : Reading} (beside : T.Beside n r r') (near : T.near s.cursor s'.cursor)
    (levels : s'.levels = s.levels) (pending : s'.pending = s.pending) (leads : r.cursor.Leads s.cursor) :
    T.Beside n s s' ∧ r.cursor.Leads s.cursor :=
  ⟨⟨near, levels, pending, Nat.lt_of_le_of_lt leads.length_le beside.left⟩, leads⟩

variable [T.Laid]

theorem advance_alike {r r' : Reading} (near : T.near r.cursor r'.cursor) (levels : r'.levels = r.levels) :
    (∃ s s', Layout.advance r = .ok s ∧ Layout.advance r' = .ok s' ∧ T.near s.cursor s'.cursor ∧ s'.levels = s.levels ∧
      s'.pending = s.pending) ∨ ∃ e e', Layout.advance r = .error e ∧ Layout.advance r' = .error e' ∧ T.fault e e' := by
  have blanks := (Lawful.takeWhile (p := isInlineBlank) near rfl rfl).2
  unfold Layout.advance
  dsimp only
  rw [Lawful.atLineEnd blanks, levels]
  split
  · exact .inr ⟨_, _, rfl, rfl, Lawful.unexpected _ blanks⟩
  · have found := Laid.line blanks
    cases here : Layout.firstLine? (r.cursor.dropWhile isInlineBlank).skipLine <;>
      cases there : Layout.firstLine? (r'.cursor.dropWhile isInlineBlank).skipLine <;>
        rw [here, there] at found <;> cases found
    · exact .inl ⟨_, _, rfl, rfl, Laid.finish blanks, rfl, rfl⟩
    · rename_i a a' same
      obtain ⟨lead, line⟩ := a
      obtain ⟨lead', line'⟩ := a'
      obtain ⟨rfl, there⟩ := same
      dsimp only
      cases Layout.place? r.levels lead' with
      | none => exact .inr ⟨_, _, rfl, rfl, Laid.dedent here there⟩
      | some placed => exact .inl ⟨_, _, rfl, rfl, there, rfl, rfl⟩

theorem peek_alike : T.LineAlike n unflagged plain Layout.peek Layout.peek := by
  refine ⟨fun {r r'} beside => ?_⟩
  have leads := Layout.peek_leads r
  unfold Layout.peek at leads ⊢
  rw [run_reading] at leads
  rw [run_reading, run_reading, beside.pending]
  cases pending : r.pending with
  | cons token rest => exact .both (fun _ => rfl) rfl ⟨beside, .refl _⟩
  | nil =>
    rw [pending] at leads
    obtain ⟨s, s', ran, ran', near, levels, tokens⟩ | ⟨e, e', ran, ran', fault⟩ :=
      advance_alike beside.cursor beside.levels
    · rw [ran] at leads ⊢
      rw [ran']
      exact .both (fun _ => rfl) (congrArg (fun tokens => tokens.headD .eof) tokens)
        (beside.onto near levels tokens leads)
    · rw [ran, ran']
      exact .neither fault

theorem next_alike : T.LineAlike n unflagged plain Layout.next Layout.next :=
  peek_alike.same fun _ => ⟨fun beside => .both (fun _ => rfl) rfl
    ⟨⟨beside.cursor, beside.levels, congrArg List.tail beside.pending, beside.left⟩, .refl _⟩⟩

omit [T.Laid] in
theorem inline_alike {m : Read α} {f f' : α → LineRead β} (first : T.Steady m)
    (next : ∀ a, T.LineAlike n flag' φ' (f a) (f' a)) :
    T.LineAlike n flag' φ' (LineRead.inline m >>= f) (LineRead.inline m >>= f') := by
  refine .same ⟨fun {r r'} beside => ?_⟩ next
  obtain ⟨a, d, d', ran, ran', near⟩ := first.both beside.cursor
  have leads := first.onward r.cursor
  unfold LineRead.inline
  rw [run_reading, run_reading, ran'] 
  rw [ran] at leads ⊢
  exact .both (fun _ => rfl) rfl (beside.onto near beside.levels beside.pending leads)

theorem fail_alike (expected : Expectation) :
    T.LineAlike n flag φ (LineRead.inline (Read.fail expected)) (LineRead.inline (Read.fail expected)) :=
  ⟨fun beside => .neither (Lawful.unexpected expected beside.cursor)⟩

theorem indent_alike : T.LineAlike n flag φ
    (do throw (.unexpectedIndent (Span.emptyAt (← get).cursor.pos)))
    (do throw (.unexpectedIndent (Span.emptyAt (← get).cursor.pos))) :=
  ⟨fun beside => .neither (Laid.indent (Lawful.place beside.cursor))⟩

theorem noBlock_alike : T.LineAlike n unflagged plain LineRead.noBlock LineRead.noBlock :=
  peek_alike.same fun _ => .ite indent_alike (.pure rfl fun _ => rfl)

/-! ### Lines -/

/-- What is done behind a line, and `rest` for the lines that follow it. -/
def afterLine (rest : LineRead (List Item)) (i : Item) : LineRead (List Item) := do
  match ← Layout.peek with
  | .sibling =>
    let _ ← Layout.next
    return i :: (← rest)
  | .indent =>
    let pos := (← get).cursor.pos
    throw (.unexpectedIndent (Span.emptyAt pos))
  | .dedent | .eof => return [i]

theorem go_succ (line : LineRead Item) (k : Nat) : lines.go line (k + 1) = line >>= afterLine (lines.go line k) := rfl

variable (T) in
abbrev PairedAt (n : Nat) (line line' : LineRead Item) (r r' : Reading) : Prop :=
  T.Abreast (flagItem Item.isBroken) Change.item
    (fun s s' => (T.Beside n s s' ∧ r.cursor.Leads s.cursor) ∧ r.cursor.pos < s.cursor.pos)
    (fun i _ => flagItem T.cuts i = true) (line.run r) (line'.run r')

variable (T) in
/-- Two readers of lines keep in step, while less than `n` of the first text is left. -/
structure Paired (n : Nat) (line line' : LineRead Item) : Prop where
  keeps {r r'} (beside : T.Beside n r r') : T.PairedAt n line line' r r'

variable {line line' : LineRead Item} (pair : T.Paired n line line')

include pair

omit [T.Laid] in
theorem Paired.alike : T.LineAlike n flagItem Change.item line line' :=
  ⟨fun beside => (pair.keeps beside).mono (fun _ _ => And.left) fun _ _ => id⟩

omit pair in
/-- What follows holds the item, whatever is read behind it. -/
theorem afterLine_flag {p i rest t} (here : flagItem p i = true) :
    Ends (fun _ => True) (fun items _ => flagItems p items = true) ((afterLine rest i).run t) := by
  have held (others : List Item) : flagItems p (i :: others) = true := by rw [flagItems_cons, here, Bool.true_or]
  refine Ends.always.bind fun token t _ => ?_
  cases token with
  | indent => trivial
  | dedent | eof => exact held []
  | sibling => exact Ends.always.bind fun _ _ _ => Ends.always.bind fun others _ _ => held others

theorem go_lines_alike {k k'} (low : k ≤ n) (more : k ≤ k') :
    T.LineAlike k flagItems Change.items (lines.go line k) (lines.go line' k') := by
  -- The lower bound is not reached: each line takes a character or more.
  induction k generalizing k' with
  | zero => exact ⟨fun beside => absurd beside.left (by omega)⟩
  | succ k ih =>
    cases k' with
    | zero => exact absurd more (Nat.not_succ_le_zero k)
    | succ k' =>
      refine ⟨fun {r r'} beside => ?_⟩
      have left := beside.left
      rw [go_succ, go_succ]
      refine (pair.keeps (beside.lower (by omega))).bind (fun i i' t t' _ whole same past => ?_)
        (fun _ _ => afterLine_flag) fun _ _ _ => afterLine_flag
      obtain ⟨⟨there, leads⟩, moved⟩ := past
      have less := leads.length_lt moved
      have rest : T.LineAlike k flagItems Change.items (afterLine (lines.go line k) i)
          (afterLine (lines.go line' k') i') := by
        refine peek_alike.same fun token => ?_
        cases token with
        | indent => exact indent_alike
        | dedent | eof => exact .pure (by simp [same]) fun breaks => by rw [flagItems_cons, whole breaks]; rfl
        | sibling =>
          refine next_alike.same fun _ =>
            (ih (by omega) (by omega)).bind (fun items items' others alike => ?_) fun p items _ here => ?_
          · exact .pure (by simp [same, alike]) fun breaks => by rw [flagItems_cons, whole breaks, others breaks]; rfl
          · change flagItems p (i :: items) = true
            rw [flagItems_cons, here, Bool.or_true]
      refine (rest.keeps (there.lower (by omega))).mono (fun s s' onto => ?_) fun _ _ => id
      exact beside.onto onto.1.cursor onto.1.levels onto.1.pending (leads.trans onto.2)

theorem lines_alike : T.LineAlike n flagItems Change.items (lines line) (lines line') := by
  refine ⟨fun {r r'} beside => ?_⟩
  have read := go_lines_alike pair (Nat.succ_le_of_lt beside.left) (Nat.succ_le_succ (Lawful.longer beside.cursor))
  have here := beside.lower (Nat.lt_succ_self _)
  refine (read.keeps here).mono (fun s s' onto => ?_) fun _ _ => id
  exact beside.onto onto.1.cursor onto.1.levels onto.1.pending onto.2

theorem block_alike : T.LineAlike n flagItems Change.items (block line) (block line') := by
  refine peek_alike.same fun token => .ite ?_ (.pure (by simp) fun _ => rfl)
  refine next_alike.same fun _ => (lines_alike pair).bind (fun items items' whole same => ?_) fun p items t here => ?_
  · refine next_alike.same fun token => ?_
    cases token with
    | dedent => exact .pure same whole
    | indent | sibling | eof => exact fail_alike _
  · refine Ends.always.bind fun token t _ => ?_
    cases token with
    | dedent => exact here
    | indent | sibling | eof => trivial

end Twin

namespace Outline

section

variable {α β : Type}

theorem run_inline (m : Read α) (r : Reading) :
    (LineRead.inline m).run r = (m.run r.cursor).map fun p => (p.1, { r with cursor := p.2 }) := by
  unfold LineRead.inline
  rw [run_reading]
  cases m.run r.cursor <;> rfl

theorem inline_pure (a : α) : LineRead.inline (pure a) = pure a := rfl

theorem inline_bind (m : Read α) (f : α → Read β) :
    LineRead.inline (m >>= f) = LineRead.inline m >>= fun a => LineRead.inline (f a) := by
  refine StateT.ext fun r => ?_
  rw [run_inline, StateT.run_bind, StateT.run_bind, run_inline]
  cases m.run r.cursor with
  | error e => rfl
  | ok p => exact (run_inline (f p.1) { r with cursor := p.2 }).symm

end

open Twin

variable {T : Twin} [T.Laid] {P : Cursor → Prop}

/-- What is read, with its place. -/
def spanned (m : Read α) : Read (α × Span) := do
  let start ← Read.pos
  return (← m, ← Read.spanFrom start)

/-- What a line of a tag or component starts with. -/
def headerPart (isPart : Char → Bool) : Read Header := do
  let name ← Read.takeWhile isPart
  let shorthands ← Read.many shorthand?
  return ⟨String.ofList name, shorthands, ← attributes⟩

theorem element_eq (line : LineRead Item) (isPart : Char → Bool) (make : Header → List Item → Span → Item) :
    element line isPart make = (do
      let a ← LineRead.inline (spanned (headerPart isPart))
      return make a.1 (← tail line true) a.2) := by
  simp only [element, spanned, headerPart, inline_bind, inline_pure, bind_assoc, pure_bind]

def directivePart : Read Directive := do
  let _ ← Read.accept ['@']
  let nameStart ← Read.pos
  let name ← name .directiveName
  let nameSpan ← Read.spanFrom nameStart
  let argument ← if (← Read.peek) = some '(' then some <$> parenthesized else pure none
  return ⟨name, nameSpan, argument⟩

def directiveTail (line : LineRead Item) (name : String) : LineRead (List Item) := do
  if isBlockless name then
    let _ ← LineRead.inline (Read.takeWhile isInlineBlank)
    if (← get).cursor.atLineEnd then
      LineRead.noBlock
      return []
    else LineRead.inline (Read.fail .lineEnd)
  else tail line false

theorem directiveEnd_eq (line : LineRead Item) (start : Nat) (name : String) (nameSpan : Span)
    (argument : Option Code) :
    directiveEnd line start name nameSpan argument = (do
      let span ← LineRead.inline (Read.spanFrom start)
      return .directive ⟨name, nameSpan, argument⟩ (← directiveTail line name) span) := by
  unfold directiveEnd directiveTail
  refine bind_congr fun span => ?_
  split
  · rw [bind_assoc]
    refine bind_congr fun _ => ?_
    rw [bind_assoc]
    refine bind_congr fun r => ?_
    split <;> simp only [bind_assoc, pure_bind]
  · rfl

theorem directive_parts (line : LineRead Item) : directive line = (do
    let a ← LineRead.inline (spanned directivePart)
    return .directive a.1 (← directiveTail line a.1.name) a.2) := by
  unfold directive
  simp only [spanned, directivePart, directiveEnd_eq, inline_bind, inline_pure, bind_assoc, pure_bind]
  refine bind_congr fun start => bind_congr fun _ => bind_congr fun nameStart => bind_congr fun name => ?_
  refine bind_congr fun nameSpan => bind_congr fun found => ?_
  split <;> simp only [map_eq_pure_bind, inline_bind, inline_pure, bind_assoc, pure_bind]

theorem run_spannedText {β : Type} {f : List Fragment → Span → LineRead β} {r : Reading} : (do
      let items ← LineRead.inline textRun
      f items (← LineRead.inline (Read.spanFrom r.cursor.pos)) : LineRead β).run r =
    (do
      let a ← LineRead.inline (spanned textRun)
      f a.1 a.2 : LineRead β).run r := by
  simp only [spanned, inline_bind, inline_pure, bind_assoc, pure_bind, run_linePos]

def textLinePart : Read (List Fragment) := do
  let _ ← Read.accept ['|']
  let _ ← Read.accept [' ']
  textRun

theorem textLine_eq : textLine = (do
    let a ← LineRead.inline (spanned textLinePart)
    LineRead.noBlock
    return .text a.1 a.2) := by
  simp only [textLine, spanned, textLinePart, inline_bind, inline_pure, bind_assoc, pure_bind]

theorem headerPart_alike {isPart} (returns : isPart '\r' = false) (feeds : isPart '\n' = false) :
    T.Alike P Header.isBroken (fun C h => ⟨h.name, h.shorthands.map C.shorthand, h.attributes.map C.attr⟩)
      (headerPart isPart) (headerPart isPart) := by
  refine .after (takeWhile_steady returns feeds) fun text => ?_
  refine (many_alike (Tracks.advances fun _ => shorthand?_tracks) shorthand?_alike).bind
    (fun shorthands shorthands' whole same => ?_) (fun shorthands c => ?_) fun shorthands c here => ?_
  · refine attributes_alike.bind (fun attributes attributes' whole' same' => ?_) (fun _ _ => .refl _)
      fun attributes c here => Bool.or_eq_true_iff.2 (.inr here)
    exact .pure (by simp [same, same']) fun breaks => Bool.or_eq_false_iff.2 ⟨whole breaks, whole' breaks⟩
  · exact ((attributes_alike (T := T) (P := Anywhere)).onward (c := c) trivial).bind fun _ _ leads => leads
  · exact Ends.always.bind fun attributes d _ => Bool.or_eq_true_iff.2 (.inl here)

theorem headerPart_moves {isPart : Char → Bool} {c} (first : c.peek?.any isPart = true) :
    Ends (fun _ => True) (fun _ d => c.pos < d.pos) ((headerPart isPart).run c) := by
  refine (takeWhile_ends isPart).bind fun name d taken => ?_
  have moved : c.pos < d.pos := pos_lt_of_takeWhile first (taken.1 ▸ taken.2)
  refine (Ends.faultless (many_tracks shorthand?_tracks d (.refl d))).bind fun shorthands e given => ?_
  refine (Ends.faultless (attributes_tracks e (.refl e))).bind fun attributes f also => ?_
  exact Nat.lt_of_lt_of_le moved (given.leads.trans also.leads).pos_le

theorem directivePart_alike : T.Alike P (fun d => d.argument.any Code.isBroken)
    (fun C d => ⟨d.name, C.span d.nameSpan, d.argument.map C.code⟩) directivePart directivePart := by
  refine .after (accept_steady rfl) fun _ => .pos fun place place' places => ?_
  refine (name_alike _).same fun text => .span places fun named named' names => ?_
  have ending {P} (argument argument' : Option Code) (whole : T.breaks → argument.any Code.isBroken = false)
      (same : argument'.map T.there.code = argument.map T.here.code) : T.Alike P (fun d => d.argument.any Code.isBroken)
        (fun C d => Directive.mk d.name (C.span d.nameSpan) (d.argument.map C.code))
        (pure ⟨text, named, argument⟩) (pure ⟨text, named', argument'⟩) := .pure (by simp [names, same]) whole
  refine .peek (fun x => .ite (fun opened => ?_) ?_) ?_
  · subst opened
    exact .bind (.option (delimited_alike rfl (by decide))) ending (fun _ _ => .refl _) fun _ _ here => here
  · exact ending none none (fun _ => rfl) rfl
  · exact ending none none (fun _ => rfl) rfl

theorem directivePart_moves {c} (first : c.peek? = some '@') :
    Ends (fun _ => True) (fun _ d => c.pos < d.pos) (directivePart.run c) := by
  refine (accept_ends ['@']).bind fun _ d tried => ?_
  obtain ⟨-, moved⟩ := accepted_first first tried
  rw [run_pos]
  refine (Ends.faultless (name_tracks rfl d (.refl d))).bind fun name e named => ?_
  have there := Nat.lt_of_lt_of_le moved named.leads.pos_le
  refine Ends.ite (fun _ => ?_) fun _ => there
  have cut : Ends (fun _ => True) (fun (_ : Option Code) f => e.Leads f) ((some <$> parenthesized).run e) :=
    (Ends.faultless (delimited_tracks rfl e (.refl e))).map fun _ _ cut => cut.leads
  exact cut.bind fun _ f leads => Nat.lt_of_lt_of_le there leads.pos_le

theorem textLinePart_moves {c} (first : c.peek? = some '|') :
    Ends (fun _ => True) (fun _ d => c.pos < d.pos) (textLinePart.run c) := by
  refine (accept_ends ['|']).bind fun _ d tried => (accept_leads [' ']).bind fun _ e behind => ?_
  refine (Ends.faultless (textRun_ends (.refl e))).mono fun items f read => ?_
  exact Nat.lt_of_lt_of_le (accepted_first first tried).2 (behind.trans read.1.leads).pos_le

theorem textLinePart_alike : T.Alike P never (fun C => List.map C.fragment) textLinePart textLinePart :=
  .after (accept_steady rfl) fun _ => .after (accept_steady rfl) fun _ => textRun_alike

end Outline

namespace Twin

open Outline

variable {T : Twin} [T.Laid] {β H : Type} {n : Nat} {r r' : Reading} {flag : (Item → Bool) → β → Bool}
  {φ : Change → β → β} {broken : H → Bool} {ψ : Change → H → H} {part : Read H} {f f' : H × Span → LineRead β}

theorem spanned_alike (alike : T.Alike Anywhere broken ψ part part) : T.Alike Anywhere (fun a => broken a.1)
    (fun C a => (ψ C a.1, C.span a.2)) (spanned part) (spanned part) := by
  refine .pos fun start start' starts =>
    alike.bind (fun a a' whole same => ?_) (fun _ _ => .refl _) fun _ _ here => here
  exact .span starts fun s s' placed => .pure (Prod.ext same placed) whole

/-- What is read behind a part of a line holds an item that starts with it. -/
def Owns (flag : (Item → Bool) → β → Bool) (broken : H → Bool) (f : H × Span → LineRead β) : Prop :=
  ∀ a t, Ends (fun _ => True)
    (fun b _ => ∃ i : Item, i.isBroken = broken a.1 ∧ i.span = a.2 ∧ ∀ p, p i = true → flag p b = true) ((f a).run t)

theorem part_keeps {R : Reading → Reading → Prop} (alike : T.Alike Anywhere broken ψ part part)
    (owns : Owns flag broken f)
    (beside : T.Beside n r r')
    (next : ∀ a a' s s', (LineRead.inline (spanned part)).run r = .ok (a, s) → (T.breaks → broken a.1 = false) →
      ψ T.there a'.1 = ψ T.here a.1 ∧ T.there.span a'.2 = T.here.span a.2 → T.Beside n s s' ∧ r.cursor.Leads s.cursor →
      T.Abreast (flag Item.isBroken) φ R (fun b _ => flag T.cuts b = true) ((f a).run s) ((f' a').run s')) :
    T.Abreast (flag Item.isBroken) φ R (fun b _ => flag T.cuts b = true) ((LineRead.inline (spanned part) >>= f).run r)
      ((LineRead.inline (spanned part) >>= f').run r') := by
  have first : T.Abreast (fun a => broken a.1) (fun C a => (ψ C a.1, C.span a.2))
      (fun s s' => T.Beside n s s' ∧ r.cursor.Leads s.cursor) (fun _ s => T.crossed r.cursor.pos s.cursor.pos = true)
      ((LineRead.inline (spanned part)).run r) ((LineRead.inline (spanned part)).run r') := by
    have keeps := (spanned_alike alike).keeps beside.cursor trivial
    have leads := (spanned_alike alike).onward (c := r.cursor) trivial
    rw [run_inline, run_inline]
    unfold Keeps at keeps
    generalize (spanned part).run r.cursor = x at keeps leads
    generalize (spanned part).run r'.cursor = x' at keeps
    cases keeps with
    | both whole same near => exact .both whole same (beside.onto near beside.levels beside.pending leads)
    | spoilt breaks here => exact .spoilt breaks here
    | astray loose gone => exact .astray loose gone
    | neither fault => exact .neither fault
    | unread loose => exact .unread loose
  have place : Ends (fun _ => True) (fun a d => a.2 = ⟨r.cursor.pos, d.pos⟩) ((spanned part).run r.cursor) := by
    unfold spanned
    rw [run_pos]
    exact Ends.always.bind fun _ _ _ => rfl
  refine first.bind (fun a a' s s' ran whole same => next a a' s s' ran whole (Prod.mk.inj same))
    (fun a t here => (owns a t).mono fun b _ held => ?_) fun a t ran gone => (owns a t).mono fun b _ held => ?_
  · obtain ⟨i, same, -, flagged⟩ := held
    exact flagged _ (same.trans here)
  · obtain ⟨i, -, span, flagged⟩ := held
    refine flagged _ ?_
    rw [cuts, span, ((inline_ends place).of_ok ran).1]
    exact gone

theorem part_line {f f' : H × Span → LineRead Item} (alike : T.Alike Anywhere broken ψ part part)
    (moves : Ends (fun _ => True) (fun _ d => r.cursor.pos < d.pos) (part.run r.cursor))
    (owns : Owns flagItem broken f) (beside : T.Beside (n + 1) r r')
    (next : ∀ a a', (T.breaks → broken a.1 = false) →
      ψ T.there a'.1 = ψ T.here a.1 ∧ T.there.span a'.2 = T.here.span a.2 →
      T.LineAlike n flagItem Change.item (f a) (f' a')) :
    T.PairedAt (n + 1) (LineRead.inline (spanned part) >>= f) (LineRead.inline (spanned part) >>= f') r r' := by
  refine part_keeps alike owns beside fun a a' s s' ran whole same onto => ?_
  have behind : Ends (fun _ => True) (fun _ d => r.cursor.pos < d.pos) ((spanned part).run r.cursor) := by
    unfold spanned
    rw [run_pos]
    exact moves.bind fun _ _ moved => moved
  have moved := ((inline_ends behind).of_ok ran).1
  have less := onto.2.length_lt moved
  have left := beside.left
  have low := onto.1.lower (k := n) (by omega)
  refine ((next a a' whole same).keeps low).mono (fun u u' later => ?_) fun _ _ => id
  have leads := onto.2.trans later.2
  exact ⟨beside.onto later.1.cursor later.1.levels later.1.pending leads, Nat.lt_of_lt_of_le moved later.2.pos_le⟩

section

variable {line line' : LineRead Item} (pair : T.Paired n line line')

include pair

theorem tail_alike (allowText : Bool) :
    T.LineAlike n flagItems Change.items (tail line allowText) (tail line' allowText) := by
  refine inline_alike (accept_steady rfl) fun child => .ite ?_ ?_
  · refine inline_alike (takeWhile_steady rfl rfl) fun _ => .reading fun r r' near => ?_
    rw [Lawful.atLineEnd near]
    refine .ite (fail_alike _) (pair.alike.bind (fun i i' whole same => ?_) fun p i _ here => ?_)
    · exact .pure (by simp [same]) fun breaks => by rw [flagItems_cons, whole breaks]; rfl
    · exact (flagItems_cons p i []).trans (by rw [here, Bool.true_or])
  · refine inline_alike (takeWhile_steady rfl rfl) fun blanks => ⟨fun {r r'} beside => ?_⟩
    rw [run_reading, run_reading]
    dsimp only
    rw [Lawful.atLineEnd beside.cursor]
    split
    · exact (block_alike pair).keeps beside
    split
    · rw [run_spannedText, run_spannedText]
      refine part_keeps textRun_alike (fun a t => Ends.always.bind fun below _ _ => ?_) beside
        fun a a' s s' _ _ same onto => ?_
      · exact ⟨.text a.1 a.2, rfl, rfl,
          fun p here => by rw [flagItems_cons, flagItem_eq, here, Bool.true_or, Bool.true_or]⟩
      · obtain ⟨fragments, span⟩ := same
        have block : T.LineAlike n flagItems Change.items (do return .text a.1 a.2 :: (← block line))
            (do return .text a'.1 a'.2 :: (← block line')) := by
          refine (block_alike pair).bind (fun below below' whole alike => ?_) fun p below _ here => ?_
          · exact .pure (by simp [fragments, span, alike]) whole
          · change flagItems p (_ :: below) = true
            rw [flagItems_cons, here, Bool.or_true]
        exact (block.keeps onto.1).mono (fun _ _ later => ⟨later.1, onto.2.trans later.2⟩) fun _ _ => id
    · exact (fail_alike _).keeps beside

theorem element_alike {isPart : Char → Bool} {make : Header → List Item → Span → Item}
    (made : make = .tag ∨ make = .component)
    (returns : isPart '\r' = false) (feeds : isPart '\n' = false) (first : r.cursor.peek?.any isPart = true)
    (beside : T.Beside (n + 1) r r') :
    T.PairedAt (n + 1) (element line isPart make) (element line' isPart make) r r' := by
  have broken (h children s) : (make h children s).isBroken = h.isBroken := by rcases made with rfl | rfl <;> rfl
  have flagged (p h children s) : flagItem p (make h children s) = (p (make h children s) || flagItems p children) := by
    rcases made with rfl | rfl <;> exact flagItem_eq p _
  rw [PairedAt, element_eq, element_eq]
  refine part_line (headerPart_alike returns feeds) (headerPart_moves first)
    (fun a t => Ends.always.bind fun children _ _ => ?_) beside fun ⟨⟨name, ss, as⟩, s⟩
      ⟨⟨name', ss', as'⟩, s'⟩ whole same => ?_
  · refine ⟨make a.1 children a.2, broken .., ?_, fun p here => by rw [flagged, here, Bool.true_or]⟩
    rcases made with rfl | rfl <;> rfl
  · obtain ⟨⟨rfl, shorthands, attributes⟩, span⟩ : (name' = name ∧ ss'.map T.there.shorthand = ss.map T.here.shorthand ∧
      as'.map T.there.attr = as.map T.here.attr) ∧ T.there.span s' = T.here.span s := by simpa using same
    refine (tail_alike pair true).bind (fun children children' others alike => .pure ?_ fun breaks => ?_)
      fun p children _ here => ?_
    · rcases made with rfl | rfl <;> simp [shorthands, attributes, span, alike]
    · rw [flagged, broken, whole breaks, others breaks]
      rfl
    · change flagItem p (make _ children _) = true
      rw [flagged, here, Bool.or_true]

theorem directive_alike (first : r.cursor.peek? = some '@') (beside : T.Beside (n + 1) r r') :
    T.PairedAt (n + 1) (directive line) (directive line') r r' := by
  rw [PairedAt, directive_parts, directive_parts]
  have tails (name : String) :
      T.LineAlike n flagItems Change.items (directiveTail line name) (directiveTail line' name) := by
    refine .ite (inline_alike (takeWhile_steady rfl rfl) fun _ => .reading fun r r' near => ?_) (tail_alike pair false)
    rw [Lawful.atLineEnd near]
    exact .ite (noBlock_alike.same fun _ => .pure (by simp) fun _ => rfl) (fail_alike _)
  refine part_line directivePart_alike (directivePart_moves first) (fun a t => Ends.always.bind fun children _ _ => ?_)
    beside fun ⟨⟨name, place, argument⟩, s⟩ ⟨⟨name', place', argument'⟩, s'⟩ whole same => ?_
  · exact ⟨.directive a.1 children a.2, rfl, rfl, fun p here => by rw [flagItem_eq, here, Bool.true_or]⟩
  · obtain ⟨⟨rfl, named, arguments⟩, span⟩ : (name' = name ∧ T.there.span place' = T.here.span place ∧
      argument'.map T.there.code = argument.map T.here.code) ∧ T.there.span s' = T.here.span s := by simpa using same
    refine (tails name').bind (fun children children' others alike => ?_) fun p children _ here => ?_
    · refine .pure (by simp [named, arguments, span, alike]) fun breaks => ?_
      rw [flagItem_eq, Item.isBroken, whole breaks, Item.children, others breaks]
      rfl
    · change flagItem p (Item.directive _ children _) = true
      rw [flagItem_eq, Item.children, here, Bool.or_true]

end

theorem textLine_alike (first : r.cursor.peek? = some '|') (beside : T.Beside (n + 1) r r') :
    T.PairedAt (n + 1) textLine textLine r r' := by
  rw [PairedAt, textLine_eq]
  refine part_line textLinePart_alike (textLinePart_moves first) (fun a t => Ends.always.bind fun _ _ _ => ?_)
    beside fun a a' _ same => noBlock_alike.same fun _ => ?_
  · exact ⟨.text a.1 a.2, rfl, rfl, fun p here => by rw [flagItem_eq, here, Bool.true_or]⟩
  · exact .pure (by simp [same]) fun _ => by rw [flagItem_eq]; rfl

theorem line_paired {n n'} (more : n ≤ n') : T.Paired n (line n) (line n') := by
  induction n generalizing n' with
  | zero => exact ⟨fun beside => absurd beside.left (Nat.not_lt_zero _)⟩
  | succ n ih =>
    cases n' with
    | zero => exact absurd more (Nat.not_succ_le_zero n)
    | succ n' =>
      have pair := ih (Nat.le_of_succ_le_succ more)
      refine ⟨fun {r r'} beside => ?_⟩
      unfold PairedAt line
      rw [run_linePeek, run_linePeek]
      rcases Lawful.peek beside.cursor with same | ⟨here, there⟩
      · rw [same]
        cases first : r.cursor.peek? with
        | none => exact .neither (Lawful.unexpected _ beside.cursor)
        | some x =>
          dsimp only
          split
          · refine element_alike pair (.inl rfl) rfl rfl ?_ beside
            simpa [first] using isNamePart_of_tagStart x ‹_›
          split
          · refine element_alike pair (.inr rfl) rfl rfl ?_ beside
            simpa [first] using isWordPart_of_componentStart x ‹_›
          split
          · exact directive_alike pair (‹x = '@'› ▸ first) beside
          split
          · exact textLine_alike (‹x = '|'› ▸ first) beside
          · exact .neither (Lawful.unexpected _ beside.cursor)
      · rw [here, there]
        exact .neither (Lawful.unexpected _ beside.cursor)

theorem template_alike {n n'} (more : n ≤ n') : T.LineAlike n flagItems Change.items (template n) (template n') := by
  refine (lines_alike (line_paired more)).bind (fun items items' whole same => ?_) fun p items t here => ?_
  · refine next_alike.same fun token => ?_
    cases token with
    | eof => exact .pure same whole
    | indent | sibling | dedent => exact fail_alike _
  · refine Ends.always.bind fun token t _ => ?_
    cases token with
    | eof => exact here
    | indent | sibling | dedent => trivial

theorem parse_alike {source source' : String} {base base' : Nat}
    (first : Option.Rel (fun a a' => a'.1 = a.1 ∧ T.near a.2 a'.2) (Layout.firstLine? (Cursor.start source base))
      (Layout.firstLine? (Cursor.start source' base')))
    (more : (Cursor.start source base).rest.length ≤ (Cursor.start source' base').rest.length) :
    T.Abreast (flagItems Item.isBroken) Change.items (fun _ _ => True) (fun items _ => flagItems T.cuts items = true)
      ((parse source base).map (·, ())) ((parse source' base').map (·, ())) := by
  unfold parse
  dsimp only
  cases found : Layout.firstLine? (Cursor.start source base) <;>
    cases found' : Layout.firstLine? (Cursor.start source' base') <;> rw [found, found'] at first <;> cases first
  · exact .both (fun _ => rfl) (by simp) trivial
  · rename_i a a' same
    obtain ⟨_, starts, passes⟩ := (Layout.firstLine?_indented found).starts
    have left := Nat.lt_succ_of_le (starts.leads.trans passes.leads).length_le
    have beside : T.Beside _ ⟨a.2, [a.1], []⟩ ⟨a'.2, [a'.1], []⟩ :=
      ⟨same.2, congrArg (fun lead => [lead]) same.1, rfl, left⟩
    have read := (template_alike (T := T) (Nat.succ_le_succ more)).keeps beside
    dsimp only
    rw [StateT.run'_eq, StateT.run'_eq]
    generalize (template _).run ⟨a.2, [a.1], []⟩ = x at read ⊢
    generalize (template _).run ⟨a'.2, [a'.1], []⟩ = x' at read ⊢
    cases read with
    | both whole same => exact .both whole same trivial
    | spoilt breaks here => exact .spoilt breaks here
    | astray loose gone => exact .astray loose gone
    | neither fault => exact .neither fault
    | unread loose => exact .unread loose

end Twin

end ComponentCompiler.Template
