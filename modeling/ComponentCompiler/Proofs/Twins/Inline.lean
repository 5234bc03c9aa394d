import ComponentCompiler.Proofs.LineEnds.Text
import ComponentCompiler.Proofs.Outline.Positions

/-!
# Twin texts

Two texts may differ in their place, in their line ends or in lines that count for nothing. Where the elementary
readers keep in step, so do all readers.
-/

namespace ComponentCompiler.Template

open Text

/-! ### What is compared -/

/-- Whether a string in the code runs on behind a line end. -/
def Code.isBroken (code : Code) : Bool := Balanced.breaks [] code.text.toList

def Fragment.isBroken : Fragment → Bool
  | .static _ => false
  | .dynamic code | .reactive code => code.isBroken

namespace Outline

def Value.isBroken : Value → Bool
  | .text content _ => content.toList.contains '\n'
  | .code c => c.isBroken

def Attribute.isBroken (a : Attribute) : Bool := a.value.any Value.isBroken

def Shorthand.isBroken : Shorthand → Bool
  | .id _ _ => false
  | .className fragment _ => fragment.isBroken

/-- A change of outlines, made of one of spans, code and strings. -/
structure Change where
  span : Span → Span
  code : Code → Code
  fragment : Fragment → Fragment
  shorthand : Shorthand → Shorthand
  value : Value → Value
  attr : Attribute → Attribute
  item : Item → Item
  items : List Item → List Item
  static : ∀ text, fragment (.static text) = .static text := by intros; rfl
  dynamic : ∀ c, fragment (.dynamic c) = .dynamic (code c) := by intros; rfl
  reactive : ∀ c, fragment (.reactive c) = .reactive (code c) := by intros; rfl
  id : ∀ name s, shorthand (.id name s) = .id name (span s) := by intros; rfl
  className : ∀ f s, shorthand (.className f s) = .className (fragment f) (span s) := by intros; rfl
  coded : ∀ c, value (.code c) = .code (code c) := by intros; rfl
  attributed : ∀ g name modifiers v s, attr ⟨g, name, modifiers, v, s⟩ =
    ⟨g, name, modifiers.map fun m => (m.1, span m.2), v.map value, span s⟩ := by intros; rfl
  tag : ∀ name shorthands attributes children s, item (.tag ⟨name, shorthands, attributes⟩ children s) =
    .tag ⟨name, shorthands.map shorthand, attributes.map attr⟩ (items children) (span s) := by intros; rfl
  component : ∀ name shorthands attributes children s, item (.component ⟨name, shorthands, attributes⟩ children s) =
    .component ⟨name, shorthands.map shorthand, attributes.map attr⟩ (items children) (span s) := by intros; rfl
  text : ∀ fragments s, item (.text fragments s) = .text (fragments.map fragment) (span s) := by intros; rfl
  directive : ∀ name nameSpan argument children s, item (.directive ⟨name, nameSpan, argument⟩ children s) =
    .directive ⟨name, span nameSpan, argument.map code⟩ (items children) (span s) := by intros; rfl
  nil : items [] = [] := by rfl
  cons : ∀ i rest, items (i :: rest) = item i :: items rest := by intros; rfl

attribute [simp] Change.static Change.dynamic Change.reactive Change.id Change.className Change.coded Change.attributed
  Change.tag Change.component Change.text Change.directive Change.nil Change.cons

end Outline

open Outline

/-- What corresponds in two texts. -/
structure Twin where
  near : Cursor → Cursor → Prop
  place : Nat → Nat → Prop
  placed : ∀ p, ∃ p', place p p'
  /-- Outlines of the two texts are the same once they are changed. -/
  here : Change
  there : Change
  /-- A string that runs on behind a line end is a fault in the second text. -/
  breaks : Prop
  fault : ParseError → ParseError → Prop
  faulty : breaks → ∀ e e', fault e e'
  /-- What leads from one place over to the other may be read in another way in the second text. -/
  crossed : Nat → Nat → Bool
  widen : ∀ {p q p' q'}, crossed p q = true → p' ≤ p → q ≤ q' → crossed p' q' = true
  /-- A text that is not read, or has such parts, says nothing of the second one. -/
  loose : Prop

/-- A place that corresponds to any other one, for texts whose places are not compared. -/
theorem Twin.anywhere (_ : Nat) : ∃ _ : Nat, True := ⟨0, trivial⟩

/-- How a run in each text may end. What is read corresponds by `φ`, and the states by `R`, unless it is `broken`
or `off`. -/
inductive Twin.Abreast (T : Twin) {α σ : Type} (broken : α → Bool) (φ : Change → α → α) (R : σ → σ → Prop)
    (off : α → σ → Prop) : Except ParseError (α × σ) → Except ParseError (α × σ) → Prop where
  | both {a a' s s'} (whole : T.breaks → broken a = false) (same : φ T.there a' = φ T.here a) (states : R s s') :
      T.Abreast broken φ R off (.ok (a, s)) (.ok (a', s'))
  | spoilt {a s e} (breaks : T.breaks) (here : broken a = true) : T.Abreast broken φ R off (.ok (a, s)) (.error e)
  | astray {a s x} (loose : T.loose) (gone : off a s) : T.Abreast broken φ R off (.ok (a, s)) x
  | neither {e e'} (fault : T.fault e e') : T.Abreast broken φ R off (.error e) (.error e')
  | unread {e x} (loose : T.loose) : T.Abreast broken φ R off (.error e) x

/-- What holds no strings is not broken. -/
abbrev never {α : Type} (_ : α) : Bool := false

abbrev plain {α : Type} (_ : Change) (a : α) : α := a

theorem Twin.Abreast.bind {T : Twin} {α β σ : Type} {broken : α → Bool} {φ : Change → α → α} {broken' : β → Bool}
    {φ' : Change → β → β} {R R' : σ → σ → Prop} {off : α → σ → Prop} {off' : β → σ → Prop} {s s' : σ}
    {m m' : StateT σ (Except ParseError) α} {f f' : α → StateT σ (Except ParseError) β}
    (first : T.Abreast broken φ R off (m.run s) (m'.run s'))
    (next : ∀ a a' t t', m.run s = .ok (a, t) → (T.breaks → broken a = false) → φ T.there a' = φ T.here a → R t t' →
      T.Abreast broken' φ' R' off' ((f a).run t) ((f' a').run t'))
    (stays : ∀ a t, broken a = true → Ends (fun _ => True) (fun b _ => broken' b = true) ((f a).run t))
    (gone : ∀ a t, m.run s = .ok (a, t) → off a t → Ends (fun _ => True) off' ((f a).run t)) :
    T.Abreast broken' φ' R' off' ((m >>= f).run s) ((m' >>= f').run s') := by
  rw [StateT.run_bind, StateT.run_bind]
  generalize ended : m.run s = x at first next gone
  generalize m'.run s' = y at first
  cases first with
  | both whole same states => exact next _ _ _ _ rfl whole same states
  | @spoilt a t e breaks here =>
    have later := stays a t here
    change T.Abreast broken' φ' R' off' ((f a).run t) (.error e)
    cases done : (f a).run t with
    | error e' => exact .neither (T.faulty breaks e' e)
    | ok result =>
      rw [done] at later
      exact .spoilt breaks later
  | @astray a t _ loose here =>
    have later := gone a t rfl here
    change T.Abreast broken' φ' R' off' ((f a).run t) _
    cases done : (f a).run t with
    | error => exact .unread loose
    | ok result =>
      rw [done] at later
      exact .astray loose later
  | neither fault => exact .neither fault
  | unread loose => exact .unread loose


/-! ### Readers in step -/

theorem Outline.run_accept (literal : List Char) (c : Cursor) : (Read.accept literal).run c =
    if literal.isPrefixOf c.rest then .ok (true, c.skip literal.length) else .ok (false, c) := by
  unfold Read.accept Cursor.skipLiteral?
  rw [run_get]
  by_cases here : literal.isPrefixOf c.rest = true
  · rw [if_pos here, if_pos here]
    rfl
  · rw [if_neg here, if_neg here]
    rfl

theorem Outline.run_takeWhile {p : Char → Bool} {c : Cursor} (f : List Char → Read α) :
    (Read.takeWhile p >>= f).run c = (f (c.rest.takeWhile p)).run (c.dropWhile p) := rfl

def Outline.isGap (c : Char) : Bool := isBlank c || c = ','

/-- What stands before an attribute, or before the end of the list. -/
def Outline.attributeStart (opening : Span) : Read Unit := do
  let _ ← Read.takeWhile isGap
  match ← Read.peek with
  | none => throw (.unterminated .attributeList opening)
  | some _ => return ()

theorem Outline.run_attributeStart (opening : Span) (c : Cursor) : (attributeStart opening).run c =
    if (c.dropWhile isGap).peek?.isSome then .ok ((), c.dropWhile isGap)
    else .error (.unterminated .attributeList opening) := by
  unfold attributeStart
  rw [run_takeWhile, run_peek]
  cases (c.dropWhile isGap).peek? <;> rfl

theorem Outline.nextAttribute?_eq (opening : Span) : nextAttribute? opening = (do
    attributeStart opening
    if ← Read.accept [')'] then return none else some <$> singleAttribute) := by
  unfold nextAttribute? attributeStart
  rw [bind_assoc, show (fun c => isBlank c || c = ',') = isGap from rfl]
  refine bind_congr fun _ => ?_
  rw [bind_assoc]
  refine bind_congr fun found => ?_
  cases found <;> rfl

namespace Twin

variable (T : Twin) {α β : Type}

abbrev Keeps (broken : α → Bool) (φ : Change → α → α) (m m' : Read α) (c c' : Cursor) : Prop :=
  T.Abreast broken φ T.near (fun _ d => T.crossed c.pos d.pos = true) (m.run c) (m'.run c')

/-- The elementary readers keep in step. -/
class Lawful : Prop where
  place {c c'} : T.near c c' → T.place c.pos c'.pos
  longer {c c'} : T.near c c' → c.rest.length ≤ c'.rest.length
  after {p p'} : T.place p p' → T.place (p + 1) (p' + 1)
  span {p p' q q'} : T.place p p' → T.place q q' → T.there.span ⟨p', q'⟩ = T.here.span ⟨p, q⟩
  unexpected {c c'} (expected : Expectation) :
    T.near c c' → T.fault (.unexpectedAt c expected) (.unexpectedAt c' expected)
  peek {c c'} : T.near c c' → c'.peek? = c.peek? ∨ c.peek? = some '\n' ∧ c'.peek? = some '\r'
  atLineEnd {c c'} : T.near c c' → c'.atLineEnd = c.atLineEnd
  next {c c'} : T.near c c' → c.atLineEnd = false → c'.rest.take 1 = c.rest.take 1 ∧ T.near c.next c'.next
  literal {c c'} {literal : List Char} : T.near c c' → '\r' ∉ literal → '\n' ∉ literal →
    literal.isPrefixOf c'.rest = literal.isPrefixOf c.rest ∧
      (literal.isPrefixOf c.rest = true → T.near (c.skip literal.length) (c'.skip literal.length))
  takeWhile {c c'} {p : Char → Bool} : T.near c c' → p '\r' = false → p '\n' = false →
    c'.rest.takeWhile p = c.rest.takeWhile p ∧ T.near (c.dropWhile p) (c'.dropWhile p)
  attributes {c c' opening opening'} : T.near c c' → T.there.span opening' = T.here.span opening →
    T.Keeps never plain (attributeStart opening) (attributeStart opening') c c'
  code {s s'} (text : List Char) : T.there.span s' = T.here.span s →
    T.there.code (Code.ofList text s') = T.here.code (Code.ofList text s)
  delimited {c c' x close what} : T.near c c' → Balanced.isClosing close = true → c.peek? = some x → x ≠ '\n' →
    T.Keeps Code.isBroken Change.code (delimited close what) (delimited close what) c c'
  string {c c'} : T.near c c' → c.peek? = some '"' →
    T.Keeps Value.isBroken Change.value stringLiteral stringLiteral c c'
  interpolation {c c' opening opening' reactive} : T.near c c' → T.there.span opening' = T.here.span opening →
    T.Keeps never Change.fragment (interpolationFrom opening reactive) (interpolationFrom opening' reactive) c c'

/-- The reader gives the same in both texts. -/
structure Steady (m : Read α) : Prop where
  onward c : Ends (fun _ => True) (fun _ d => c.Leads d) (m.run c)
  both {c c'} (near : T.near c c') : ∃ a d d', m.run c = .ok (a, d) ∧ m.run c' = .ok (a, d') ∧ T.near d d'

/-- Where `P` holds, the readers keep in step. -/
structure Alike (P : Cursor → Prop) (broken : α → Bool) (φ : Change → α → α) (m m' : Read α) : Prop where
  onward {c} (start : P c) : Ends (fun _ => True) (fun _ d => c.Leads d) (m.run c)
  keeps {c c'} (near : T.near c c') (start : P c) : T.Keeps broken φ m m' c c'

abbrev Anywhere (_ : Cursor) : Prop := True

variable {T} {P : Cursor → Prop} {broken : α → Bool} {φ : Change → α → α} {broken' : β → Bool} {φ' : Change → β → β}
  {m m' n n' : Read α} {f f' : α → Read β}

theorem Abreast.mono {σ : Type} {R R' : σ → σ → Prop} {off off' : α → σ → Prop} {x x'}
    (inner : T.Abreast broken φ R off x x') (weaker : ∀ t t', R t t' → R' t t') (wider : ∀ a t, off a t → off' a t) :
    T.Abreast broken φ R' off' x x' := by
  cases inner with
  | both whole same states => exact .both whole same (weaker _ _ states)
  | spoilt breaks here => exact .spoilt breaks here
  | astray loose gone => exact .astray loose (wider _ _ gone)
  | neither fault => exact .neither fault
  | unread loose => exact .unread loose

namespace Alike

theorem pure {a a' : α} (same : φ T.there a' = φ T.here a)
    (whole : T.breaks → broken a = false) : T.Alike P broken φ (pure a) (pure a') :=
  ⟨fun _ => .refl _, fun near _ => .both whole same near⟩

theorem bind (first : T.Alike P broken φ m m')
    (next : ∀ a a', (T.breaks → broken a = false) → φ T.there a' = φ T.here a →
      T.Alike Anywhere broken' φ' (f a) (f' a'))
    (onward : ∀ a c, Ends (fun _ => True) (fun _ d => c.Leads d) ((f a).run c))
    (stays : ∀ a c, broken a = true → Ends (fun _ => True) (fun b _ => broken' b = true) ((f a).run c)) :
    T.Alike P broken' φ' (m >>= f) (m' >>= f') where
  onward start := (first.onward start).bind fun a d leads => (onward a d).mono fun _ _ => leads.trans
  keeps near start := by
    refine (first.keeps near start).bind (fun a a' t t' ran whole same near => ?_) stays fun a t ran gone => ?_
    · have leads := (first.onward start).of_ok ran
      exact ((next a a' whole same).keeps near trivial).mono (fun _ _ => id)
        fun _ _ crossed => T.widen crossed leads.pos_le (Nat.le_refl _)
    · exact (onward a t).mono fun _ _ leads => T.widen gone (Nat.le_refl _) leads.pos_le

theorem same (first : T.Alike P never plain m m') (next : ∀ a, T.Alike Anywhere broken' φ' (f a) (f' a)) :
    T.Alike P broken' φ' (m >>= f) (m' >>= f') := by
  refine first.bind (fun a a' _ same => ?_) (fun a c => (next a).onward trivial) fun _ _ impossible => ?_
  · rw [show a' = a from same]
    exact next a
  · exact absurd impossible Bool.false_ne_true

theorem after (first : T.Steady m) (next : ∀ a, T.Alike Anywhere broken' φ' (f a) (f' a)) :
    T.Alike P broken' φ' (m >>= f) (m >>= f') := by
  refine same ⟨fun _ => first.onward _, fun near _ => ?_⟩ next
  obtain ⟨a, d, d', ran, ran', behind⟩ := first.both near
  rw [Keeps, ran, ran']
  exact .both (fun _ => rfl) rfl behind

theorem give {F F' : α → β} (first : T.Alike P broken φ m m') (flag : ∀ a, broken' (F a) = broken a)
    (same : ∀ a a', φ T.there a' = φ T.here a → φ' T.there (F' a') = φ' T.here (F a)) :
    T.Alike P broken' φ' (do return F (← m)) (do return F' (← m')) := by
  refine first.bind (fun a a' whole alike => ⟨fun _ => .refl _, fun near _ => ?_⟩)
    (fun _ _ => .refl _) fun a _ here => ?_
  · exact .both (fun breaks => (flag a).trans (whole breaks)) (same a a' alike) near
  · exact (flag a).trans here

theorem ite {p : Prop} [Decidable p] (yes : p → T.Alike P broken φ m m') (no : T.Alike P broken φ n n') :
    T.Alike P broken φ (if p then m else n) (if p then m' else n') := by
  split
  · exact yes ‹_›
  · exact no

theorem option (inner : T.Alike P broken φ m m') :
    T.Alike P (fun a => a.any broken) (fun C => Option.map (φ C)) (some <$> m) (some <$> m') := by
  rw [map_eq_pure_bind, map_eq_pure_bind]
  exact inner.give (fun _ => rfl) fun _ _ same => congrArg some same

section

variable [T.Lawful]

theorem fail (expected : Expectation) : T.Alike P broken φ (Read.fail expected) (Read.fail expected) :=
  ⟨fun _ => trivial, fun near _ => .neither (Lawful.unexpected expected near)⟩

theorem pos {f f' : Nat → Read β} (next : ∀ p p', T.place p p' → T.Alike Anywhere broken' φ' (f p) (f' p')) :
    T.Alike P broken' φ' (Read.pos >>= f) (Read.pos >>= f') where
  onward {c} _ := by
    obtain ⟨p', place⟩ := T.placed c.pos
    exact (next c.pos p' place).onward trivial
  keeps near _ := (next _ _ (Lawful.place near)).keeps near trivial

theorem span {f f' : Span → Read β} {p p'} (starts : T.place p p')
    (next : ∀ s s', T.there.span s' = T.here.span s → T.Alike Anywhere broken' φ' (f s) (f' s')) :
    T.Alike P broken' φ' (Read.spanFrom p >>= f) (Read.spanFrom p' >>= f') where
  onward {c} _ := by
    obtain ⟨q', place⟩ := T.placed c.pos
    exact (next _ _ (Lawful.span starts place)).onward trivial
  keeps near _ := (next _ _ (Lawful.span starts (Lawful.place near))).keeps near trivial

theorem peek {g g' : Option Char → Read β} (each : ∀ x, T.Alike (fun c => c.peek? = x) broken' φ' (g x) (g' x))
    (feed : T.Alike Anywhere broken' φ' (g (some '\n')) (g' (some '\r'))) :
    T.Alike P broken' φ' (Read.peek >>= g) (Read.peek >>= g') where
  onward {c} _ := (each c.peek?).onward rfl
  keeps {c c'} near _ := by
    rw [Keeps, run_peek, run_peek]
    rcases Lawful.peek near with same | ⟨here, there⟩
    · rw [same]
      exact (each c.peek?).keeps near rfl
    · rw [here, there]
      exact feed.keeps near trivial

end

end Alike

end Twin

namespace Outline

open Twin

variable {T : Twin} [T.Lawful] {P : Cursor → Prop}

theorem accept_steady {literal} (whole : (literal.contains '\r' || literal.contains '\n') = false) :
    T.Steady (Read.accept literal) where
  onward _ := accept_leads literal
  both {c c'} near := by
    obtain ⟨returns, feeds⟩ := Bool.or_eq_false_iff.1 whole
    obtain ⟨same, behind⟩ := Lawful.literal near (by simpa using returns) (by simpa using feeds)
    rw [run_accept, run_accept, same]
    split
    · exact ⟨true, _, _, rfl, rfl, behind ‹_›⟩
    · exact ⟨false, _, _, rfl, rfl, near⟩

theorem takeWhile_steady {p : Char → Bool} (returns : p '\r' = false) (feeds : p '\n' = false) :
    T.Steady (Read.takeWhile p) where
  onward c := (c.passes_dropWhile p).leads
  both {c c'} near := by
    obtain ⟨same, behind⟩ := Lawful.takeWhile near returns feeds
    exact ⟨c'.rest.takeWhile p, _, _, by rw [same]; rfl, rfl, behind⟩

theorem delimited_alike {close x what} (closing : Balanced.isClosing close = true) (other : x ≠ '\n') :
    T.Alike (fun c => c.peek? = some x) Code.isBroken Change.code (delimited close what) (delimited close what) where
  onward _ := (Ends.faultless (delimited_tracks closing _ (.refl _))).mono fun _ _ cut => cut.leads
  keeps near first := Lawful.delimited near closing first other

/-! ### Names, ids and classes -/

theorem name_alike (expected : Expectation) : T.Alike P never plain (name expected) (name expected) := by
  refine .peek (fun _ => .ite (fun _ => ?_) (.fail expected)) (.fail expected)
  exact .after (takeWhile_steady rfl rfl) fun _ => .pure rfl fun _ => rfl

theorem className_alike : T.Alike P Fragment.isBroken Change.fragment className className := by
  refine .after (accept_steady rfl) fun reactive => .ite (fun _ => ?_) ?_
  · refine .peek (fun _ => .ite (fun opened => ?_) (.fail _)) (.fail _)
    subst opened
    exact .give (delimited_alike rfl (by decide)) (fun _ => rfl) fun _ _ same => by simp [same]
  · refine .peek (fun _ => .ite (fun opened => ?_) ?_) ?_
    · subst opened
      exact .give (delimited_alike rfl (by decide)) (fun _ => rfl) fun _ _ same => by simp [same]
    · exact .after (takeWhile_steady rfl rfl) fun _ => .ite (fun _ => .fail _) (.pure (by simp) fun _ => rfl)
    · exact .after (takeWhile_steady rfl rfl) fun _ => .ite (fun _ => .fail _) (.pure (by simp) fun _ => rfl)

theorem shorthand?_alike : T.Alike P (fun s => s.any Shorthand.isBroken) (fun C => Option.map C.shorthand)
    shorthand? shorthand? := by
  refine .pos fun start start' starts => ?_
  refine .after (accept_steady rfl) fun isId => .ite (fun _ => ?_) ?_
  · exact (name_alike _).same fun text => .span starts fun s s' same => .pure (by simp [same]) fun _ => rfl
  · refine .after (accept_steady rfl) fun isClass => .ite (fun _ => ?_) (.pure rfl fun _ => rfl)
    refine className_alike.bind (fun f f' whole alike => ?_) (fun _ _ => .refl _) fun _ _ here => here
    exact .span starts fun s s' same => .pure (by simp [alike, same]) whole

/-! ### Attributes -/

theorem isBroken_of_unbroken {w s} (unbroken : '\n' ∉ w) : (Code.ofList w s).isBroken = false := by
  simp only [Code.isBroken, Code.ofList, String.toList_ofList]
  exact Balanced.breaks_of_unbroken fun feed => unbroken (mem_of_mem_trim feed)

theorem value_alike : T.Alike P Value.isBroken Change.value value value := by
  refine .peek (fun x => ?_) (.fail _)
  cases x with
  | none => exact .fail _
  | some x =>
    refine .ite (fun quote => ?_) (.ite (fun brace => ?_) (.ite (fun _ => ?_) (.fail _)))
    · subst quote
      exact ⟨fun _ => (Ends.faultless (stringLiteral_tracks _ (.refl _))).mono fun _ _ cut => cut.leads, Lawful.string⟩
    · subst brace
      exact .give (delimited_alike rfl (by decide)) (fun _ => rfl) fun _ _ same => by simp [same]
    · refine ⟨fun {c} _ => (c.passes_dropWhile isIdentifierPart).leads, fun {c c'} near _ => ?_⟩
      obtain ⟨same, behind⟩ := Lawful.takeWhile (p := isIdentifierPart) near rfl rfl
      have placed := Lawful.span (Lawful.place near) (Lawful.place behind)
      refine .both (fun _ => isBroken_of_unbroken fun feed => ?_) ?_ behind
      · exact absurd (List.all_eq_true.1 List.all_takeWhile _ feed) (by decide)
      · have coded := Lawful.code (c.rest.takeWhile isIdentifierPart) placed
        rw [T.there.coded, T.here.coded, Cursor.takeWhile, same, Cursor.takeWhile, coded]

theorem modifier?_alike : T.Alike P (fun m => m.any never) (fun C => Option.map fun m => (m.1, C.span m.2))
    modifier? modifier? := by
  refine .after (accept_steady rfl) fun given => .ite (fun _ => ?_) (.pure rfl fun _ => rfl)
  refine .pos fun start start' starts => (name_alike _).same fun text => ?_
  exact .span starts fun s s' same => .pure (by simp [same]) fun _ => rfl

theorem sigil_alike : T.Alike P never plain sigil sigil := by
  refine .after (accept_steady rfl) fun event => .ite (fun _ => .pure rfl fun _ => rfl) ?_
  refine .after (accept_steady rfl) fun sync => .ite (fun _ => .pure rfl fun _ => rfl) ?_
  refine .after (accept_steady rfl) fun reactive => .ite (fun _ => .pure rfl fun _ => rfl) ?_
  refine .after (accept_steady rfl) fun receiver => .ite (fun _ => ?_) (.pure rfl fun _ => rfl)
  refine (name_alike _).same fun kind => ?_
  exact .after (accept_steady rfl) fun closed => .ite (fun _ => .pure rfl fun _ => rfl) (.fail _)

/-! ### Repetition -/

def Advances (read : Read (Option α)) : Prop :=
  ∀ c, Ends (fun _ => True) (fun a d => c.Leads d ∧ (a.isSome = true → c.pos < d.pos)) (read.run c)

theorem Tracks.advances {marks : Option α → List Mark} {good : Option α → Prop} {read}
    (tracks : ∀ o, Tracks o marks good Option.isSome read) : Advances read :=
  fun c => (tracks c c (.refl c)).faultless.mono fun _ _ part => ⟨part.leads, part.moves⟩

section

variable {α : Type} {broken : α → Bool} {φ : Change → α → α} {read read' : Read (Option α)} (moves : Advances read)

include moves

theorem Advances.go (n : Nat) (c : Cursor) :
    Ends (fun _ => True) (fun _ d => c.Leads d) ((Read.many.go read n).run c) := by
  induction n generalizing c with
  | zero => exact .refl c
  | succ n ih =>
    refine (moves c).bind fun a d moved => ?_
    cases a with
    | none => exact moved.1
    | some a => exact (ih d).bind fun _ _ leads => moved.1.trans leads

variable (each : T.Alike Anywhere (fun a => a.any broken) (fun C => Option.map (φ C)) read read')

include each

omit [T.Lawful] in
theorem go_alike {n n' c c'} (near : T.near c c') (enough : c.rest.length < n) (more : n ≤ n') :
    T.Keeps (fun as => as.any broken) (fun C => List.map (φ C)) (Read.many.go read n) (Read.many.go read' n') c c' := by
  -- The lower bound is not reached: what is read takes a character or more.
  induction n generalizing n' c c' with
  | zero => exact absurd enough (Nat.not_lt_zero _)
  | succ n ih =>
    cases n' with
    | zero => exact absurd more (Nat.not_succ_le_zero n)
    | succ n' =>
      unfold Read.many.go
      refine (each.keeps near trivial).bind (fun a a' d d' ran whole same near' => ?_) (fun a d here => ?_)
        fun a d ran gone => ?_
      · cases a with
        | none =>
          cases a' with
          | none => exact .both (fun _ => rfl) rfl near'
          | some => cases same
        | some a =>
          cases a' with
          | none => cases same
          | some a' =>
            obtain ⟨leads, moved⟩ := (moves c).of_ok ran
            have less := leads.length_lt (moved rfl)
            refine (ih near' (by omega) (by omega)).bind (fun rest rest' e e' _ others alike near => ?_)
              (fun rest e there => ?_) fun rest e _ gone => T.widen gone leads.pos_le (Nat.le_refl _)
            · refine .both (fun breaks => Bool.or_eq_false_iff.2 ⟨whole breaks, others breaks⟩) ?_ near
              exact List.cons_eq_cons.2 ⟨Option.some.inj same, alike⟩
            · exact Bool.or_eq_true_iff.2 (.inr there)
      · cases a with
        | none => cases here
        | some a => exact Ends.always.bind fun rest e _ => Bool.or_eq_true_iff.2 (.inl here)
      · cases a with
        | none => exact gone
        | some a =>
          refine (Advances.go moves n d).bind fun _ _ leads => ?_
          exact T.widen gone (Nat.le_refl _) leads.pos_le

theorem many_alike :
    T.Alike P (fun as => as.any broken) (fun C => List.map (φ C)) (Read.many read) (Read.many read') where
  onward {c} _ := Advances.go moves (c.rest.length + 1) c
  keeps near _ := go_alike moves each near (Nat.lt_succ_self _) (Nat.succ_le_succ (Lawful.longer near))

end

theorem attributeEnd_alike {start start' g text found found'} (starts : T.place start start')
    (same : found'.map (fun m => (m.1, T.there.span m.2)) = found.map fun m => (m.1, T.here.span m.2)) :
    T.Alike P Attribute.isBroken Change.attr (attributeEnd start g text found) (attributeEnd start' g text found') := by
  have ending {v v' : Option Value} (whole : T.breaks → v.any Value.isBroken = false)
      (alike : v'.map T.there.value = v.map T.here.value) : T.Alike Anywhere Attribute.isBroken Change.attr
        (do return ⟨g, text, found, v, ← Read.spanFrom start⟩)
          (do return ⟨g, text, found', v', ← Read.spanFrom start'⟩) :=
    .span starts fun s s' placed => .pure (by simp only [Change.attributed, same, alike, placed]) whole
  refine .after (accept_steady rfl) fun given => .ite (fun _ => ?_) (ending (v := none) (fun _ => rfl) rfl)
  exact value_alike.option.bind (fun _ _ => ending) (fun _ _ => .refl _) fun _ _ here => here

theorem singleAttribute_alike : T.Alike P Attribute.isBroken Change.attr singleAttribute singleAttribute := by
  unfold singleAttribute
  refine .pos fun start start' starts => sigil_alike.same fun g => ?_
  have named : T.Alike Anywhere Attribute.isBroken Change.attr
      (do let name ← name .attributeName; attributeEnd start g name (← Read.many modifier?))
      (do let name ← name .attributeName; attributeEnd start' g name (← Read.many modifier?)) := by
    refine (name_alike _).same fun text => ?_
    refine (many_alike (Tracks.advances fun _ => modifier?_tracks) modifier?_alike).bind
      (fun found found' _ same => attributeEnd_alike starts same) (fun found c => ?_) fun _ _ impossible => ?_
    · refine (accept_leads _).bind fun _ d leads => Ends.ite (fun _ => ?_) fun _ => leads
      have read := (value_alike (T := T) (P := Anywhere)).option.onward (c := d) trivial
      exact read.bind fun _ _ there => leads.trans there
    · simp at impossible
  cases g with
  | receiver kind => exact attributeEnd_alike starts rfl
  | plain | reactive | event | sync => exact named

theorem attributeStart_leads (opening : Span) (c : Cursor) :
    Ends (fun _ => True) (fun _ d => c.Leads d) ((attributeStart opening).run c) := by
  rw [run_attributeStart]
  split
  · exact (c.passes_dropWhile isGap).leads
  · trivial

theorem nextAttribute?_alike {opening opening'} (same : T.there.span opening' = T.here.span opening) :
    T.Alike P (fun a => a.any Attribute.isBroken) (fun C => Option.map C.attr) (nextAttribute? opening)
      (nextAttribute? opening') := by
  rw [nextAttribute?_eq, nextAttribute?_eq]
  refine .same ⟨fun _ => attributeStart_leads opening _, fun near _ => Lawful.attributes near same⟩ fun _ => ?_
  exact .after (accept_steady rfl) fun closed => .ite (fun _ => .pure rfl fun _ => rfl) singleAttribute_alike.option

theorem nextAttribute?_advances (opening : Span) : Advances (nextAttribute? opening) := by
  intro c
  rw [nextAttribute?_eq]
  refine (attributeStart_leads opening c).bind fun _ d before => (accept_leads [')']).bind fun closed e behind => ?_
  have here := before.trans behind
  refine Ends.ite (fun _ => ⟨here, fun some => absurd some Bool.false_ne_true⟩) fun _ => ?_
  refine (Ends.faultless (singleAttribute_tracks e (.refl e))).map fun a f read => ?_
  exact ⟨here.trans read.leads, fun _ => Nat.lt_of_le_of_lt here.pos_le (read.moves rfl)⟩

theorem attributes_alike : T.Alike P (fun as => as.any Attribute.isBroken) (fun C => List.map C.attr)
    attributes attributes := by
  refine .pos fun start start' starts => ?_
  refine .after (accept_steady rfl) fun given => .ite (fun _ => ?_) (.pure rfl fun _ => rfl)
  exact many_alike (nextAttribute?_advances _) (nextAttribute?_alike (Lawful.span starts (Lawful.after starts)))

/-! ### Text -/

def TextStep.change (C : Change) : TextStep → TextStep
  | .chars text => .chars text
  | .code fragment => .code (C.fragment fragment)

theorem gather_change (C : Change) (run : List Char) (steps : List TextStep) :
    (gather run steps).map C.fragment = gather run (steps.map (TextStep.change C)) := by
  induction steps generalizing run with
  | nil =>
    unfold gather
    dsimp only [List.map_nil]
    split <;> simp
  | cons step steps ih =>
    cases step with
    | chars text => exact ih _
    | code fragment =>
      simp only [List.map_cons, TextStep.change, gather]
      split <;> simp [ih]

theorem textStep?_advances : Advances textStep? := by
  refine fun c => (Ends.faultless (textStep?_ends (.refl c))).mono fun step d stepped => ?_
  cases stepped with
  | none => exact ⟨.refl c, fun some => absurd some Bool.false_ne_true⟩
  | code _ part => exact ⟨part.leads, fun _ => part.moves rfl⟩
  | chars leads moves => exact ⟨leads, fun _ => moves⟩

theorem interpolation_keeps {c c'} (near : T.near c c') :
    T.Keeps never Change.fragment interpolation interpolation c c' := by
  have opened := Lawful.span (Lawful.place near) (Lawful.after (Lawful.after (Lawful.place near)))
  have braces : T.Steady (Read.accept ['{', '{']) := accept_steady rfl
  have colon : T.Steady (Read.accept [':']) := accept_steady rfl
  obtain ⟨_, d, d', ran, ran', inside⟩ := braces.both near
  obtain ⟨reactive, e, e', also, also', behind⟩ := colon.both inside
  have leads := ((braces.onward c).of_ok ran).trans ((colon.onward d).of_ok also)
  unfold interpolation
  rw [Keeps, run_pos, run_pos, StateT.run_bind, StateT.run_bind, ran, ran']
  change T.Abreast _ _ _ _ ((Read.accept [':'] >>= _).run d) ((Read.accept [':'] >>= _).run d')
  rw [StateT.run_bind, StateT.run_bind, also, also']
  exact (Lawful.interpolation behind opened).mono (fun _ _ => id) fun _ _ crossed =>
    T.widen crossed leads.pos_le (Nat.le_refl _)

theorem textStep?_alike :
    T.Alike P (fun s => s.any never) (fun C => Option.map (TextStep.change C)) textStep? textStep? where
  onward {c} _ := (textStep?_advances c).mono fun _ _ moved => moved.1
  keeps {c c'} near _ := by
    -- An escape is taken in both texts or in neither.
    have escape {literal text} {n n' : Read (Option TextStep)} (returns : '\r' ∉ literal) (feeds : '\n' ∉ literal)
        (no : T.Keeps (fun s => s.any never) (fun C => Option.map (TextStep.change C)) n n' c c') :
        T.Keeps (fun s => s.any never) (fun C => Option.map (TextStep.change C))
          (do if ← Read.accept literal then return some (.chars text) else n)
          (do if ← Read.accept literal then return some (.chars text) else n') c c' := by
      obtain ⟨same, behind⟩ := Lawful.literal near returns feeds
      rw [Keeps, StateT.run_bind, StateT.run_bind, run_accept, run_accept, same]
      split
      · exact .both (fun _ => rfl) rfl (behind ‹_›)
      · exact no
    unfold Keeps textStep?
    rw [run_get, run_get, Lawful.atLineEnd near, (Lawful.literal near (by decide) (by decide)).1]
    split
    · exact .both (fun _ => rfl) rfl near
    rename_i going
    refine escape (by decide) (by decide) (escape (by decide) (by decide) (escape (by decide) (by decide) ?_))
    split
    · refine (interpolation_keeps near).bind (fun f f' d d' _ _ same behind => ?_)
        (fun _ _ impossible => absurd impossible Bool.false_ne_true) fun _ _ _ gone => gone
      exact .both (fun _ => rfl) (congrArg (fun f => some (TextStep.code f)) same) behind
    · obtain ⟨same, behind⟩ := Lawful.next near (eq_false_of_ne_true going)
      exact .both (fun _ => rfl) (congrArg (fun text => some (TextStep.chars text)) same) behind

theorem textRun_alike : T.Alike P never (fun C => List.map C.fragment) textRun textRun := by
  refine (many_alike textStep?_advances textStep?_alike).give (fun steps => ?_) fun steps steps' same => ?_
  · simp
  · rw [gather_change, gather_change, same]

end Outline

end ComponentCompiler.Template
