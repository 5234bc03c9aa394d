import ComponentCompiler.Proofs.Twins.Lines

/-!
# Reading a template elsewhere

Main statement: `parse_shift`.
-/

namespace ComponentCompiler

open Text

def Span.erased (_ : Span) : Span := ⟨0, 0⟩

def Text.Cursor.shift (k : Nat) (c : Cursor) : Cursor := ⟨c.rest, c.pos + k⟩

namespace Template

section

variable (f : Span → Span)

def ParseError.respan : ParseError → ParseError
  | .unexpected found expected s => .unexpected found expected (f s)
  | .unterminated what s => .unterminated what (f s)
  | .mismatchedBracket expected found s => .mismatchedBracket expected found (f s)
  | .inconsistentDedent s => .inconsistentDedent (f s)
  | .unexpectedIndent s => .unexpectedIndent (f s)
  | .unterminatedInterpolation s => .unterminatedInterpolation (f s)

def Code.respan (c : Code) : Code := { c with span := f c.span }

def Fragment.respan : Fragment → Fragment
  | .static text => .static text
  | .dynamic code => .dynamic (code.respan f)
  | .reactive code => .reactive (code.respan f)

namespace Outline

def Value.respan : Value → Value
  | .text content s => .text content (f s)
  | .code c => .code (c.respan f)

def Attribute.respan (a : Attribute) : Attribute :=
  { a with modifiers := a.modifiers.map fun m => (m.1, f m.2), value := a.value.map (Value.respan f), span := f a.span }

def Shorthand.respan : Shorthand → Shorthand
  | .id name s => .id name (f s)
  | .className fragment s => .className (fragment.respan f) (f s)

def Header.respan (h : Header) : Header :=
  ⟨h.name, h.shorthands.map (Shorthand.respan f), h.attributes.map (Attribute.respan f)⟩

def Directive.respan (d : Directive) : Directive :=
  ⟨d.name, f d.nameSpan, d.argument.map (Code.respan f)⟩

mutual

def Item.respan : Item → Item
  | .tag header children s => .tag (header.respan f) (respanItems children) (f s)
  | .component header children s => .component (header.respan f) (respanItems children) (f s)
  | .text items s => .text (items.map (Fragment.respan f)) (f s)
  | .directive d children s => .directive (d.respan f) (respanItems children) (f s)

def respanItems : List Item → List Item
  | [] => []
  | i :: items => i.respan :: respanItems items

end

variable (g : Span → Span)

theorem Shorthand.respan_respan (s : Shorthand) : (s.respan g).respan f = s.respan (f ∘ g) := by
  match s with
  | .id _ _ | .className (.static _) _ | .className (.dynamic _) _ | .className (.reactive _) _ => rfl

theorem Attribute.respan_respan (a : Attribute) : (a.respan g).respan f = a.respan (f ∘ g) := by
  obtain ⟨sigil, name, modifiers, value, span⟩ := a
  have values : (Value.respan f ∘ Value.respan g) = Value.respan (f ∘ g) := by
    funext v
    cases v <;> rfl
  simp only [Attribute.respan, List.map_map, Option.map_map, values]
  rfl

theorem Header.respan_respan (h : Header) : (h.respan g).respan f = h.respan (f ∘ g) := by
  simp only [Header.respan, List.map_map, Function.comp_def, Shorthand.respan_respan, Attribute.respan_respan]

theorem Directive.respan_respan (d : Directive) : (d.respan g).respan f = d.respan (f ∘ g) := by
  simp only [Directive.respan, Option.map_map]
  rfl

mutual

theorem Item.respan_respan (i : Item) : (i.respan g).respan f = i.respan (f ∘ g) := by
  match i with
  | .tag header children s | .component header children s =>
    rw [Item.respan, Item.respan, Item.respan, Header.respan_respan, respanItems_respanItems children]
    rfl
  | .text items s =>
    have fragments : (Fragment.respan f ∘ Fragment.respan g) = Fragment.respan (f ∘ g) := by
      funext i
      cases i <;> rfl
    rw [Item.respan, Item.respan, Item.respan, List.map_map, fragments]
    rfl
  | .directive d children s =>
    rw [Item.respan, Item.respan, Item.respan, Directive.respan_respan, respanItems_respanItems children]
    rfl

theorem respanItems_respanItems (items : List Item) :
    respanItems f (respanItems g items) = respanItems (f ∘ g) items := by
  match items with
  | [] => rfl
  | i :: items => rw [respanItems, respanItems, respanItems, i.respan_respan, respanItems_respanItems items]

end

end Outline

end

/-! ### Twins -/

/-- An outcome with its result changed by `φ` and the place of a fault by `f`. -/
def relocated (f : Span → Span) (φ : α → β) : Except ParseError α → Except ParseError β
  | .ok a => .ok (φ a)
  | .error e => .error (e.respan f)

namespace Outline

def Change.respan (f : Span → Span) : Change where
  span := f
  code := Code.respan f
  fragment := Fragment.respan f
  shorthand := Shorthand.respan f
  value := Value.respan f
  attr := Attribute.respan f
  item := Item.respan f
  items := respanItems f

def unchanged : Change where
  span := id
  code := id
  fragment := id
  shorthand := id
  value := id
  attr := id
  item := id
  items := id
  attributed := by simp
  tag := by simp
  component := by simp
  text := by simp
  directive := by simp

end Outline

open Outline

/-- The second text is the first one, `k` bytes further on. -/
def Twin.shifted (k : Nat) : Twin where
  near c c' := c' = c.shift k
  place p p' := p' = p + k
  placed p := ⟨p + k, rfl⟩
  here := .respan (·.shift k)
  there := unchanged
  breaks := False
  fault e e' := e' = e.respan (·.shift k)
  faulty := False.elim
  crossed _ _ := false
  widen impossible _ _ := impossible
  loose := False

theorem Twin.shifted_abreast {σ : Type} {k : Nat} {broken : α → Bool} {φ : Change → α → α} {R : σ → σ → Prop} {off}
    {S : σ → σ} {x x'} (states : ∀ s, R s (S s)) (plain : ∀ a, φ unchanged a = a)
    (same : x' = relocated (·.shift k) (Prod.map (φ (.respan (·.shift k))) S) x) :
    (Twin.shifted k).Abreast broken φ R off x x' := by
  subst same
  cases x with
  | ok a => exact .both False.elim (plain _) (states _)
  | error e => exact .neither rfl

/-! ### Places -/

section

variable (k : Nat)

@[simp] theorem shift_rest (c : Cursor) : (c.shift k).rest = c.rest := rfl

@[simp] theorem shift_pos (c : Cursor) : (c.shift k).pos = c.pos + k := rfl

@[simp] theorem shift_next (c : Cursor) : (c.shift k).next = c.next.shift k := by
  obtain ⟨rest, pos⟩ := c
  cases rest with
  | nil => rfl
  | cons x xs => simp [Cursor.next, Cursor.shift, Nat.add_right_comm]

@[simp] theorem shift_skip (c : Cursor) (n : Nat) : (c.shift k).skip n = (c.skip n).shift k := by
  simp [Cursor.skip, Cursor.shift, Nat.add_right_comm]

@[simp] theorem shift_dropWhile (c : Cursor) (p : Char → Bool) :
    (c.shift k).dropWhile p = (c.dropWhile p).shift k := by
  simp [Cursor.dropWhile, Cursor.shift, Nat.add_right_comm]

@[simp] theorem shift_upTo (c d : Cursor) : (c.shift k).upTo (d.shift k) = c.upTo d := rfl

@[simp] theorem shift_skipLine (c : Cursor) : (c.shift k).skipLine = c.skipLine.shift k := by
  simp [Cursor.skipLine]

@[simp] theorem shift_unexpectedAt (c : Cursor) (expected : Expectation) :
    ParseError.unexpectedAt (c.shift k) expected = (ParseError.unexpectedAt c expected).respan (·.shift k) := by
  simp [ParseError.unexpectedAt, ParseError.respan, Span.shift, Found.here, Cursor.peek?, Nat.add_right_comm]

end

/-! ### Balanced code -/

namespace Balanced

def Frame.shift (k : Nat) : Frame → Frame
  | .quoted quote start => .quoted quote (start + k)
  | .blockComment start => .blockComment (start + k)
  | frame => frame

def Goal.shift (k : Nat) (goal : Goal) : Goal := { goal with opening := goal.opening.shift k }

def Step.shift (k : Nat) : Step → Step
  | .stop => .stop
  | .one frames => .one (frames.map (Frame.shift k))
  | .two frames => .two (frames.map (Frame.shift k))
  | .fail error => .fail (error.respan (·.shift k))

section

variable (k : Nat) (goal : Goal) (frames : List Frame) (pos : Nat) (c : Char)

theorem closeStep_shift :
    closeStep (goal.shift k) (frames.map (Frame.shift k)) (pos + k) c = (closeStep goal frames pos c).shift k := by
  have place : (⟨pos + k, pos + k + 1⟩ : Span) = Span.shift ⟨pos, pos + 1⟩ k := by
    simp [Span.shift, Nat.add_right_comm]
  unfold closeStep
  rw [place]
  cases frames with
  | nil => rfl
  | cons frame outer =>
    cases frame with
    | bracket expected => by_cases same : expected = c <;> simp [same, Frame.shift, Step.shift, ParseError.respan]
    | _ => rfl

theorem codeStep_shift (next : Option Char) : codeStep (goal.shift k) (frames.map (Frame.shift k)) (pos + k) c next =
    (codeStep goal frames pos c next).shift k := by
  unfold codeStep
  rw [closeStep_shift]
  repeat' split
  all_goals rfl

theorem templateStep_shift (next : Option Char) :
    templateStep (frames.map (Frame.shift k)) c next = (templateStep frames c next).shift k := by
  unfold templateStep
  repeat' split
  all_goals rfl

theorem quotedStep_shift (quote : Char) (start : Nat) (next : Option Char) :
    quotedStep quote (start + k) (frames.map (Frame.shift k)) (pos + k) c next =
      (quotedStep quote start frames pos c next).shift k := by
  unfold quotedStep
  repeat' split
  all_goals rfl

theorem step_shift (rest : List Char) : step (goal.shift k) (frames.map (Frame.shift k)) (pos + k) c rest =
    (step goal frames pos c rest).shift k := by
  match frames with
  | [] =>
    have code := codeStep_shift k goal [] pos c rest.head?
    rw [List.map_nil] at code
    rw [List.map_nil, step, step, code]
    exact (apply_ite (Step.shift k) _ .stop _).symm
  | .bracket close :: outer => exact codeStep_shift k goal (.bracket close :: outer) pos c rest.head?
  | .template :: outer => exact templateStep_shift k outer c rest.head?
  | .quoted quote start :: outer => exact quotedStep_shift k outer pos c quote start rest.head?
  | .lineComment :: outer => exact (apply_ite (Step.shift k) _ (.one outer) (.one (.lineComment :: outer))).symm
  | .blockComment start :: outer =>
    exact (apply_ite (Step.shift k) _ (.two outer) (.one (.blockComment start :: outer))).symm

theorem atEnd_shift : atEnd (goal.shift k) (frames.map (Frame.shift k)) (pos + k) =
    (atEnd goal frames pos).respan (·.shift k) := by
  match frames with
  | [] | .bracket _ :: _ | .template :: _ | .quoted _ _ :: _ | .lineComment :: _ | .blockComment _ :: _ => rfl

theorem scan_shift (text : List Char) :
    scan (goal.shift k) (frames.map (Frame.shift k)) (pos + k) text =
      relocated (·.shift k) (Cursor.shift k) (scan goal frames pos text) := by
  -- A step may pass two characters, so the induction is on the length.
  induction h : text.length using Nat.strongRecOn generalizing frames pos text with
  | ind n ih =>
    cases text with
    | nil => exact congrArg Except.error (atEnd_shift k goal frames pos)
    | cons c rest =>
      have moved := step_shift k goal frames pos c rest
      cases decided : step goal frames pos c rest with
      | stop =>
        rw [decided] at moved
        rw [scan_stop decided, scan_stop moved]
        rfl
      | fail error =>
        rw [decided] at moved
        rw [scan_fail decided, scan_fail moved]
        rfl
      | one frames' =>
        rw [decided] at moved
        rw [scan_one decided, scan_one moved, Nat.add_right_comm]
        exact ih rest.length (by simp only [List.length_cons] at h; omega) frames' _ rest rfl
      | two frames' =>
        rw [decided] at moved
        cases rest with
        | nil =>
          unfold scan
          rw [decided, moved]
          dsimp only [Step.shift]
          rw [Nat.add_right_comm]
          exact congrArg Except.error (atEnd_shift k goal frames' _)
        | cons d rest =>
          have place : pos + k + c.utf8Size + d.utf8Size = pos + c.utf8Size + d.utf8Size + k := by omega
          rw [scan_two decided, scan_two moved, place]
          exact ih rest.length (by simp only [List.length_cons] at h; omega) frames' _ rest rfl

theorem find_shift (c : Cursor) :
    find (goal.shift k) (c.shift k) = relocated (·.shift k) (Cursor.shift k) (find goal c) :=
  scan_shift k goal [] c.pos c.rest

end

end Balanced

/-! ### Parts of a line -/

namespace Outline

section

variable {k : Nat}

theorem delimited_shift (close : Char) (what : Construct) (c : Cursor) : (delimited close what).run (c.shift k) =
    relocated (·.shift k) (Prod.map (Code.respan (·.shift k)) (Cursor.shift k)) ((delimited close what).run c) := by
  have found := Balanced.find_shift k ⟨[close], what, ⟨c.pos, c.next.pos⟩⟩ c.next
  unfold delimited
  rw [run_get, run_get, shift_next]
  dsimp only
  rw [show Balanced.find ⟨[close], what, ⟨(c.shift k).pos, (c.next.shift k).pos⟩⟩ (c.next.shift k) = _ from found]
  cases Balanced.find ⟨[close], what, ⟨c.pos, c.next.pos⟩⟩ c.next with
  | error e => rfl
  | ok stop => exact congrArg (fun d => Except.ok (_, d)) (shift_skip k stop 1)

theorem stringBody?_shift (pos : Nat) (text : List Char) :
    stringBody? (pos + k) text = (stringBody? pos text).map fun found => (found.1, found.2.shift k) := by
  -- An escape takes two characters, so the induction is on the length.
  induction h : text.length using Nat.strongRecOn generalizing pos text with
  | ind n ih =>
    cases text with
    | nil => rfl
    | cons c rest =>
      unfold stringBody?
      split
      · rfl
      · split
        · simp [Cursor.shift, Nat.add_right_comm]
        · split
          · cases rest with
            | nil => rfl
            | cons d rest =>
              have later := ih rest.length (by simp only [List.length_cons] at h; omega) (pos + 1 + d.utf8Size) rest rfl
              have place : pos + k + 1 + d.utf8Size = pos + 1 + d.utf8Size + k := by omega
              simp only [place, later, Option.map_map]
              rfl
          · have later := ih rest.length (by simp only [List.length_cons] at h; omega) (pos + c.utf8Size) rest rfl
            rw [Nat.add_right_comm, later, Option.map_map, Option.map_map]
            rfl

theorem stringLiteral_shift (c : Cursor) : stringLiteral.run (c.shift k) =
    relocated (·.shift k) (Prod.map (Value.respan (·.shift k)) (Cursor.shift k)) (stringLiteral.run c) := by
  unfold stringLiteral
  rw [run_get, run_get, shift_next]
  dsimp only
  rw [shift_rest, shift_pos, stringBody?_shift]
  cases stringBody? c.next.pos c.next.rest <;> rfl

theorem attributeStart_shift (opening : Span) (c : Cursor) : (attributeStart (opening.shift k)).run (c.shift k) =
    relocated (·.shift k) (Prod.map id (Cursor.shift k)) ((attributeStart opening).run c) := by
  rw [run_attributeStart, run_attributeStart, shift_dropWhile, apply_ite (relocated _ _)]
  rfl

theorem interpolationFrom_shift (opening : Span) (reactive : Bool) (c : Cursor) :
    (interpolationFrom (opening.shift k) reactive).run (c.shift k) =
      relocated (·.shift k) (Prod.map (Fragment.respan (·.shift k)) (Cursor.shift k))
        ((interpolationFrom opening reactive).run c) := by
  have found := Balanced.find_shift k ⟨['}', '}'], .interpolation, opening⟩ c
  unfold interpolationFrom
  rw [run_get, run_get, show Balanced.find ⟨['}', '}'], .interpolation, opening.shift k⟩ (c.shift k) = _ from found]
  cases Balanced.find ⟨['}', '}'], .interpolation, opening⟩ c with
  | error e => cases e <;> rfl
  | ok stop =>
    dsimp only [relocated]
    rw [pure_bind, pure_bind, shift_upTo, shift_skip, shift_unexpectedAt]
    split
    · rfl
    split
    · rfl
    · cases reactive <;> rfl

instance : (Twin.shifted k).Lawful where
  place := by rintro _ _ rfl; rfl
  longer := by rintro _ _ rfl; exact Nat.le_refl _
  after := by rintro _ _ rfl; exact Nat.add_right_comm ..
  span := by rintro _ _ _ _ rfl rfl; rfl
  unexpected := by rintro _ _ _ rfl; exact shift_unexpectedAt ..
  peek := by rintro _ _ rfl; exact .inl rfl
  atLineEnd := by rintro _ _ rfl; rfl
  next := by rintro _ _ rfl _; exact ⟨rfl, shift_next ..⟩
  literal := by rintro _ _ _ rfl _ _; exact ⟨rfl, fun _ => shift_skip ..⟩
  takeWhile := by rintro _ _ _ rfl _ _; exact ⟨rfl, shift_dropWhile ..⟩
  attributes := by
    rintro _ _ _ _ rfl ⟨⟩
    exact Twin.shifted_abreast (fun _ => rfl) (fun _ => rfl) (attributeStart_shift ..)
  code := by rintro _ _ _ ⟨⟩; rfl
  delimited := by
    rintro _ _ _ _ _ rfl _ _ _; exact Twin.shifted_abreast (fun _ => rfl) (fun _ => rfl) (delimited_shift ..)
  string := by rintro _ _ rfl _; exact Twin.shifted_abreast (fun _ => rfl) (fun _ => rfl) (stringLiteral_shift _)
  interpolation := by
    rintro _ _ _ _ _ rfl ⟨⟩
    exact Twin.shifted_abreast (fun _ => rfl) (fun _ => rfl) (interpolationFrom_shift ..)

end

end Outline

/-! ### Layout -/

namespace Layout

theorem nextLine?_shift (k : Nat) (inLine : Bool) (lead : List Char) (pos : Nat) (text : List Char) :
    nextLine? inLine lead (pos + k) text = (nextLine? inLine lead pos text).map fun found =>
      (found.1, found.2.shift k) := by
  induction text generalizing inLine lead pos with
  | nil => rfl
  | cons c rest ih =>
    have end_ : Cursor.atLineEnd ⟨c :: rest, pos + k⟩ = Cursor.atLineEnd ⟨c :: rest, pos⟩ := rfl
    simp only [nextLine?, Nat.add_right_comm pos k, ih, end_]
    repeat' split
    all_goals rfl

theorem nextLine?_lead {inLine lead lead' pos text c} (h : nextLine? inLine lead pos text = some (lead', c))
    (before : byteLength lead ≤ pos) : byteLength lead' ≤ c.pos := by
  induction text generalizing inLine lead pos with
  | nil => cases h
  | cons x rest ih =>
    unfold nextLine? at h
    split at h
    · exact ih h (Nat.zero_le _)
    · split at h
      · exact ih h (by simp; omega)
      · split at h
        · exact ih h (Nat.zero_le _)
        · cases h
          exact before

theorem firstLine?_shift (k : Nat) (c : Cursor) :
    firstLine? (c.shift k) = (firstLine? c).map fun found => (found.1, found.2.shift k) :=
  nextLine?_shift k false [] c.pos c.rest

instance {k : Nat} : (Twin.shifted k).Laid where
  line := by
    rintro c _ rfl
    rw [shift_skipLine, firstLine?_shift]
    cases firstLine? c.skipLine with
    | none => exact .none
    | some found => exact .some ⟨rfl, rfl⟩
  finish := by
    rintro _ _ rfl
    rw [shift_skipLine]
    exact shift_skip ..
  dedent {c d d' lead} found near := by
    obtain rfl : d' = d.shift k := near
    have behind : byteLength lead ≤ d.pos := nextLine?_lead found (Nat.zero_le _)
    have place : d.pos + k - byteLength lead = d.pos - byteLength lead + k := by omega
    exact congrArg (fun p => ParseError.inconsistentDedent ⟨p, d.pos + k⟩) place
  indent place := congrArg (fun p => ParseError.unexpectedIndent (Span.emptyAt p)) place

end Layout

theorem Outline.parse_shift (source : String) (base k : Nat) :
    parse source (base + k) = relocated (·.shift k) (respanItems (·.shift k)) (parse source base) := by
  have first : Option.Rel (fun a a' => a'.1 = a.1 ∧ (Twin.shifted k).near a.2 a'.2)
      (Layout.firstLine? (Cursor.start source base)) (Layout.firstLine? (Cursor.start source (base + k))) := by
    rw [show Layout.firstLine? (Cursor.start source (base + k)) = _ from Layout.firstLine?_shift k
      (Cursor.start source base)]
    cases Layout.firstLine? (Cursor.start source base) with
    | none => exact .none
    | some found => exact .some ⟨rfl, rfl⟩
  have both := Twin.parse_alike first (Nat.le_refl _)
  generalize parse source base = x at both
  generalize parse source (base + k) = x' at both
  cases x with
  | ok items =>
    cases x' with
    | ok items' =>
      cases both with
      | both _ same => exact congrArg Except.ok same
      | astray loose => exact loose.elim
    | error e' =>
      cases both with
      | spoilt breaks => exact breaks.elim
      | astray loose => exact loose.elim
  | error e =>
    cases x' with
    | ok items' =>
      cases both with
      | unread loose => exact loose.elim
    | error e' =>
      cases both with
      | neither fault => exact congrArg Except.error fault
      | unread loose => exact loose.elim

end Template

end ComponentCompiler
