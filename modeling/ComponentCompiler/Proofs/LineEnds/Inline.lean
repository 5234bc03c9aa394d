import ComponentCompiler.Proofs.Twins.Inline

/-!
# Parts of a line with other line ends

The two forms of a text are twins, but for a string that runs on behind a line end.
-/

namespace ComponentCompiler.Template

open Text

/-- The code with line feeds alone, wherever it stands. -/
def Code.spelled (code : Code) : Code := ⟨String.ofList (lineFeeds code.text.toList), code.isBare, ⟨0, 0⟩⟩

def Fragment.spelled : Fragment → Fragment
  | .static text => .static text
  | .dynamic code => .dynamic code.spelled
  | .reactive code => .reactive code.spelled

namespace Outline

def Value.spelled : Value → Value
  | .text content _ => .text (String.ofList (lineFeeds content.toList)) ⟨0, 0⟩
  | .code c => .code c.spelled

def unplaced (modifier : String × Span) : String × Span := (modifier.1, ⟨0, 0⟩)

def Attribute.spelled (a : Attribute) : Attribute :=
  ⟨a.sigil, a.name, a.modifiers.map unplaced, a.value.map Value.spelled, ⟨0, 0⟩⟩

def Shorthand.spelled : Shorthand → Shorthand
  | .id name _ => .id name ⟨0, 0⟩
  | .className fragment _ => .className fragment.spelled ⟨0, 0⟩

def Header.spelled (h : Header) : Header :=
  ⟨h.name, h.shorthands.map Shorthand.spelled, h.attributes.map Attribute.spelled⟩

def Directive.spelled (d : Directive) : Directive := ⟨d.name, ⟨0, 0⟩, d.argument.map Code.spelled⟩

mutual

def Item.spelled : Item → Item
  | .tag header children _ => .tag header.spelled (spelledItems children) ⟨0, 0⟩
  | .component header children _ => .component header.spelled (spelledItems children) ⟨0, 0⟩
  | .text items _ => .text (items.map Fragment.spelled) ⟨0, 0⟩
  | .directive d children _ => .directive d.spelled (spelledItems children) ⟨0, 0⟩

def spelledItems : List Item → List Item
  | [] => []
  | i :: items => i.spelled :: spelledItems items

end

def Change.spelled : Change where
  span _ := ⟨0, 0⟩
  code := Code.spelled
  fragment := Fragment.spelled
  shorthand := Shorthand.spelled
  value := Value.spelled
  attr := Attribute.spelled
  item := Item.spelled
  items := spelledItems

end Outline

/-- The second text has a carriage return before each line feed. -/
def Twin.wider : Twin where
  near := Cursor.Wider
  place _ _ := True
  placed := anywhere
  here := Outline.Change.spelled
  there := Outline.Change.spelled
  breaks := True
  fault _ _ := True
  faulty _ _ _ := trivial
  crossed _ _ := false
  widen impossible _ _ := impossible
  loose := False

namespace Outline

open Template.Balanced

/-! ### Code -/

theorem spelled_ofList {w} (plain : '\r' ∉ w) (s s' : Span) :
    (Code.ofList (crlf w) s').spelled = (Code.ofList w s).spelled := by
  have trimmed : '\r' ∉ trim w := fun mem => plain (mem_of_mem_trim mem)
  simp only [Code.spelled, Code.ofList, trim_crlf, isIdentifierList_crlf, String.toList_ofList, lineFeeds_crlf trimmed,
    lineFeeds_plain trimmed]

theorem delimited_wider {close x c c'} (closing : isClosing close = true) (what : Construct)
    (wider : c.Wider c') (first : c.peek? = some x) (other : x ≠ '\n') :
    Twin.wider.Keeps Code.isBroken Change.code (delimited close what) (delimited close what) c c' := by
  have inner := wider.next first other
  have found : FoundBoth close c.next (find ⟨[close], what, ⟨c.pos, c.next.pos⟩⟩ c.next)
      (find ⟨[close], what, ⟨c'.pos, c'.next.pos⟩⟩ c'.next) := find_both closing rfl rfl inner
  unfold Twin.Keeps delimited
  rw [run_get, run_get]
  dsimp only
  generalize find ⟨[close], what, ⟨c.pos, c.next.pos⟩⟩ c.next = ended at found
  generalize find ⟨[close], what, ⟨c'.pos, c'.next.pos⟩⟩ c'.next = ended' at found
  have broken {w : List Char} (passed : pass [] w = some []) (s : Span) : (Code.ofList w s).isBroken = breaks [] w := by
    simp only [Code.isBroken, Code.ofList, String.toList_ofList, breaks_trim passed]
  cases found with
  | neither => exact .neither trivial
  | @spoilt w tail p e split passed here =>
    have captured : c.next.upTo ⟨close :: tail, p⟩ = w := by simp [Cursor.upTo, split]
    refine .spoilt trivial ?_
    rw [captured, broken passed, here]
  | @both w tail p p' split passed unbroken =>
    have apart : close ≠ '\n' := by
      rintro rfl
      cases closing
    have split' : c'.next.rest = crlf w ++ close :: crlf tail := by
      rw [inner.rest, split, crlf_append, crlf_cons apart]
    have captured : c.next.upTo ⟨close :: tail, p⟩ = w := by simp [Cursor.upTo, split]
    have captured' : c'.next.upTo ⟨close :: crlf tail, p'⟩ = crlf w := by simp [Cursor.upTo, split']
    have plain : '\r' ∉ w := fun mem => inner.plain (split ▸ List.mem_append_left _ mem)
    have cut : c.next.rest = (w ++ [close]) ++ tail := by simpa using split
    have behind : (Cursor.skip ⟨close :: tail, p⟩ 1).Wider (Cursor.skip ⟨close :: crlf tail, p'⟩ 1) :=
      inner.suffix cut rfl
    refine .both (fun _ => ?_) ?_ behind
    · rw [captured, broken passed, unbroken]
    · rw [captured, captured']
      exact spelled_ofList plain _ _

/-! ### Strings -/

inductive StringBoth : Option (List Char × Cursor) → Option (List Char × Cursor) → Prop where
  | both {text rest : List Char} {p p' : Nat} (unbroken : '\n' ∉ text) :
      StringBoth (some (text, ⟨rest, p⟩)) (some (text, ⟨crlf rest, p'⟩))
  | spoilt {text : List Char} {stop : Cursor} (broken : '\n' ∈ text) : StringBoth (some (text, stop)) none
  | neither : StringBoth none none

theorem StringBoth.behind {x x'} (later : StringBoth x x') (front : List Char) (unbroken : '\n' ∉ front) :
    StringBoth (x.map fun r => (front ++ r.1, r.2)) (x'.map fun r => (front ++ r.1, r.2)) := by
  cases later with
  | both rest => exact .both (by simp [unbroken, rest])
  | spoilt broken => exact .spoilt (List.mem_append_right _ broken)
  | neither => exact .neither

theorem StringBoth.broken (x : Option (List Char × Cursor)) (front : List Char) (broken : '\n' ∈ front) :
    StringBoth (x.map fun r => (front ++ r.1, r.2)) none := by
  cases x with
  | none => exact .neither
  | some result => exact .spoilt (List.mem_append_left _ broken)

theorem stringBody?_feed (pos : Nat) (rest : List Char) : stringBody? pos ('\n' :: rest) = none := by
  rw [stringBody?.eq_def]
  rfl

/-- A line feed ends a string with a fault, unless a backslash stands right before it. -/
theorem stringBody?_both {pos pos' text} : StringBoth (stringBody? pos text) (stringBody? pos' (crlf text)) := by
  match text with
  | [] =>
    rw [crlf_nil, stringBody?.eq_def, stringBody?.eq_def]
    exact .neither
  | x :: rest =>
    by_cases feed : x = '\n'
    · subst feed
      have returned : stringBody? pos' ('\r' :: '\n' :: crlf rest) = none := by
        rw [stringBody?.eq_def]
        simp [stringBody?_feed]
      rw [crlf_feed, stringBody?_feed, returned]
      exact .neither
    rw [crlf_cons feed]
    unfold stringBody?
    rw [if_neg feed, if_neg feed]
    split
    · exact .both List.not_mem_nil
    split
    · rename_i back
      subst back
      cases rest with
      | nil => exact .neither
      | cons y rest =>
        by_cases feed : y = '\n'
        · -- The backslash takes the carriage return, and the line feed breaks the string.
          subst feed
          rw [crlf_feed]
          dsimp only
          rw [stringBody?_feed]
          exact .broken _ ['\\', '\n'] (by decide)
        · rw [crlf_cons feed]
          dsimp only
          have later : StringBoth (stringBody? (pos + 1 + y.utf8Size) rest)
              (stringBody? (pos' + 1 + y.utf8Size) (crlf rest)) := stringBody?_both
          split
          · exact later.behind [y] (by simpa using Ne.symm feed)
          · exact later.behind ['\\', y] (by simpa using Ne.symm feed)
    · have later : StringBoth (stringBody? (pos + x.utf8Size) rest) (stringBody? (pos' + x.utf8Size) (crlf rest)) :=
        stringBody?_both
      exact later.behind [x] (by simpa using Ne.symm feed)
termination_by text.length

theorem stringLiteral_wider {c c' x} (wider : c.Wider c') (first : c.peek? = some x) (other : x ≠ '\n') :
    Twin.wider.Keeps Value.isBroken Change.value stringLiteral stringLiteral c c' := by
  have inner := wider.next first other
  have read : StringBoth (stringBody? c.next.pos c.next.rest) (stringBody? c'.next.pos c'.next.rest) := by
    rw [inner.rest]
    exact stringBody?_both
  have leads {text : List Char} {stop : Cursor} (found : stringBody? c.next.pos c.next.rest = some (text, stop)) :
      c.next.Leads stop := (stringBody?_leads found).1
  unfold Twin.Keeps stringLiteral
  rw [run_get, run_get]
  dsimp only
  generalize stringBody? c.next.pos c.next.rest = ended at read leads
  generalize stringBody? c'.next.pos c'.next.rest = ended' at read
  cases read with
  | neither => exact .neither trivial
  | spoilt broken =>
    refine .spoilt trivial ?_
    simpa [Value.isBroken] using broken
  | both unbroken =>
    refine .both (fun _ => ?_) rfl (inner.behind (leads rfl) rfl)
    simpa [Value.isBroken] using unbroken

/-! ### Text -/

/-- The braces that end an interpolation are found behind `w`, on the same line. -/
structure ClosedBehind (opening : Span) (inner : Cursor) (w tail : List Char) : Prop where
  split : inner.rest = w ++ '}' :: '}' :: tail
  unbroken : '\n' ∉ w
  found : ∃ p, find ⟨['}', '}'], .interpolation, opening⟩ inner = .ok ⟨'}' :: '}' :: tail, p⟩

section

variable {opening opening' : Span} {inner inner' : Cursor} {w tail tail' : List Char} {reactive : Bool}

theorem ClosedBehind.retail (closed : ClosedBehind opening inner w tail)
    (split' : inner'.rest = w ++ '}' :: '}' :: tail') : ClosedBehind opening' inner' w tail' := by
  obtain ⟨split, unbroken, p, found⟩ := closed
  refine ⟨split', unbroken, ?_⟩
  unfold find at found ⊢
  rw [split] at found
  rw [split']
  exact scan_of_pass (b := []) rfl rfl rfl rfl (pass_of_scan rfl rfl .nil (.refl []) found rfl) inner'.pos

theorem ClosedBehind.of_crlf (wider : inner.Wider inner') (closed : ClosedBehind opening' inner' w tail') :
    ∃ tail, ClosedBehind opening inner w tail := by
  have split' := closed.split
  rw [wider.rest] at split'
  obtain ⟨u, behind, split, rfl, more⟩ := crlf_split (by decide) (by decide) split'
  have second : ['}'].isPrefixOf (crlf behind) = true := by rw [← more]; rfl
  rw [isPrefixOf_crlf (by decide) (by decide)] at second
  obtain ⟨tail, rfl⟩ := List.isPrefixOf_iff_prefix.1 second
  refine ⟨tail, closed.retail ?_⟩
  rw [split, crlf_of_unbroken fun feed => closed.unbroken (mem_crlf.2 feed)]
  rfl

theorem interpolationFrom_closed (closed : ClosedBehind opening inner w tail) (ink : allBlank w = false) : ∃ s p p',
    (interpolationFrom opening reactive).run inner =
      .ok (if reactive then .reactive (Code.ofList w ⟨s, p⟩) else .dynamic (Code.ofList w ⟨s, p⟩), ⟨tail, p'⟩) ∧
    inner.Leads ⟨tail, p'⟩ := by
  obtain ⟨split, unbroken, p, found⟩ := closed
  have captured : inner.upTo ⟨'}' :: '}' :: tail, p⟩ = w := by simp [Cursor.upTo, split]
  unfold interpolationFrom
  rw [run_get, found]
  dsimp only
  rw [pure_bind, captured, if_neg (by simpa using unbroken), if_neg (by simp [ink])]
  obtain ⟨before, whole, -, place⟩ := scan_suffix found
  have stop : inner.Leads ⟨'}' :: '}' :: tail, p⟩ := ⟨before, whole, place⟩
  exact ⟨_, _, _, rfl, stop.trans (Cursor.passes_skip ⟨'}' :: '}' :: tail, p⟩ 2).leads⟩

theorem interpolationFrom_fault (faulty : ∀ w tail, ClosedBehind opening inner w tail → allBlank w = true) :
    ∃ e, (interpolationFrom opening reactive).run inner = .error e := by
  unfold interpolationFrom
  rw [run_get]
  cases ended : find ⟨['}', '}'], .interpolation, opening⟩ inner with
  | error e => cases e <;> exact ⟨_, rfl⟩
  | ok stop =>
    obtain ⟨rest, p⟩ := stop
    obtain ⟨w, split, here, -⟩ := scan_suffix ended
    obtain ⟨tail, rfl⟩ := List.isPrefixOf_iff_prefix.1 here
    have captured : inner.upTo ⟨['}', '}'] ++ tail, p⟩ = w := by simp [Cursor.upTo, split]
    dsimp only
    rw [pure_bind, captured]
    split
    · exact ⟨_, rfl⟩
    · rename_i unbroken
      rw [if_pos (faulty w tail ⟨split, by simpa using unbroken, p, ended⟩)]
      exact ⟨_, rfl⟩

theorem interpolationFrom_wider (wider : inner.Wider inner') : Twin.wider.Keeps never Change.fragment
    (interpolationFrom opening reactive) (interpolationFrom opening' reactive) inner inner' := by
  by_cases good : ∃ w tail, ClosedBehind opening inner w tail ∧ allBlank w = false
  · obtain ⟨w, tail, closed, ink⟩ := good
    have same : crlf w = w := crlf_of_unbroken closed.unbroken
    have split' : inner'.rest = w ++ '}' :: '}' :: crlf tail := by
      rw [wider.rest, closed.split, crlf_append, same]
      rfl
    obtain ⟨s, p, q, ran, -⟩ := interpolationFrom_closed closed ink
    obtain ⟨s', p', q', ran', -⟩ := interpolationFrom_closed (closed.retail split') ink
    have plain : '\r' ∉ w := fun mem => wider.plain (closed.split ▸ List.mem_append_left _ mem)
    have code := spelled_ofList plain ⟨s, p⟩ ⟨s', p'⟩
    rw [same] at code
    have cut : inner.rest = (w ++ ['}', '}']) ++ tail := by simpa using closed.split
    rw [Twin.Keeps, ran, ran']
    refine .both (fun _ => rfl) ?_ (wider.suffix cut rfl)
    cases reactive with
    | true => exact congrArg Fragment.reactive code
    | false => exact congrArg Fragment.dynamic code
  · -- Braces found in one form are found in the other, so both readings fail.
    have faulty (w tail : List Char) (closed : ClosedBehind opening inner w tail) : allBlank w = true :=
      (Bool.eq_false_or_eq_true _).resolve_right fun ink => good ⟨w, tail, closed, ink⟩
    have faulty' (w tail' : List Char) (closed : ClosedBehind opening' inner' w tail') : allBlank w = true := by
      obtain ⟨tail, before⟩ := closed.of_crlf wider
      exact faulty w tail before
    obtain ⟨e, ran⟩ := interpolationFrom_fault faulty
    obtain ⟨e', ran'⟩ := interpolationFrom_fault faulty'
    rw [Twin.Keeps, ran, ran']
    exact .neither trivial

end

instance : Twin.wider.Lawful where
  place _ := trivial
  longer wider := wider.rest ▸ length_le_crlf _
  after _ := trivial
  span _ _ := rfl
  unexpected _ _ := trivial
  peek wider := by
    obtain ⟨none, none'⟩ | feed | ⟨x, -, first, first'⟩ := wider.peek_cases
    · exact .inl (none'.trans none.symm)
    · exact .inr feed
    · exact .inl (first'.trans first.symm)
  atLineEnd wider := wider.atLineEnd
  next wider going := by
    obtain ⟨x, other, first, first'⟩ := wider.peek_of_going going
    obtain ⟨rest, split⟩ := List.head?_eq_some_iff.1 first
    obtain ⟨rest', split'⟩ := List.head?_eq_some_iff.1 first'
    exact ⟨by rw [split, split']; rfl, wider.next first other⟩
  literal wider returns feeds := ⟨by rw [wider.rest, isPrefixOf_crlf returns feeds], wider.skip feeds⟩
  takeWhile wider returns feeds :=
    ⟨by rw [wider.rest, takeWhile_crlf returns feeds], wider.dropWhile (returns.trans feeds.symm)⟩
  attributes wider _ := by
    have gaps := wider.dropWhile (p := isGap) (by decide)
    rw [Twin.Keeps, run_attributeStart, run_attributeStart, gaps.peek_isSome]
    split
    · exact .both (fun _ => rfl) rfl gaps
    · exact .neither trivial
  code _ _ := rfl
  delimited wider closing := delimited_wider closing _ wider
  string wider first := stringLiteral_wider wider first (by decide)
  interpolation wider _ := interpolationFrom_wider wider

end Outline

end ComponentCompiler.Template
