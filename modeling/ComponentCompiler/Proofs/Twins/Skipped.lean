import ComponentCompiler.Proofs.LineEnds.Inline
import ComponentCompiler.Proofs.Outline.Faithful
import ComponentCompiler.Proofs.Respan.Outline

/-!
# Lines that count for nothing

Main statements: `startsRest_or_inline` and `parse_skipped_line`.
-/

namespace ComponentCompiler.Template

open Text Outline

/-! ### Texts up to a line feed -/

section

variable {literal u v t y y' : List Char} {p : Char → Bool}

theorem append_feed (same : v ++ t = u ++ '\n' :: y) :
    (∃ u', u = v ++ u' ∧ t = u' ++ '\n' :: y) ∨ ∃ w, v = u ++ '\n' :: w ∧ y = w ++ t := by
  obtain ⟨u', rfl, rfl⟩ | ⟨w, rfl, behind⟩ := List.append_eq_append_iff.1 same
  · exact .inl ⟨u', rfl, rfl⟩
  · cases w with
    | nil => exact .inl ⟨[], by simp, behind.symm⟩
    | cons x w =>
      obtain ⟨rfl, rfl⟩ := List.cons.inj behind
      exact .inr ⟨w, rfl, rfl⟩

theorem atLineEnd_before_feed (p q : Nat) :
    Cursor.atLineEnd ⟨u ++ '\n' :: y, p⟩ = Cursor.atLineEnd ⟨u ++ '\n' :: y', q⟩ := by
  match u with
  | [] => rfl
  | [x] | x :: z :: u =>
    unfold Cursor.atLineEnd
    grind

theorem isPrefixOf_feed (feeds : '\n' ∉ literal) : literal.isPrefixOf (u ++ '\n' :: y) = literal.isPrefixOf u := by
  rw [Bool.eq_iff_iff, List.isPrefixOf_iff_prefix, List.isPrefixOf_iff_prefix]
  refine ⟨fun ⟨t, same⟩ => ?_, fun before => before.trans (List.prefix_append _ _)⟩
  obtain ⟨u', rfl, -⟩ | ⟨w, rfl, -⟩ := append_feed same
  · exact List.prefix_append _ _
  · exact absurd (by simp) feeds

theorem dropWhile_feed (stops : p '\n' = false ∨ u.dropWhile p ≠ []) (y : List Char) :
    (u ++ '\n' :: y).takeWhile p = u.takeWhile p ∧ (u ++ '\n' :: y).dropWhile p = u.dropWhile p ++ '\n' :: y := by
  induction u with
  | nil => simp [stops.resolve_right fun other => other rfl]
  | cons x u ih => by_cases here : p x = true <;> simp_all

theorem dropWhile_over (crossed : p '\n' = true) (gone : u.dropWhile p = []) (y : List Char) :
    (u ++ '\n' :: y).takeWhile p = u ++ '\n' :: y.takeWhile p ∧ (u ++ '\n' :: y).dropWhile p = y.dropWhile p := by
  induction u with
  | nil => simp [crossed]
  | cons x u ih => by_cases here : p x = true <;> simp_all

end

/-! ### The two texts -/

/-- In the second text the `line` stands before the `rest`, which starts at `k` in the first one. -/
inductive Parted (line rest : List Char) (k : Nat) : Cursor → Cursor → Prop where
  | before {u p p'} (ends : p + byteLength u + 1 = k) :
      Parted line rest k ⟨u ++ '\n' :: rest, p⟩ ⟨u ++ '\n' :: (line ++ rest), p'⟩
  | behind {text p p'} (low : k ≤ p) : Parted line rest k ⟨text, p⟩ ⟨text, p'⟩

def Twin.parted (line rest : List Char) (k : Nat) : Twin where
  near := Parted line rest k
  place _ _ := True
  placed := anywhere
  here := .respan Span.erased
  there := .respan Span.erased
  breaks := False
  fault _ _ := True
  faulty := False.elim
  crossed p q := !rest.isEmpty && decide (p < k) && decide (k ≤ q)
  widen crossed before behind := by
    simp only [Bool.and_eq_true, decide_eq_true_eq] at crossed ⊢
    exact ⟨⟨crossed.1.1, Nat.lt_of_le_of_lt before crossed.1.2⟩, Nat.le_trans crossed.2 behind⟩
  loose := True

section

variable {line rest : List Char} {k : Nat} {c c' : Cursor}

theorem Parted.of_rest {d d' : Cursor} (same : d'.rest = d.rest) (low : k ≤ d.pos) : Parted line rest k d d' := by
  obtain ⟨text, p⟩ := d
  obtain ⟨text', p'⟩ := d'
  cases same
  exact .behind low

theorem Parted.at_end {d : Cursor} (near : Parted line rest k c c') (leads : c.Leads d) (gone : d.rest = []) :
    k ≤ d.pos := by
  cases near with
  | behind low => exact Nat.le_trans low leads.pos_le
  | before ends =>
    obtain ⟨text, passes⟩ := leads
    have whole := passes.rest
    rw [gone, List.append_nil] at whole
    rw [passes.pos, ← whole, byteLength_append, byteLength_cons, show '\n'.utf8Size = 1 by decide]
    dsimp only
    omega

/-- What is read in `c` is told by the text that is passed over, which does not end in a line feed. -/
def Told (φ : Change → α → α) (m m' : Read α) (c : Cursor) : Prop :=
  ∀ a d, m.run c = .ok (a, d) → c.Leads d ∧ ∃ v x, x ≠ '\n' ∧ c.rest = v ++ x :: d.rest ∧
    ∀ c' y, c'.rest = v ++ x :: y →
    ∃ a' p, m'.run c' = .ok (a', ⟨y, p⟩) ∧ φ (.respan Span.erased) a' = φ (.respan Span.erased) a

theorem Told.keeps {broken : α → Bool} {φ : Change → α → α} {m m' : Read α} (told : Told φ m m' c)
    (near : Parted line rest k c c') :
    (Twin.parted line rest k).Keeps broken φ m m' c c' := by
  unfold Twin.Keeps
  cases ran : m.run c with
  | error e => exact .unread trivial
  | ok result =>
    obtain ⟨a, d, q⟩ := result
    obtain ⟨⟨text, passes⟩, v, x, other, split, again⟩ := told a ⟨d, q⟩ ran
    obtain rfl : text = v ++ [x] := List.append_cancel_right (passes.rest.symm.trans (by simpa using split))
    have there := passes.pos
    simp only [byteLength_append] at there
    cases near with
    | @behind text p p' low =>
      obtain ⟨a', q', ran', same⟩ := again ⟨_, p'⟩ d split
      rw [ran']
      exact .both False.elim same (.behind (Nat.le_trans low passes.leads.pos_le))
    | @before u p p' ends =>
      obtain ⟨u', rfl, rfl⟩ | ⟨w, crossed, rfl⟩ := append_feed (passes.rest.symm)
      · obtain ⟨a', q', ran', same⟩ :=
          again ⟨(v ++ [x] ++ u') ++ '\n' :: (line ++ rest), p'⟩ (u' ++ '\n' :: (line ++ rest)) (by simp)
        rw [ran']
        refine .both False.elim same (.before ?_)
        simp only [byteLength_append] at ends
        dsimp only at there
        omega
      · refine .astray trivial ?_
        have long := congrArg byteLength crossed
        simp only [byteLength_append, byteLength_cons, byteLength_nil, show '\n'.utf8Size = 1 by decide] at long there
        have some : w ≠ [] := by
          rintro rfl
          exact other (List.cons.inj (List.append_inj' crossed rfl).2).1
        simp only [Twin.parted, Bool.and_eq_true, decide_eq_true_eq, Bool.not_eq_true', List.isEmpty_eq_false_iff]
        exact ⟨⟨by simp [some], by omega⟩, by omega⟩

theorem delimited_told {close x what} (closing : Balanced.isClosing close = true) (first : c.peek? = some x) :
    Told Change.code (delimited close what) (delimited close what) c := by
  intro a d ran
  refine ⟨((Ends.faultless (delimited_tracks closing c (.refl c))).of_ok ran).leads, ?_⟩
  obtain ⟨text, p⟩ := c
  obtain ⟨text, rfl⟩ := List.head?_eq_some_iff.1 first
  unfold delimited at ran
  rw [run_get] at ran
  dsimp only at ran
  cases found : Balanced.find ⟨[close], what, ⟨p, Cursor.pos (Cursor.next ⟨x :: text, p⟩)⟩⟩
      (Cursor.next ⟨x :: text, p⟩) with
  | error e =>
    rw [found] at ran
    cases ran
  | ok stop =>
    rw [found] at ran
    cases ran
    obtain ⟨r, q⟩ := stop
    obtain ⟨w, tail, rfl, split, passed⟩ := (Balanced.find_iff closing rfl).1 ⟨q, found⟩
    have other : close ≠ '\n' := by
      rintro rfl
      cases closing
    have text : text = w ++ close :: tail := split
    subst text
    refine ⟨x :: w, close, other, rfl, fun c' y same => ?_⟩
    obtain ⟨_, p'⟩ := c'
    obtain rfl := same
    obtain ⟨q', found'⟩ : ∃ q', Balanced.find ⟨[close], what, ⟨p', Cursor.pos (Cursor.next ⟨x :: w ++ close :: y, p'⟩)⟩⟩
        (Cursor.next ⟨x :: w ++ close :: y, p'⟩) = .ok ⟨close :: y, q'⟩ :=
      (Balanced.find_iff closing rfl).2 ⟨w, y, rfl, rfl, passed⟩
    unfold delimited
    rw [run_get]
    dsimp only
    rw [found']
    refine ⟨_, _, rfl, ?_⟩
    simp [Cursor.upTo, Cursor.next, Change.respan, Code.respan, Code.ofList, Span.erased]

theorem stringBody?_again {pos text body stop} (found : stringBody? pos text = some (body, stop)) :
    ∃ v, text = v ++ '"' :: stop.rest ∧ ∀ pos' y, ∃ p, stringBody? pos' (v ++ '"' :: y) = some (body, ⟨y, p⟩) := by
  fun_induction stringBody? pos text generalizing body stop with
  | case1 | case2 | case4 => cases found
  | case3 pos rest =>
    cases found
    exact ⟨[], rfl, fun pos' y => ⟨_, stringBody?.eq_def ..⟩⟩
  | case5 pos x rest _ _ ih =>
    obtain ⟨⟨later, stop⟩, read, same⟩ := Option.map_eq_some_iff.1 found
    obtain ⟨v, rfl, again⟩ := ih read
    refine ⟨'\\' :: x :: v, ?_, fun pos' y => ?_⟩
    · cases same
      rfl
    · obtain ⟨p, read'⟩ := again (pos' + 1 + x.utf8Size) y
      cases same
      exact ⟨p, by simp [stringBody?, read']⟩
  | case6 pos x rest feed quote back ih =>
    obtain ⟨⟨later, stop⟩, read, same⟩ := Option.map_eq_some_iff.1 found
    obtain ⟨v, rfl, again⟩ := ih read
    cases same
    refine ⟨x :: v, rfl, fun pos' y => ?_⟩
    obtain ⟨p, read'⟩ := again (pos' + x.utf8Size) y
    refine ⟨p, ?_⟩
    rw [List.cons_append, stringBody?.eq_def]
    simp [read', feed, quote, back]

theorem stringLiteral_told {x} (first : c.peek? = some x) : Told Change.value stringLiteral stringLiteral c := by
  intro a d ran
  refine ⟨((Ends.faultless (stringLiteral_tracks c (.refl c))).of_ok ran).leads, ?_⟩
  obtain ⟨text, p⟩ := c
  obtain ⟨text, rfl⟩ := List.head?_eq_some_iff.1 first
  unfold stringLiteral at ran
  rw [run_get] at ran
  dsimp only [Cursor.next] at ran
  cases found : stringBody? (p + x.utf8Size) text with
  | none =>
    rw [found] at ran
    cases ran
  | some result =>
    rw [found] at ran
    cases ran
    obtain ⟨v, rfl, again⟩ := stringBody?_again found
    refine ⟨x :: v, '"', by decide, rfl, fun c' y same => ?_⟩
    obtain ⟨_, p'⟩ := c'
    obtain rfl := same
    obtain ⟨q, found'⟩ := again (p' + x.utf8Size) y
    unfold stringLiteral
    rw [run_get]
    dsimp only [Cursor.next, List.cons_append]
    rw [found']
    exact ⟨_, _, rfl, rfl⟩

theorem interpolationFrom_told {opening opening' reactive} :
    Told Change.fragment (interpolationFrom opening reactive) (interpolationFrom opening' reactive) c := by
  intro a d ran
  by_cases good : ∃ w tail, ClosedBehind opening c w tail ∧ allBlank w = false
  · obtain ⟨w, tail, closed, ink⟩ := good
    obtain ⟨s, p, q, ran', leads⟩ := interpolationFrom_closed closed ink
    obtain ⟨rfl, rfl⟩ := Prod.mk.inj (Except.ok.inj (ran.symm.trans ran'))
    refine ⟨leads, w ++ ['}'], '}', by decide, by simp [closed.split], fun c' y same => ?_⟩
    have closed' : ClosedBehind opening' c' w y := closed.retail (by simpa using same)
    obtain ⟨s', p', q', ran', -⟩ := interpolationFrom_closed closed' ink
    refine ⟨_, _, ran', ?_⟩
    cases reactive <;> rfl
  · have faulty (w tail : List Char) (closed : ClosedBehind opening c w tail) : allBlank w = true :=
      (Bool.eq_false_or_eq_true _).resolve_right fun ink => good ⟨w, tail, closed, ink⟩
    obtain ⟨e, ran'⟩ := interpolationFrom_fault faulty
    rw [ran'] at ran
    cases ran

instance : (Twin.parted line rest k).Lawful where
  place _ := trivial
  longer near := by cases near <;> simp
  after _ := trivial
  span _ _ := rfl
  unexpected _ _ := trivial
  peek near := by
    cases near with
    | @before u => cases u <;> exact .inl rfl
    | behind => exact .inl rfl
  atLineEnd near := by
    cases near with
    | before => exact atLineEnd_before_feed ..
    | behind => rfl
  next near going := by
    cases near with
    | @before u p p' ends =>
      cases u with
      | nil => cases going
      | cons x u =>
        rw [byteLength_cons] at ends
        exact ⟨rfl, .before (show p + x.utf8Size + byteLength u + 1 = k by omega)⟩
    | @behind text p p' low =>
      cases text with
      | nil => exact ⟨rfl, .behind low⟩
      | cons x text => exact ⟨rfl, .behind (Nat.le_add_right_of_le low)⟩
  literal {c c' literal} near returns feeds := by
    cases near with
    | @before u p p' ends =>
      dsimp only
      rw [isPrefixOf_feed feeds, isPrefixOf_feed feeds]
      refine ⟨rfl, fun here => ?_⟩
      obtain ⟨u, rfl⟩ := List.isPrefixOf_iff_prefix.1 here
      have skipped (y q) :
          Cursor.skip ⟨literal ++ u ++ '\n' :: y, q⟩ literal.length = ⟨u ++ '\n' :: y, q + byteLength literal⟩ := by
        simp [Cursor.skip]
      rw [skipped, skipped]
      refine .before ?_
      rw [byteLength_append] at ends
      omega
    | behind low => exact ⟨rfl, fun _ => .behind (Nat.le_add_right_of_le low)⟩
  takeWhile {c c' p} near _ feeds := by
    cases near with
    | @before u q q' ends =>
      have gone := dropWhile_feed (u := u) (.inl feeds)
      unfold Cursor.dropWhile
      dsimp only
      rw [(gone _).1, (gone _).1, (gone _).2, (gone _).2]
      refine ⟨rfl, .before ?_⟩
      rw [← List.takeWhile_append_dropWhile (p := p) (l := u), byteLength_append] at ends
      omega
    | behind low => exact ⟨rfl, .behind (Nat.le_add_right_of_le low)⟩
  attributes near _ := by
    rw [Twin.Keeps, run_attributeStart, run_attributeStart]
    unfold Cursor.dropWhile Cursor.peek?
    cases near with
    | @before u q q' ends =>
      dsimp only
      by_cases blank : u.dropWhile isGap = []
      · -- The gap leads over into the rest, so there is one.
        obtain ⟨taken, left⟩ := dropWhile_over (p := isGap) (by decide) blank rest
        rw [taken, left]
        split
        · rename_i more
          have some : rest ≠ [] := by
            rintro rfl
            cases more
          refine .astray trivial ?_
          simp only [Twin.parted, byteLength_append, byteLength_cons, show '\n'.utf8Size = 1 by decide,
            Bool.and_eq_true, decide_eq_true_eq]
          exact ⟨⟨by simp [some], by omega⟩, by omega⟩
        · exact .unread trivial
      · have gone := dropWhile_feed (u := u) (.inr blank)
        obtain ⟨x, t, shown⟩ := List.exists_cons_of_ne_nil blank
        have split := List.takeWhile_append_dropWhile (p := isGap) (l := u)
        rw [(gone _).1, (gone _).1, (gone _).2, (gone _).2, shown]
        refine .both False.elim rfl (.before ?_)
        rw [← split, byteLength_append, shown] at ends
        omega
    | @behind text q q' low =>
      dsimp only
      split
      · exact .both False.elim rfl (.behind (Nat.le_add_right_of_le low))
      · exact .unread trivial
  code _ _ := rfl
  delimited near closing first _ := (delimited_told closing first).keeps near
  string near first := (stringLiteral_told first).keeps near
  interpolation near _ := interpolationFrom_told.keeps near

end

/-! ### Layout -/

namespace Layout

theorem nextLine?_feed (inLine : Bool) (lead : List Char) (p : Nat) (text : List Char) :
    nextLine? inLine lead p ('\n' :: text) = nextLine? false [] (p + 1) text := by
  cases inLine <;> rfl

theorem firstLine?_skipLine (p : Nat) (text : List Char) :
    firstLine? (Cursor.skipLine ⟨text, p⟩) = nextLine? true [] p text := by
  induction text generalizing p with
  | nil => rfl
  | cons x text ih =>
    by_cases feed : x = '\n'
    · subst feed
      exact (nextLine?_feed true [] p text).symm
    · have skipped : Cursor.skipLine ⟨x :: text, p⟩ = Cursor.skipLine ⟨text, p + x.utf8Size⟩ := by
        simp [Cursor.skipLine, Cursor.dropWhile, feed, Nat.add_assoc]
      rw [skipped, ih, nextLine?, if_pos rfl, decide_eq_true feed]

/-- Spaces and tabs, then a comment or nothing, and a line feed. -/
def IsSkipped (line : List Char) : Prop :=
  ∃ blanks comment, line = blanks ++ comment ++ ['\n'] ∧ (∀ x ∈ blanks, isInlineBlank x = true) ∧ '\n' ∉ comment ∧
    (comment = [] ∨ ['/', '/'] <+: comment)

theorem nextLine?_comment {comment} (unbroken : '\n' ∉ comment) (p : Nat) (rest : List Char) :
    ∃ q, nextLine? true [] p (comment ++ '\n' :: rest) = nextLine? false [] q rest := by
  induction comment generalizing p with
  | nil => exact ⟨_, nextLine?_feed true [] p rest⟩
  | cons x comment ih =>
    obtain ⟨other, others⟩ := not_or.1 (mt List.mem_cons.2 unbroken)
    obtain ⟨q, skipped⟩ := ih others (p + x.utf8Size)
    exact ⟨q, by rw [List.cons_append, nextLine?, if_pos rfl, decide_eq_true (Ne.symm other), skipped]⟩

theorem IsSkipped.passed {line lead} (skipped : IsSkipped line) (p : Nat) (rest : List Char) :
    ∃ q, nextLine? false lead p (line ++ rest) = nextLine? false [] q rest := by
  obtain ⟨blanks, comment, rfl, blank, unbroken, kind⟩ := skipped
  rw [List.append_assoc _ ['\n'] rest]
  induction blanks generalizing lead p with
  | nil =>
    obtain rfl | ⟨text, rfl⟩ := kind
    · exact ⟨_, nextLine?_feed false lead p rest⟩
    · have rest : '\n' ∉ '/' :: text := by simpa using unbroken
      exact nextLine?_comment rest (p + 1) _
  | cons x blanks ih =>
    obtain ⟨here, others⟩ := List.forall_mem_cons.1 blank
    obtain ⟨q, skipped⟩ := ih (p + x.utf8Size) others
    refine ⟨q, ?_⟩
    rw [List.cons_append, List.cons_append, nextLine?, if_neg Bool.false_ne_true, if_pos here, skipped]

variable {line rest : List Char} {k p p' : Nat} {inLine : Bool} {lead : List Char}

theorem nextLine?_behind {text} (low : k ≤ p) : Option.Rel (fun a a' => a'.1 = a.1 ∧ Parted line rest k a.2 a'.2)
    (nextLine? inLine lead p text) (nextLine? inLine lead p' text) := by
  induction text generalizing inLine lead p p' with
  | nil => exact .none
  | cons x text ih =>
    have later : k ≤ p + x.utf8Size := Nat.le_add_right_of_le low
    unfold nextLine?
    rw [show Cursor.atLineEnd ⟨x :: text, p'⟩ = Cursor.atLineEnd ⟨x :: text, p⟩ from rfl]
    split
    · exact ih later
    split
    · exact ih later
    split
    · exact ih later
    · exact .some ⟨rfl, .behind low⟩

variable (skipped : IsSkipped line)

include skipped

theorem nextLine?_parted {u} (ends : p + byteLength u + 1 = k) :
    Option.Rel (fun a a' => a'.1 = a.1 ∧ Parted line rest k a.2 a'.2) (nextLine? inLine lead p (u ++ '\n' :: rest))
      (nextLine? inLine lead p' (u ++ '\n' :: (line ++ rest))) := by
  induction u generalizing inLine lead p p' with
  | nil =>
    obtain ⟨q, passed⟩ := skipped.passed (p' + 1) rest
    rw [List.nil_append, List.nil_append, nextLine?_feed, nextLine?_feed, passed]
    exact nextLine?_behind (Nat.le_of_eq ends.symm)
  | cons x u ih =>
    have later : p + x.utf8Size + byteLength u + 1 = k := by
      rw [byteLength_cons] at ends
      omega
    have ended : Cursor.atLineEnd ⟨x :: (u ++ '\n' :: (line ++ rest)), p'⟩ =
        Cursor.atLineEnd ⟨x :: (u ++ '\n' :: rest), p⟩ := atLineEnd_before_feed (u := x :: u) ..
    have commented : ['/', '/'].isPrefixOf (x :: (u ++ '\n' :: (line ++ rest))) =
        ['/', '/'].isPrefixOf (x :: (u ++ '\n' :: rest)) :=
      (isPrefixOf_feed (u := x :: u) (by decide)).trans (isPrefixOf_feed (u := x :: u) (by decide)).symm
    rw [List.cons_append, List.cons_append]
    unfold nextLine?
    rw [ended, commented]
    split
    · exact ih later
    split
    · exact ih later
    split
    · exact ih later
    · exact .some ⟨rfl, .before (u := x :: u) ends⟩

theorem laid_parted : (Twin.parted line rest k).Laid where
  line near := by
    cases near with
    | before ends =>
      rw [firstLine?_skipLine, firstLine?_skipLine]
      exact nextLine?_parted skipped ends
    | behind low =>
      rw [firstLine?_skipLine, firstLine?_skipLine]
      exact nextLine?_behind low
  finish {c c'} near := by
    have gone (c : Cursor) : (c.skip c.rest.length).rest = [] := List.drop_length
    have leads := (Cursor.leads_skipLine c).trans (Cursor.passes_skip c.skipLine c.skipLine.rest.length).leads
    exact .of_rest ((gone _).trans (gone _).symm) (near.at_end leads (gone _))
  dedent _ _ := trivial
  indent _ := trivial

end Layout

namespace Outline

/-- An item starts on the first line of the `rest`, and the items before it end on earlier lines. So it is neither an
inline child nor inline text. -/
def StartsRest (base : Nat) (before rest : List Char) (items : List Item) : Prop :=
  ∃ earlier i later lead, preorder items = earlier ++ i :: later ∧ lead <+: rest ∧ '\n' ∉ lead ∧
    i.span.start = base + byteLength (before ++ lead) ∧ ∀ j ∈ earlier, j.span.stop < base + byteLength before

theorem StartsRest.apart {source base before rest items} (starts : StartsRest base before rest items)
    (read : parse source base = .ok items) (i : Item) (mem : i ∈ preorder items) :
    i.span.stop < base + byteLength before ∨ base + byteLength before ≤ i.span.start := by
  obtain ⟨earlier, first, later, lead, shown, -, -, start, above⟩ := starts
  obtain ⟨d, listed⟩ := listed_of_parse read
  have ordered := listed.pairwise
  obtain ⟨a, b, -, -, -, long, span, -⟩ := listed.mem (i := first) (by simp [shown])
  rw [byteLength_append, span] at start
  rw [shown] at mem ordered
  rcases List.mem_append.1 mem with earlier | mem
  · exact .inl (above i earlier)
  · refine .inr ?_
    rcases List.mem_cons.1 mem with rfl | later
    · rw [span]
      omega
    · have behind := (List.pairwise_cons.1 (List.pairwise_append.1 ordered).2.1).1 i later
      rw [span] at behind
      dsimp only at start behind
      omega

/-- Each item starts on some line. There an item before it ends, as before inline children and inline text, or it starts
the rest of the text from that line on. -/
theorem startsRest_or_inline {source base items earlier i later} (read : parse source base = .ok items)
    (shown : preorder items = earlier ++ i :: later) :
    ∃ before lead rest, source.toList = before ++ (lead ++ rest) ∧ (before = [] ∨ before.getLast? = some '\n') ∧
      '\n' ∉ lead ∧ i.span.start = base + byteLength (before ++ lead) ∧
      ((∃ j ∈ earlier, base + byteLength before ≤ j.span.stop) ∨ StartsRest base before (lead ++ rest) items) := by
  obtain ⟨d, listed⟩ := listed_of_parse read
  obtain ⟨a, b, ⟨text, passes⟩, -, -, -, span, -⟩ := listed.mem (i := i) (by simp [shown])
  obtain ⟨before, lead, rfl, whole, start⟩ : ∃ before lead, text = before ++ lead ∧ '\n' ∉ lead ∧
      (before = [] ∨ before.getLast? = some '\n') := by
    by_cases feed : '\n' ∈ text
    · obtain ⟨lead, before, reversed, whole⟩ := List.eq_append_cons_of_mem (List.mem_reverse.2 feed)
      refine ⟨before.reverse ++ ['\n'], lead.reverse, ?_, mt List.mem_reverse.1 whole, .inr List.getLast?_concat⟩
      rw [← text.reverse_reverse, reversed]
      simp
    · exact ⟨[], text, rfl, feed, .inl rfl⟩
  have here : i.span.start = base + byteLength (before ++ lead) := by rw [span]; exact passes.pos
  refine ⟨before, lead, a.rest, passes.rest.trans (List.append_assoc ..), start, whole, here, ?_⟩
  refine or_iff_not_imp_left.2 fun above => ⟨earlier, i, later, lead, shown, List.prefix_append .., whole, here, ?_⟩
  exact fun j mem => Nat.lt_of_not_le fun behind => above ⟨j, mem, behind⟩

/-- A blank line or a comment may be put before the line of an item that is neither an inline child nor inline text, or
behind the last line. The outline stays the same, wherever its parts stand. -/
theorem parse_skipped_line (source : String) (base : Nat) (items : List Item) (line before rest : List Char)
    (read : parse source base = .ok items) (skipped : Layout.IsSkipped line) (split : source.toList = before ++ rest)
    (start : before = [] ∨ before.getLast? = some '\n') (place : StartsRest base before rest items ∨ rest = []) :
    ∃ items', parse (String.ofList (before ++ line ++ rest)) base = .ok items' ∧
      respanItems Span.erased items' = respanItems Span.erased items := by
  have laid : (Twin.parted line rest (base + byteLength before)).Laid := Layout.laid_parted skipped
  have first : Option.Rel (fun a a' => a'.1 = a.1 ∧ (Twin.parted line rest (base + byteLength before)).near a.2 a'.2)
      (Layout.firstLine? (Cursor.start source base))
      (Layout.firstLine? (Cursor.start (String.ofList (before ++ line ++ rest)) base)) := by
    unfold Layout.firstLine? Cursor.start
    rw [split, String.toList_ofList]
    rcases start with rfl | last
    · obtain ⟨q, passed⟩ := skipped.passed base rest
      rw [List.nil_append, List.nil_append, passed]
      exact Layout.nextLine?_behind (Nat.le_refl _)
    · obtain ⟨u, rfl⟩ := List.getLast?_eq_some_iff.1 last
      rw [List.append_assoc, List.append_assoc, List.append_assoc]
      exact Layout.nextLine?_parted skipped (by rw [byteLength_append]; rfl)
  have apart : Twin.flagItems (Twin.parted line rest (base + byteLength before)).cuts items = false := by
    rw [Twin.flagItems, List.any_eq_false]
    intro i mem
    simp only [Twin.cuts, Twin.parted, Bool.and_eq_true, decide_eq_true_eq]
    rcases place with starts | rfl
    · have := starts.apart read i mem
      omega
    · simp
  have both := Twin.parse_alike first (by simp [Cursor.start, split])
  rw [read] at both
  generalize parse (String.ofList (before ++ line ++ rest)) base = x' at both
  cases x' with
  | ok items' =>
    cases both with
    | both _ same => exact ⟨items', rfl, same⟩
    | astray _ gone => exact absurd (apart.symm.trans gone) Bool.false_ne_true
  | error e' =>
    cases both with
    | spoilt breaks => exact breaks.elim
    | astray _ gone => exact absurd (apart.symm.trans gone) Bool.false_ne_true

/-- A comment before a nested line with an inline child. -/
theorem parse_commented_child :
    ∃ items items', parse "div\n  p: b\nq\n" 0 = .ok items ∧ parse "div\n \t// x: \x7b\n  p: b\nq\n" 0 = .ok items' ∧
      respanItems Span.erased items' = respanItems Span.erased items := by
  have computed : ((parse "div\n  p: b\nq\n" 0).toOption.map fun items => (preorder items).map (·.span)) =
      some [⟨0, 3⟩, ⟨6, 7⟩, ⟨9, 10⟩, ⟨11, 12⟩] := by decide +kernel
  cases read : parse "div\n  p: b\nq\n" 0 with
  | error e =>
    rw [read] at computed
    cases computed
  | ok items =>
    rw [read] at computed
    obtain ⟨first, rest, shown, above, others⟩ := List.map_eq_cons_iff.1 (Option.some.inj computed)
    obtain ⟨child, later, rfl, span, -⟩ := List.map_eq_cons_iff.1 others
    have starts : StartsRest 0 "div\n".toList "  p: b\nq\n".toList items :=
      ⟨[first], child, later, [' ', ' '], shown, by decide, by decide, by rw [span]; decide, by simp [above]; decide⟩
    obtain ⟨items', read', same⟩ := parse_skipped_line "div\n  p: b\nq\n" 0 items " \t// x: \x7b\n".toList _ _ read
      ⟨[' ', '\t'], "// x: \x7b".toList, by decide, by simp [isInlineBlank], by decide, .inr (by decide)⟩ (by decide)
        (.inr (by decide)) (.inl starts)
    exact ⟨items, items', rfl, read', same⟩

end Outline

end ComponentCompiler.Template
