import ComponentCompiler.Template.Argument
import ComponentCompiler.Text.Cursor

/-!
# Pieces between separators

A text is split into pieces that make it up again and are themselves whole: `split_exact`.
-/

namespace ComponentCompiler.Template.Argument

open Text

namespace Nesting

def walk (n : Nesting) (text : List Char) : Nesting := text.foldl step n

/-- Outside quotes no character is escaped. -/
def Settled (n : Nesting) : Prop := n.quote = none → n.escaped = false

theorem Settled.step {n} (settled : Settled n) (c : Char) : Settled (n.step c) := by
  unfold Nesting.step
  split
  · rename_i quoted
    split
    · exact fun _ => rfl
    · rename_i plain
      split
      · exact fun outside => absurd (quoted.symm.trans outside) nofun
      · split
        · exact fun _ => by simpa using plain
        · exact settled
  · rename_i outside
    repeat' split
    · exact nofun
    · exact fun _ => settled outside
    · exact fun _ => settled outside
    · exact settled

theorem Settled.walk {n} (settled : Settled n) (text : List Char) : Settled (n.walk text) := by
  induction text generalizing n with
  | nil => exact settled
  | cons c text ih => exact ih (settled.step c)

theorem settled_start : Settled {} := fun _ => rfl

theorem Settled.eq_start {n} (settled : Settled n) (depth : n.depth = 0) (outside : n.quote = none) : n = {} := by
  obtain ⟨d, q, e⟩ := n
  cases depth
  cases outside
  cases settled rfl
  rfl

theorem eq_start_of_isTop {n c} (settled : Settled n) (top : n.isTop c = true) : n = {} ∧ n.step c = {} := by
  simp only [isTop, Bool.and_eq_true, Bool.not_eq_true', decide_eq_true_eq, Option.isNone_iff_eq_none] at top
  obtain ⟨⟨⟨⟨outside, quote⟩, opening⟩, closing⟩, depth⟩ := top
  obtain rfl := settled.eq_start depth outside
  exact ⟨rfl, by simp [Nesting.step, quote, opening, closing]⟩

end Nesting

open Nesting

def Piece.moved (k : Nat) (p : Piece) : Piece := ⟨p.offset + k, p.text⟩

/-- No separator of the text stands at the top level. -/
def IsWhole (sep : Char) (n : Nesting) (text : List Char) : Prop :=
  ∀ a b, text = a ++ sep :: b → (n.walk a).isTop sep = false

theorem isWhole_nil {sep n} : IsWhole sep n [] := fun a b shown => by simp at shown

theorem isWhole_cons {sep n c text} :
    IsWhole sep n (c :: text) ↔ ¬(n.isTop c && c = sep) = true ∧ IsWhole sep (n.step c) text := by
  constructor
  · intro whole
    refine ⟨?_, fun a b shown => whole (c :: a) b (by rw [shown]; rfl)⟩
    simp only [Bool.and_eq_true, decide_eq_true_eq, not_and]
    rintro top rfl
    exact absurd (whole [] text rfl) (by simp [walk, top])
  · rintro ⟨on, later⟩ a b shown
    cases a with
    | nil =>
      cases shown
      simpa [walk] using on
    | cons d a =>
      cases shown
      exact later a b rfl

theorem IsWhole.append {sep n a b} (front : IsWhole sep n a) (behind : IsWhole sep (n.walk a) b) :
    IsWhole sep n (a ++ b) := by
  induction a generalizing n with
  | nil => exact behind
  | cons c a ih =>
    obtain ⟨on, later⟩ := isWhole_cons.1 front
    exact isWhole_cons.2 ⟨on, ih later behind⟩

theorem splitFrom_eq_singleton {sep n text} (whole : IsWhole sep n text) (start pos : Nat) (taken : List Char) :
    splitFrom sep n start pos taken text = [⟨start, taken ++ text⟩] := by
  induction text generalizing n pos taken with
  | nil => simp [splitFrom]
  | cons c text ih =>
    obtain ⟨on, later⟩ := isWhole_cons.1 whole
    rw [splitFrom, if_neg on, ih later, List.append_assoc, List.singleton_append]

/-- A text that ends before a top-level separator is split by itself. -/
theorem splitFrom_append {sep n a} (top : (n.walk a).isTop sep = true) (start pos : Nat) (taken b : List Char) :
    splitFrom sep n start pos taken (a ++ sep :: b) = splitFrom sep n start pos taken a ++
      splitFrom sep ((n.walk a).step sep) (pos + byteLength a + sep.utf8Size)
        (pos + byteLength a + sep.utf8Size) [] b := by
  induction a generalizing n start pos taken with
  | nil =>
    have cut : (n.isTop sep && decide (sep = sep)) = true := by simpa [walk] using top
    exact if_pos cut
  | cons c a ih =>
    have later : (n.step c).walk a = n.walk (c :: a) := rfl
    rw [List.cons_append, splitFrom, splitFrom, byteLength_cons, ← Nat.add_assoc]
    split
    · rw [ih top, List.cons_append, later]
    · rw [ih top, later]

theorem splitFrom_moved (sep : Char) (k : Nat) (n : Nesting) (start pos : Nat) (taken text : List Char) :
    splitFrom sep n (start + k) (pos + k) taken text = (splitFrom sep n start pos taken text).map (Piece.moved k) := by
  induction text generalizing n start pos taken with
  | nil => rfl
  | cons c text ih =>
    rw [splitFrom, splitFrom, Nat.add_right_comm]
    split
    · rw [ih, List.map_cons]
      rfl
    · exact ih _ _ _ _

theorem split_append {sep a} (top : (walk {} a).isTop sep = true) (b : List Char) :
    split (a ++ sep :: b) sep = split a sep ++ (split b sep).map (Piece.moved (byteLength a + sep.utf8Size)) := by
  have anew := (eq_start_of_isTop (settled_start.walk a) top).2
  rw [split, splitFrom_append top, anew, Nat.zero_add, split, split, ← splitFrom_moved, Nat.zero_add]

/-- How a text is split: at its first top-level separator, and then what follows. -/
inductive Splits (sep : Char) : List Char → List Piece → Prop where
  | whole {text} (whole : IsWhole sep {} text) : Splits sep text [⟨0, text⟩]
  | cut {a b pieces} (whole : IsWhole sep {} a) (later : Splits sep b pieces) :
    Splits sep (a ++ sep :: b) (⟨0, a⟩ :: pieces.map (Piece.moved (byteLength a + sep.utf8Size)))

theorem isWhole_or_cut (sep : Char) (n : Nesting) (text : List Char) :
    IsWhole sep n text ∨ ∃ a b, text = a ++ sep :: b ∧ IsWhole sep n a ∧ (n.walk a).isTop sep = true := by
  induction text generalizing n with
  | nil => exact .inl isWhole_nil
  | cons c text ih =>
    by_cases here : (n.isTop c && c = sep) = true
    · obtain ⟨top, rfl⟩ : n.isTop c = true ∧ c = sep := by simpa using here
      exact .inr ⟨[], text, rfl, isWhole_nil, top⟩
    rcases ih (n.step c) with whole | ⟨a, b, rfl, whole, top⟩
    · exact .inl (isWhole_cons.2 ⟨here, whole⟩)
    · exact .inr ⟨c :: a, b, rfl, isWhole_cons.2 ⟨here, whole⟩, top⟩

theorem split_splits (sep : Char) (text : List Char) : Splits sep text (split text sep) := by
  rcases isWhole_or_cut sep {} text with whole | ⟨a, b, rfl, whole, top⟩
  · rw [split, splitFrom_eq_singleton whole]
    exact .whole whole
  · rw [split_append top, split, splitFrom_eq_singleton whole]
    exact .cut whole (split_splits sep b)
termination_by text.length

section

variable {sep : Char} {text : List Char} {pieces : List Piece}

theorem Splits.ne_nil (h : Splits sep text pieces) : pieces ≠ [] := by
  cases h <;> exact List.cons_ne_nil _ _

theorem Splits.joined (h : Splits sep text pieces) : [sep].intercalate (pieces.map Piece.text) = text := by
  induction h with
  | whole => simp [List.intercalate]
  | @cut a b pieces _ later ih =>
    obtain ⟨p, more, rfl⟩ := List.exists_cons_of_ne_nil later.ne_nil
    rw [← ih]
    simp [List.intercalate_cons_cons, Piece.moved, Function.comp_def]

theorem Splits.slice (h : Splits sep text pieces) :
    ∀ p ∈ pieces, ∃ a b, text = a ++ p.text ++ b ∧ byteLength a = p.offset := by
  induction h with
  | @whole text _ =>
    rintro _ mem
    cases List.mem_singleton.1 mem
    exact ⟨[], [], by simp, rfl⟩
  | @cut a b pieces _ _ ih =>
    intro p mem
    rcases List.mem_cons.1 mem with rfl | mem
    · exact ⟨[], sep :: b, rfl, rfl⟩
    · obtain ⟨q, later, rfl⟩ := List.mem_map.1 mem
      obtain ⟨front, behind, rfl, offset⟩ := ih q later
      refine ⟨a ++ sep :: front, behind, by simp [Piece.moved], ?_⟩
      simp only [byteLength_append, byteLength_cons, Piece.moved, offset]
      omega

theorem Splits.increasing (h : Splits sep text pieces) : pieces.Pairwise (·.offset < ·.offset) := by
  induction h with
  | whole => exact List.pairwise_singleton _ _
  | cut _ _ ih =>
    refine List.pairwise_cons.2 ⟨fun p mem => ?_, List.pairwise_map.2 (ih.imp fun lt => Nat.add_lt_add_right lt _)⟩
    obtain ⟨q, -, rfl⟩ := List.mem_map.1 mem
    have := sep.utf8Size_pos
    simp only [Piece.moved]
    omega

theorem Splits.isWhole (h : Splits sep text pieces) : ∀ p ∈ pieces, IsWhole sep {} p.text := by
  induction h with
  | whole whole => exact fun p mem => List.mem_singleton.1 mem ▸ whole
  | cut whole _ ih =>
    refine List.forall_mem_cons.2 ⟨whole, fun p mem => ?_⟩
    obtain ⟨q, later, rfl⟩ := List.mem_map.1 mem
    exact ih q later

end

/-- The pieces are the parts of the text between the separators outside brackets and strings, in their order, each with
its offset. Behind text that leaves no bracket or string open, a separator splits. -/
theorem split_exact (text : List Char) (sep : Char) :
    [sep].intercalate ((split text sep).map Piece.text) = text ∧
    (∀ p ∈ split text sep, ∃ a b, text = a ++ p.text ++ b ∧ byteLength a = p.offset) ∧
    (split text sep).Pairwise (·.offset < ·.offset) ∧
    (∀ p ∈ split text sep, IsWhole sep {} p.text ∧ split p.text sep = [⟨0, p.text⟩]) ∧
    ((isQuote sep || isOpening sep || isClosing sep) = false → (walk {} text).depth = 0 → (walk {} text).quote = none →
      ∀ rest, split (text ++ sep :: rest) sep =
        split text sep ++ (split rest sep).map (Piece.moved (byteLength text + sep.utf8Size))) := by
  have splits := split_splits sep text
  refine ⟨splits.joined, splits.slice, splits.increasing, fun p mem => ?_, fun plain depth outside rest => ?_⟩
  · have whole := splits.isWhole p mem
    exact ⟨whole, splitFrom_eq_singleton whole 0 0 []⟩
  · simp only [Bool.or_eq_false_iff] at plain
    have start := (settled_start.walk text).eq_start depth outside
    exact split_append (by simp [start, isTop, plain]) rest

/-- Commas in brackets and strings do not split. -/
theorem split_behind_call :
    split ("f(a, ',)')".toList ++ ',' :: "b".toList) ',' = [⟨0, "f(a, ',)')".toList⟩, ⟨11, "b".toList⟩] :=
  (split_exact "f(a, ',)')".toList ',').2.2.2.2 rfl rfl rfl "b".toList

end ComponentCompiler.Template.Argument
