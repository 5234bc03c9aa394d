import ComponentCompiler.Position.LineTable
import Mathlib.Data.List.DropRight

/-!
# Positions of byte offsets

`position` counts the line feeds before an offset, keeps the order of offsets and is undone by
`offset?`, which it undoes in turn: `position_exact`.
-/

namespace ComponentCompiler

/-- The characters that start before byte `o`. -/
def Text.startingBefore (o : Nat) : List Char → List Char
  | [] => []
  | c :: cs => if o = 0 then [] else c :: startingBefore (o - c.utf8Size) cs

def LineCol.Precedes (p q : LineCol) : Prop := p.line < q.line ∨ p.line = q.line ∧ p.col < q.col

namespace LineTable

open Text

/-- The text before byte `o` without what follows its last line feed. -/
def linesBefore (text : List Char) (o : Nat) : List Char := (startingBefore o text).rdropWhile (· ≠ '\n')

/-- The position of byte `o`, read off the line feeds before it. -/
def counted (text : List Char) (o : Nat) : LineCol :=
  ⟨(startingBefore o text).count '\n', o - byteLength (linesBefore text o)⟩

theorem startingBefore_zero (text : List Char) : startingBefore 0 text = [] := by
  cases text <;> rfl

theorem startingBefore_append (a b : List Char) (o : Nat) :
    startingBefore (byteLength a + o) (a ++ b) = a ++ startingBefore o b := by
  induction a with
  | nil => simp
  | cons c a ih =>
    have := c.utf8Size_pos
    have rest : byteLength (c :: a) + o - c.utf8Size = byteLength a + o := by simp; omega
    rw [List.cons_append, startingBefore, if_neg (by simp; omega), rest, ih, List.cons_append]

theorem startingBefore_mono {o o'} (le : o ≤ o') (text : List Char) :
    startingBefore o text <+: startingBefore o' text := by
  induction text generalizing o o' with
  | nil => exact List.prefix_rfl
  | cons c cs ih =>
    by_cases none : o = 0
    · rw [none, startingBefore_zero]
      exact List.nil_prefix
    · rw [startingBefore, startingBefore, if_neg none, if_neg (by omega), List.prefix_cons_inj]
      exact ih (by omega)

/-! ### Line starts -/

theorem lt_of_mem_startsAfter {pos text s} (mem : s ∈ startsAfter pos text) : pos < s := by
  induction text generalizing pos with
  | nil => cases mem
  | cons c cs ih =>
    have := c.utf8Size_pos
    unfold startsAfter at mem
    split at mem
    · rcases List.mem_cons.1 mem with rfl | mem
      · omega
      · have := ih mem
        omega
    · have := ih mem
      omega

theorem takeWhile_startsAfter_of_lt {pos o text} (lt : o < pos) :
    (startsAfter pos text).takeWhile (· ≤ o) = [] := by
  cases starts : startsAfter pos text with
  | nil => rfl
  | cons s more =>
    have := lt_of_mem_startsAfter (starts ▸ List.mem_cons_self : s ∈ startsAfter pos text)
    exact List.takeWhile_cons_of_neg (by simp; omega)

/-- The lines that start at or before an offset are those begun by a line feed before it. -/
theorem takeWhile_startsAfter {pos o} (le : pos ≤ o) (text : List Char) :
    (startsAfter pos text).takeWhile (· ≤ o) = startsAfter pos (startingBefore (o - pos) text) := by
  induction text generalizing pos with
  | nil => rfl
  | cons c cs ih =>
    have := c.utf8Size_pos
    by_cases here : o - pos = 0
    · rw [here, startingBefore_zero]
      unfold startsAfter
      split
      · exact List.takeWhile_cons_of_neg (by simp; omega)
      · exact takeWhile_startsAfter_of_lt (by omega)
    · rw [startingBefore, if_neg here, startsAfter, startsAfter]
      split
      · rename_i feed
        subst feed
        rw [List.takeWhile_cons_of_pos (by simp; omega), ih (by omega), Nat.sub_add_eq]
        rfl
      · by_cases within : pos + c.utf8Size ≤ o
        · rw [ih within, Nat.sub_add_eq]
        · rw [takeWhile_startsAfter_of_lt (by omega), Nat.sub_eq_zero_of_le (by omega), startingBefore_zero]
          rfl

theorem startsAfter_append (pos : Nat) (a b : List Char) :
    startsAfter pos (a ++ b) = startsAfter pos a ++ startsAfter (pos + byteLength a) b := by
  induction a generalizing pos with
  | nil => rfl
  | cons c a ih =>
    rw [List.cons_append, startsAfter, startsAfter, byteLength_cons, ← Nat.add_assoc]
    split
    · rename_i feed
      rw [ih, feed]
      rfl
    · exact ih _

theorem length_startsAfter (pos : Nat) (text : List Char) : (startsAfter pos text).length = text.count '\n' := by
  induction text generalizing pos with
  | nil => rfl
  | cons c cs ih =>
    unfold startsAfter
    split
    · rename_i feed
      rw [List.length_cons, ih, feed, List.count_cons_self]
    · rename_i other
      rw [ih, List.count_cons_of_ne other]

theorem getLast_startsAfter (text : List Char) :
    (0 :: startsAfter 0 text).getLast (List.cons_ne_nil _ _) = byteLength (text.rdropWhile (· ≠ '\n')) := by
  induction text using List.reverseRecOn with
  | nil => rfl
  | append_singleton text c ih =>
    by_cases feed : c = '\n'
    · subst feed
      rw [List.rdropWhile_concat_neg _ _ _ (by simp), byteLength_append]
      simp [startsAfter_append, startsAfter]
      rfl
    · rw [List.rdropWhile_concat_pos _ _ _ (by simp [feed]), ← ih]
      simp [startsAfter_append, startsAfter, feed]

/-! ### Positions -/

section

variable (text : String)

theorem takeWhile_starts (o : Nat) :
    (ofText text).starts.takeWhile (· ≤ o) = 0 :: startsAfter 0 (startingBefore o text.toList) := by
  rw [ofText, List.takeWhile_cons_of_pos (by simp), takeWhile_startsAfter (Nat.zero_le o), Nat.sub_zero]

theorem lineStart?_counted (o : Nat) :
    (ofText text).lineStart? (counted text.toList o).line = some (byteLength (linesBefore text.toList o)) := by
  have whole := List.takeWhile_append_dropWhile (p := (· ≤ o)) (l := (ofText text).starts)
  rw [takeWhile_starts] at whole
  rw [lineStart?, ← whole, counted, List.getElem?_append_left (by simp [length_startsAfter]), linesBefore,
    ← getLast_startsAfter, List.getLast_eq_getElem, List.getElem?_eq_getElem (by simp [length_startsAfter])]
  simp [length_startsAfter]

theorem linesBefore_le (o : Nat) : byteLength (linesBefore text.toList o) ≤ o := by
  have last := List.getLast_mem (List.cons_ne_nil 0 (startsAfter 0 (startingBefore o text.toList)))
  rw [getLast_startsAfter, ← takeWhile_starts] at last
  have before := List.mem_takeWhile_imp last
  exact of_decide_eq_true before

theorem position_eq_counted (o : Nat) (le : o ≤ (ofText text).size) :
    (ofText text).position o = counted text.toList o := by
  have line : ((ofText text).starts.takeWhile (· ≤ o)).length - 1 = (counted text.toList o).line := by
    simp [takeWhile_starts, length_startsAfter, counted]
  have start : (ofText text).starts.getD (counted text.toList o).line 0 = byteLength (linesBefore text.toList o) := by
    rw [List.getD_eq_getElem?_getD, ← lineStart?, lineStart?_counted, Option.getD_some]
  simp only [position, Nat.min_eq_left le, line, start]
  rfl

theorem counted_precedes {o o'} (lt : o < o') : (counted text.toList o).Precedes (counted text.toList o') := by
  have lines := (startingBefore_mono (Nat.le_of_lt lt) text.toList).sublist.count_le '\n'
  rcases Nat.lt_or_eq_of_le lines with fewer | same
  · exact .inl fewer
  · have starts := lineStart?_counted text o
    have bound := linesBefore_le text o
    have shared : (counted text.toList o).line = (counted text.toList o').line := same
    rw [shared, lineStart?_counted] at starts
    refine .inr ⟨same, ?_⟩
    simp only [counted, Option.some.inj starts]
    omega

theorem offset?_counted {o} (le : o ≤ (ofText text).size) : (ofText text).offset? (counted text.toList o) = some o := by
  have back : byteLength (linesBefore text.toList o) + (counted text.toList o).col = o :=
    Nat.add_sub_cancel' (linesBefore_le text o)
  simp only [offset?, lineStart?_counted, back, if_pos le]

end

/-- A line stands behind a line feed, or in front of all. -/
theorem exists_of_splitOn {text line : List Char} {l} (found : (text.splitOn '\n')[l]? = some line) :
    ∃ a b, text = a ++ (line ++ b) ∧ a.count '\n' = l ∧ '\n' ∉ line ∧ (a = [] ∨ ∃ front, a = front ++ ['\n']) := by
  unfold List.splitOn at found
  induction text generalizing l line with
  | nil =>
    obtain ⟨rfl, rfl⟩ : l = 0 ∧ line = [] := by simpa [List.getElem?_singleton, eq_comm] using found
    exact ⟨[], [], rfl, rfl, List.not_mem_nil, .inl rfl⟩
  | cons x text ih =>
    rw [List.splitOnP_cons_eq_if_modifyHead] at found
    by_cases feed : x = '\n'
    · subst feed
      cases l with
      | zero =>
        cases found
        exact ⟨[], '\n' :: text, rfl, rfl, List.not_mem_nil, .inl rfl⟩
      | succ l =>
        obtain ⟨a, b, rfl, rfl, whole, behind⟩ := ih found
        refine ⟨'\n' :: a, b, rfl, List.count_cons_self, whole, .inr ?_⟩
        rcases behind with rfl | ⟨front, rfl⟩
        · exact ⟨[], rfl⟩
        · exact ⟨'\n' :: front, rfl⟩
    · rw [if_neg (by simpa using feed)] at found
      cases l with
      | zero =>
        rw [← List.head?_eq_getElem?, List.head?_modifyHead, List.head?_eq_getElem?] at found
        obtain ⟨line', first, rfl⟩ := Option.map_eq_some_iff.1 found
        obtain ⟨a, b, rfl, none, whole, behind⟩ := ih first
        have front : a = [] := by
          rcases behind with rfl | ⟨front, rfl⟩
          · rfl
          · simp at none
        subst front
        exact ⟨[], b, rfl, rfl, by simp [Ne.symm feed, whole], .inl rfl⟩
      | succ l =>
        obtain ⟨a, b, rfl, lines, whole, behind⟩ := ih (by simpa using found)
        refine ⟨x :: a, b, rfl, by rw [List.count_cons_of_ne feed, lines], whole, .inr ?_⟩
        rcases behind with rfl | ⟨front, rfl⟩
        · cases lines
        · exact ⟨x :: front, rfl⟩

theorem counted_of_line {a line b : List Char} {c} (whole : '\n' ∉ line)
    (behind : a = [] ∨ ∃ front, a = front ++ ['\n'])
    (le : c ≤ byteLength line) : counted (a ++ (line ++ b)) (byteLength a + c) = ⟨a.count '\n', c⟩ := by
  obtain ⟨rest, part⟩ := startingBefore_mono le (line ++ b)
  rw [← Nat.add_zero (byteLength line), startingBefore_append, startingBefore_zero, List.append_nil] at part
  have dark : '\n' ∉ startingBefore c (line ++ b) := fun mem => whole (part ▸ List.mem_append_left rest mem)
  have kept : linesBefore (a ++ (line ++ b)) (byteLength a + c) = a := by
    rw [linesBefore, startingBefore_append, List.rdropWhile, List.reverse_append, List.dropWhile_append_of_pos]
    · rcases behind with rfl | ⟨front, rfl⟩
      · rfl
      · exact List.rdropWhile_concat_neg _ _ _ (by simp)
    · intro x mem
      simp only [decide_eq_true_eq]
      rintro rfl
      exact dark (List.mem_reverse.1 mem)
  simp [counted, kept, startingBefore_append, List.count_eq_zero.2 dark]

/-- Positions and offsets of a text stand for each other, in the same order. An offset behind the text has the position
of its end. -/
theorem position_exact (text : String) :
    (∀ o ≤ byteLength text.toList, (ofText text).position o = counted text.toList o) ∧
    (∀ o, byteLength text.toList ≤ o → (ofText text).position o = (ofText text).position (byteLength text.toList)) ∧
    (∀ o o', o < o' → o' ≤ byteLength text.toList →
      ((ofText text).position o).Precedes ((ofText text).position o')) ∧
    (∀ o ≤ byteLength text.toList, (ofText text).offset? ((ofText text).position o) = some o) ∧
    ∀ l line, (text.toList.splitOn '\n')[l]? = some line → ∀ c ≤ byteLength line,
      ∃ o, (ofText text).offset? ⟨l, c⟩ = some o ∧ (ofText text).position o = ⟨l, c⟩ := by
  have size : (ofText text).size = byteLength text.toList := rfl
  refine ⟨position_eq_counted text, ?_, ?_, ?_, ?_⟩
  · intro o beyond
    simp only [position, size, Nat.min_eq_right beyond, Nat.min_self]
  · intro o o' lt le
    rw [position_eq_counted text o (by omega), position_eq_counted text o' le]
    exact counted_precedes text lt
  · intro o le
    rw [position_eq_counted text o le]
    exact offset?_counted text le
  · intro l line found c le
    obtain ⟨a, b, chars, rfl, whole, behind⟩ := exists_of_splitOn found
    have within : byteLength a + c ≤ (ofText text).size := by
      rw [size, chars, byteLength_append, byteLength_append]
      omega
    have here : counted text.toList (byteLength a + c) = ⟨a.count '\n', c⟩ := by
      rw [chars]
      exact counted_of_line whole behind le
    refine ⟨byteLength a + c, ?_, ?_⟩
    · rw [← here]
      exact offset?_counted text within
    · rw [position_eq_counted text _ within, here]

/-- The second line, behind a character of two bytes. -/
theorem second_line_position :
    ∃ o, (ofText "é\nbc").offset? ⟨1, 2⟩ = some o ∧ (ofText "é\nbc").position o = ⟨1, 2⟩ :=
  (position_exact "é\nbc").2.2.2.2 1 "bc".toList rfl 2 (by decide)

end LineTable

end ComponentCompiler
