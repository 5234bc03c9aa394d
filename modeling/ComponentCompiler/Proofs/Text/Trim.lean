import ComponentCompiler.Text.Blank

/-!
# Trimming

`trim_unique` pins `trim` down: it cuts blanks, all of them and nothing else, off both ends.
-/

namespace ComponentCompiler.Text

@[simp] theorem allBlank_cons (c : Char) (cs : List Char) :
    allBlank (c :: cs) = (isBlank c && allBlank cs) := rfl

@[simp] theorem allBlank_append (a b : List Char) : allBlank (a ++ b) = (allBlank a && allBlank b) :=
  List.all_append

theorem trimEnd_eq_nil {cs} : trimEnd cs = [] ↔ allBlank cs = true := by
  induction cs with
  | nil => simp [trimEnd, allBlank]
  | cons c cs ih =>
    unfold trimEnd
    rw [allBlank_cons, Bool.and_eq_true, ← ih]
    split
    · rename_i none
      split <;> simp_all
    · rename_i kept
      simp_all

theorem trimEnd_cons {c cs} (h : isBlank c = false ∨ allBlank cs = false) : trimEnd (c :: cs) = c :: trimEnd cs := by
  conv => lhs; unfold trimEnd
  split
  · rename_i none
    have ink : isBlank c = false := h.resolve_right (by simp [trimEnd_eq_nil.1 none])
    simp [none, ink]
  · rfl

theorem exists_trimEnd_append (cs : List Char) : ∃ b, cs = trimEnd cs ++ b ∧ allBlank b = true := by
  induction cs with
  | nil => exact ⟨[], rfl, rfl⟩
  | cons c cs ih =>
    by_cases ink : isBlank c = false ∨ allBlank cs = false
    · obtain ⟨b, split, blank⟩ := ih
      exact ⟨b, by rw [trimEnd_cons ink, List.cons_append, ← split], blank⟩
    · have blank : allBlank (c :: cs) = true := by simpa [not_or] using ink
      exact ⟨c :: cs, by rw [trimEnd_eq_nil.2 blank]; rfl, blank⟩

theorem trimEnd_append_blank {cs b} (blank : allBlank b = true) : trimEnd (cs ++ b) = trimEnd cs := by
  induction cs with
  | nil => exact trimEnd_eq_nil.2 blank
  | cons c cs ih => simp only [List.cons_append, trimEnd, ih]

@[simp] theorem trimEnd_trimEnd (cs : List Char) : trimEnd (trimEnd cs) = trimEnd cs := by
  obtain ⟨b, split, blank⟩ := exists_trimEnd_append cs
  conv => rhs; rw [split, trimEnd_append_blank blank]

theorem trimStart_append_blank {b} (blank : allBlank b = true) (cs : List Char) :
    trimStart (b ++ cs) = trimStart cs := by
  induction b with
  | nil => rfl
  | cons c b ih =>
    rw [allBlank_cons, Bool.and_eq_true] at blank
    rw [← ih blank.2]
    simp [trimStart, blank.1]

theorem trimStart_cons {c cs} (ink : isBlank c = false) : trimStart (c :: cs) = c :: cs := by
  simp [trimStart, ink]

theorem trimStart_eq_cons {c cs rest} (h : trimStart cs = c :: rest) : isBlank c = false := by
  have first := List.head?_dropWhile_not isBlank cs
  simp_all [trimStart]

theorem trimStart_trim (cs : List Char) : trimStart (trim cs) = trim cs := by
  unfold trim
  cases start : trimStart cs with
  | nil => rfl
  | cons c rest =>
    have ink := trimStart_eq_cons start
    rw [trimEnd_cons (.inl ink), trimStart_cons ink]

@[simp] theorem trim_trim (cs : List Char) : trim (trim cs) = trim cs := by
  calc trim (trim cs) = trimEnd (trimStart (trim cs)) := rfl
    _ = trimEnd (trim cs) := by rw [trimStart_trim]
    _ = trim cs := trimEnd_trimEnd _

theorem exists_trim (cs : List Char) :
    ∃ a b, cs = a ++ (trim cs ++ b) ∧ allBlank a = true ∧ allBlank b = true := by
  obtain ⟨b, split, blank⟩ := exists_trimEnd_append (trimStart cs)
  refine ⟨cs.takeWhile isBlank, b, ?_, List.all_takeWhile, blank⟩
  conv => lhs; rw [eq_trimStart_append cs, split]
  rfl

theorem mem_of_mem_trim {c cs} (mem : c ∈ trim cs) : c ∈ cs := by
  obtain ⟨a, b, split, -⟩ := exists_trim cs
  rw [split]
  simp [mem]

theorem trim_unique {a text b} (before : allBlank a = true) (trimmed : trim text = text)
    (behind : allBlank b = true) : trim (a ++ (text ++ b)) = text := by
  unfold trim
  rw [trimStart_append_blank before]
  cases text with
  | nil =>
    have none : trimStart b = [] := by simpa [trimStart] using trimStart_append_blank behind []
    simp [none, trimEnd]
  | cons c rest =>
    have ink : isBlank c = false := by
      have start : trimStart (c :: rest) = c :: rest := by rw [← trimmed, trimStart_trim]
      exact trimStart_eq_cons start
    rw [List.cons_append, trimStart_cons ink, ← List.cons_append, trimEnd_append_blank behind, ← trimmed]
    exact trimEnd_trimEnd _

theorem trim_of_ink {cs} (ink : ∀ c ∈ cs, isBlank c = false) : trim cs = cs := by
  have trimEnd_self : trimEnd cs = cs := by
    induction cs with
    | nil => rfl
    | cons c cs ih =>
      obtain ⟨first, others⟩ := List.forall_mem_cons.1 ink
      rw [trimEnd_cons (.inl first), ih others]
  cases cs with
  | nil => rfl
  | cons c cs => rw [trim, trimStart_cons (ink c List.mem_cons_self), trimEnd_self]

theorem trim_append_blank {cs b} (blank : allBlank b = true) : trim (cs ++ b) = trim cs := by
  obtain ⟨a, behind, split, before, after⟩ := exists_trim cs
  have blanks : allBlank (behind ++ b) = true := by rw [allBlank_append, after, blank]; rfl
  calc trim (cs ++ b) = trim (a ++ (trim cs ++ (behind ++ b))) := by
        conv => lhs; rw [split]
        simp only [List.append_assoc]
    _ = trim cs := trim_unique before (trim_trim cs) blanks

theorem trim_eq_nil {cs} : trim cs = [] ↔ allBlank cs = true := by
  constructor
  · intro none
    obtain ⟨a, b, split, before, behind⟩ := exists_trim cs
    rw [split, none]
    simp [before, behind]
  · intro blank
    have none : trim [] = [] := rfl
    have nothing : allBlank [] = true := rfl
    simpa using trim_unique blank none nothing

end ComponentCompiler.Text
