import ComponentCompiler.Proofs.Brackets.Line
import ComponentCompiler.Proofs.Brackets.Split

/-!
# Loop arguments

The argument of a loop is put together from a pattern, an index that may be missing and a collection,
and it is read as these three again: `loop_loopText`.
-/

namespace ComponentCompiler.Template.Argument

open Text Nesting
open Program (isIdentifierList_parts)

/-! ### The keyword -/

/-- No word `of` stands at the top level. `prev` is the character before the text, and a blank is
taken to follow it. -/
def Keyless (n : Nesting) (prev : Char) (text : List Char) : Prop :=
  ∀ a b, text = a ++ 'o' :: 'f' :: b → (n.walk a).isTop 'o' = true → isBlank (a.getLastD prev) = true →
    isBlank (b.headD ' ') = false

theorem exists_of_endsOf {text rest} (other : rest.head? ≠ some 'f') (ends : endsOf (text ++ rest) = true) :
    ∃ b, text = 'f' :: b ∧ isBlank (b.headD ' ') = true := by
  unfold endsOf at ends
  split at ends
  · rename_i shown
    cases text with
    | nil => exact absurd (congrArg List.head? shown) other
    | cons d b =>
      obtain ⟨rfl, later⟩ := List.cons.inj shown
      refine ⟨b, rfl, ?_⟩
      cases b with
      | nil => rfl
      | cons e b =>
        cases later
        exact ends
  · cases ends

theorem endsOf_spaced (b : List Char) : endsOf ('f' :: b ++ [' ']) = isBlank (b.headD ' ') := by
  cases b <;> rfl

section

variable {n : Nesting} {prev : Char} {text : List Char}

theorem keyless_cons {c} : Keyless n prev (c :: text) ↔
    ¬(n.isTop c && c = 'o' && isBlank prev && endsOf (text ++ [' '])) = true ∧ Keyless (n.step c) c text := by
  simp only [Bool.and_eq_true, decide_eq_true_eq]
  constructor
  · intro keyless
    constructor
    · rintro ⟨⟨⟨top, rfl⟩, before⟩, ends⟩
      obtain ⟨b, rfl, behind⟩ := exists_of_endsOf (by decide) ends
      rw [keyless [] b rfl top before] at behind
      cases behind
    · intro a b shown top before
      refine keyless (c :: a) b (by rw [shown]; rfl) top ?_
      rwa [List.getLastD_cons]
  · rintro ⟨here, later⟩ a b shown top before
    cases a with
    | nil =>
      cases shown
      rw [← endsOf_spaced, ← Bool.not_eq_true]
      exact fun ends => here ⟨⟨⟨top, rfl⟩, before⟩, ends⟩
    | cons d a =>
      obtain ⟨rfl, tail⟩ := List.cons.inj shown
      rw [List.getLastD_cons] at before
      exact later a b tail top before

/-- The search goes through a text without the keyword to what follows it. -/
theorem splitAtOf?_append {rest} (keyless : Keyless n prev text) (other : rest.head? ≠ some 'f') :
    splitAtOf? n prev (text ++ rest) =
      (splitAtOf? (n.walk text) (text.getLastD prev) rest).map (Prod.map (text ++ ·) id) := by
  induction text generalizing n prev with
  | nil => exact Option.map_id'.symm
  | cons c text ih =>
    obtain ⟨here, later⟩ := keyless_cons.1 keyless
    have on : ¬(n.isTop c && c = 'o' && isBlank prev && endsOf (text ++ rest)) = true := by
      simp only [Bool.and_eq_true, decide_eq_true_eq] at here ⊢
      rintro ⟨first, ends⟩
      obtain ⟨b, rfl, behind⟩ := exists_of_endsOf other ends
      exact here ⟨first, (endsOf_spaced b).trans behind⟩
    rw [List.cons_append, splitAtOf?, if_neg on, ih later, Option.map_map, List.getLastD_cons]
    rfl

theorem keyless_iff : Keyless n prev text ↔ splitAtOf? n prev (text ++ [' ']) = none := by
  induction text generalizing n prev with
  | nil => simp [Keyless, splitAtOf?]
  | cons c text ih =>
    rw [keyless_cons, ih, List.cons_append, splitAtOf?]
    by_cases found : (n.isTop c && c = 'o' && isBlank prev && endsOf (text ++ [' '])) = true
    · simp only [found, not_true, false_and, if_true, reduceCtorEq]
    · rw [if_neg found, Option.map_eq_none_iff]
      exact and_iff_right found

instance : Decidable (Keyless n prev text) := decidable_of_iff _ keyless_iff.symm

theorem Keyless.append {b} (front : Keyless n prev text) (behind : Keyless (n.walk text) (text.getLastD prev) b)
    (other : b.head? ≠ some 'f') : Keyless n prev (text ++ b) := by
  have later : (b ++ [' ']).head? ≠ some 'f' := by
    cases b with
    | nil => decide
    | cons c b => exact other
  rw [keyless_iff, List.append_assoc, splitAtOf?_append front later, keyless_iff.1 behind]
  rfl

end

/-! ### Texts without a separator -/

theorem isWhole_of_not_mem {sep n text} (apart : sep ∉ text) : IsWhole sep n text := by
  rintro a b rfl
  simp at apart

theorem isWhole_iff {sep text} : IsWhole sep {} text ↔ split text sep = [⟨0, text⟩] := by
  constructor
  · intro whole
    exact splitFrom_eq_singleton whole 0 0 []
  · intro single
    exact (split_splits sep text).isWhole ⟨0, text⟩ (by rw [single]; exact List.mem_singleton_self _)

instance {sep text} : Decidable (IsWhole sep {} text) := decidable_of_iff _ isWhole_iff.symm

/-! ### Names -/

theorem isBlank_of_identifierPart {c} (part : isIdentifierPart c = true) : isBlank c = false := by
  have range : 33 ≤ c.toNat ∧ c.toNat ≤ 122 := by
    simp only [isIdentifierPart, isAsciiAlphanumeric, isAsciiLetter, isAsciiDigit, Bool.or_eq_true, Bool.and_eq_true,
      decide_eq_true_eq, Char.le_def, UInt32.le_iff_toNat_le] at part
    obtain ((letter | digit) | rfl) | rfl := part
    · change 97 ≤ c.toNat ∧ c.toNat ≤ 122 ∨ 65 ≤ c.toNat ∧ c.toNat ≤ 90 at letter
      omega
    · change 48 ≤ c.toNat ∧ c.toNat ≤ 57 at digit
      omega
    · decide
    · decide
  rw [← Bool.not_eq_true, isBlank, blankRanges]
  simp only [List.any_cons, List.any_nil, Bool.or_false, Bool.or_eq_true, Bool.and_eq_true, decide_eq_true_eq]
  omega

section

variable {name : List Char} (identifier : isIdentifierList name = true)

include identifier

theorem ink_of_identifier : ∀ c ∈ name, isBlank c = false :=
  fun c mem => isBlank_of_identifierPart (isIdentifierList_parts identifier c mem)

theorem walk_identifier : walk {} name = {} := by
  have parts := isIdentifierList_parts identifier
  clear identifier
  induction name with
  | nil => rfl
  | cons c name ih =>
    obtain ⟨first, others⟩ := List.forall_mem_cons.1 parts
    have still : step {} c = {} := step_unmarked fun _ => Balanced.not_mark_of_identifierPart first
    rw [walk, List.foldl_cons, still]
    exact ih others

theorem keyless_identifier (other : name ≠ ['o', 'f']) (prev : Char) : Keyless {} prev name := by
  rintro a b rfl - before
  have ink := ink_of_identifier identifier
  obtain rfl | ⟨a, c, rfl⟩ := List.eq_nil_or_concat a
  · cases b with
    | nil => exact absurd rfl other
    | cons d b => exact ink d (by simp)
  · have blank : isBlank c = true := by simpa using before
    exact absurd blank (by simp [ink c])

end

/-! ### Arguments -/

structure IsPattern (text : List Char) : Prop where
  trimmed : trim text = text
  filled : text ≠ []
  depth : (walk {} text).depth = 0
  outside : (walk {} text).quote = none
  whole : IsWhole ',' {} text
  keyless : Keyless {} ' ' text

structure IsIndex (name : List Char) : Prop where
  identifier : isIdentifierList name = true
  other : name ≠ ['o', 'f']

/-- `pattern` or `pattern, index`. -/
def loopHead (pattern : List Char) (index : Option (List Char)) : List Char :=
  pattern ++ index.elim [] ([',', ' '] ++ ·)

def loopText (pattern : List Char) (index : Option (List Char)) (collection : List Char) : List Char :=
  loopHead pattern index ++ [' ', 'o', 'f', ' '] ++ collection

section

variable {pattern : List Char} {index : Option (List Char)} (h : IsPattern pattern) (names : ∀ i ∈ index, IsIndex i)

include h

theorem IsPattern.walk_eq : walk {} pattern = {} :=
  (settled_start.walk pattern).eq_start h.depth h.outside

include names

theorem walk_loopHead : walk {} (loopHead pattern index) = {} := by
  rw [loopHead, walk, List.foldl_append]
  change ((walk {} pattern).walk _) = {}
  rw [h.walk_eq]
  cases index with
  | none => rfl
  | some i => exact (walk_identifier (names i rfl).identifier : walk {} i = {})

theorem keyless_loopHead : Keyless {} ' ' (loopHead pattern index) := by
  cases index with
  | none => simpa [loopHead] using h.keyless
  | some i =>
    refine h.keyless.append ?_ (by simp)
    rw [h.walk_eq]
    refine keyless_cons.2 ⟨by simp, keyless_cons.2 ⟨by simp, ?_⟩⟩
    exact keyless_identifier (names i rfl).identifier (names i rfl).other ' '

theorem splitAtOf?_loopText (collection : List Char) :
    splitAtOf? {} ' ' (loopText pattern index collection) =
      some (loopHead pattern index ++ [' '], ' ' :: collection) := by
  rw [loopText, List.append_assoc, splitAtOf?_append (keyless_loopHead h names) (by simp), walk_loopHead h names]
  rfl

theorem loopNames_loopHead :
    loopNames (loopHead pattern index ++ [' ']) = .ok (String.ofList pattern, index.map String.ofList) := by
  cases index with
  | none =>
    have whole : IsWhole ',' {} (pattern ++ [' ']) := h.whole.append (isWhole_of_not_mem (by decide))
    have trimmed : trim (pattern ++ [' ']) = pattern := by rw [trim_append_blank rfl, h.trimmed]
    simp [loopHead, loopNames, isWhole_iff.1 whole, trimmed, h.filled]
  | some i =>
    have identifier := (names i rfl).identifier
    have apart : ',' ∉ ' ' :: (i ++ [' ']) := by
      have inside : ',' ∉ i := fun mem => absurd (isIdentifierList_parts identifier ',' mem) (by decide)
      simpa using inside
    have trimmed : trim (' ' :: (i ++ [' '])) = i :=
      trim_unique (a := [' ']) (b := [' ']) rfl (trim_of_ink (ink_of_identifier identifier)) rfl
    have top : (walk {} pattern).isTop ',' = true := by rw [h.walk_eq]; rfl
    have pieces := split_append top (' ' :: (i ++ [' ']))
    rw [isWhole_iff.1 h.whole, isWhole_iff.1 (isWhole_of_not_mem apart)] at pieces
    simp [loopHead, loopNames, pieces, Piece.moved, trimmed, h.trimmed, h.filled, identifier]

end

/-- What is put together is read again. The first part tells what is taken for the collection. -/
theorem loop_loopText (pattern : List Char) (index : Option (List Char)) (collection : List Char)
    (h : IsPattern pattern) (names : ∀ i ∈ index, IsIndex i) (filled : allBlank collection = false) :
    (splitAtOf? {} ' ' (loopText pattern index collection)).map (fun halves => trim halves.2) = some (trim collection) ∧
    ∀ span, loop (loopText pattern index collection) span =
      .ok ⟨String.ofList pattern, index.map String.ofList, expr collection span⟩ := by
  have halves := splitAtOf?_loopText h names collection
  have trimmed : trim (' ' :: collection) = trim collection := rfl
  refine ⟨by rw [halves]; rfl, fun span => ?_⟩
  simp [loop, halves, filled, loopNames_loopHead h names, expr, trimmed]

/-- Words `of` and commas in brackets, in strings and behind the keyword are not mistaken for those of the loop. -/
theorem loop_destructuring :
    loop "[of, a = ', of '], offset of :rows of (x, y)".toList ⟨0, 9⟩ =
      .ok ⟨"[of, a = ', of ']", some "offset", ⟨⟨"rows of (x, y)", false, ⟨0, 9⟩⟩, true⟩⟩ :=
  (loop_loopText "[of, a = ', of ']".toList (some "offset".toList) ":rows of (x, y)".toList
    ⟨rfl, by decide, rfl, rfl, by decide, by decide⟩ (by rintro _ ⟨⟩; exact ⟨rfl, by decide⟩) rfl).2 ⟨0, 9⟩

end ComponentCompiler.Template.Argument
