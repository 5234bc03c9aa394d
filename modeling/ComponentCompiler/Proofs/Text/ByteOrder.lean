/-!
# The order of texts and of their bytes
-/

namespace ComponentCompiler.Text

def bytes (text : String) : List UInt8 := text.toUTF8.data.toList

theorem bytes_eq (text : String) : bytes text = text.toList.flatMap String.utf8EncodeChar := by
  have encoded := @String.toByteArray_ofList text.toList
  rw [String.ofList_toList] at encoded
  rw [bytes, String.toUTF8, encoded, List.utf8Encode, List.toList_data_toByteArray]

def Precedes : List UInt8 → List UInt8 → Prop
  | x :: xs, y :: ys => x < y ∨ x = y ∧ Precedes xs ys
  | _, _ => False

theorem Precedes.append_lt {xs ys} (precedes : Precedes xs ys) (more others : List UInt8) :
    xs ++ more < ys ++ others := by
  induction xs generalizing ys with
  | nil => exact precedes.elim
  | cons x xs ih =>
    cases ys with
    | nil => exact precedes.elim
    | cons y ys =>
      rcases precedes with smaller | ⟨rfl, later⟩
      · exact List.Lex.rel smaller
      · exact List.Lex.cons (ih later)

theorem precedes_head {m n} (xs ys : List UInt8) (small : n < 256) (less : m < n) :
    Precedes (UInt8.ofNat m :: xs) (UInt8.ofNat n :: ys) := by
  refine .inl ?_
  rw [UInt8.lt_iff_toNat_lt, UInt8.toNat_ofNat_of_lt' (Nat.lt_trans less small), UInt8.toNat_ofNat_of_lt' small]
  exact less

theorem precedes_cons {m n xs ys} (small : n < 256) (le : m ≤ n) (rest : m = n → Precedes xs ys) :
    Precedes (UInt8.ofNat m :: xs) (UInt8.ofNat n :: ys) := by
  rcases Nat.lt_or_eq_of_le le with less | same
  · exact precedes_head xs ys small less
  · exact .inr ⟨congrArg _ same, rest same⟩

theorem precedes_utf8EncodeChar {c d} (less : c < d) :
    Precedes (String.utf8EncodeChar c) (String.utf8EncodeChar d) := by
  have values : c.val.toNat < d.val.toNat := less
  have largest : d.val.toNat < 0x110000 := by
    rcases d.valid with low | ⟨-, high⟩
    · exact Nat.lt_trans low (by decide)
    · exact high
  unfold String.utf8EncodeChar
  generalize c.val.toNat = m at values
  generalize d.val.toNat = n at values largest
  dsimp only
  -- The first byte tells how many there are; of two forms of one length, the first larger digit decides.
  by_cases one : m ≤ 127
  · rw [if_pos one]
    split
    · exact precedes_head [] [] (by omega) values
    split
    · exact precedes_head _ _ (by omega) (by omega)
    split
    · exact precedes_head _ _ (by omega) (by omega)
    · exact precedes_head _ _ (by omega) (by omega)
  rw [if_neg one, if_neg (show ¬ n ≤ 127 by omega)]
  by_cases two : m ≤ 2047
  · rw [if_pos two]
    split
    · refine precedes_cons (by omega) (by omega) fun _ => ?_
      exact precedes_head _ _ (by omega) (by omega)
    split
    · exact precedes_head _ _ (by omega) (by omega)
    · exact precedes_head _ _ (by omega) (by omega)
  rw [if_neg two, if_neg (show ¬ n ≤ 2047 by omega)]
  by_cases three : m ≤ 65535
  · rw [if_pos three]
    split
    · refine precedes_cons (by omega) (by omega) fun _ => ?_
      refine precedes_cons (by omega) (by omega) fun _ => ?_
      exact precedes_head _ _ (by omega) (by omega)
    · exact precedes_head _ _ (by omega) (by omega)
  · rw [if_neg three, if_neg (show ¬ n ≤ 65535 by omega)]
    refine precedes_cons (by omega) (by omega) fun _ => ?_
    refine precedes_cons (by omega) (by omega) fun _ => ?_
    refine precedes_cons (by omega) (by omega) fun _ => ?_
    exact precedes_head _ _ (by omega) (by omega)

theorem utf8EncodeChar_ne_nil (c : Char) : String.utf8EncodeChar c ≠ [] := by
  intro none
  have size := String.length_utf8EncodeChar c
  rw [none] at size
  exact absurd size (Nat.ne_of_lt c.utf8Size_pos)

theorem bytes_lt {a b} (less : a < b) : bytes a < bytes b := by
  rw [bytes_eq, bytes_eq]
  have chars : a.toList < b.toList := less
  generalize a.toList = cs at chars
  generalize b.toList = ds at chars
  induction chars with
  | nil =>
    rename_i d ds
    obtain ⟨x, xs, first⟩ := List.exists_cons_of_ne_nil (utf8EncodeChar_ne_nil d)
    rw [List.flatMap_cons, first]
    exact List.Lex.nil
  | rel smaller => exact (precedes_utf8EncodeChar smaller).append_lt _ _
  | cons _ ih => exact List.append_left_lt ih

end ComponentCompiler.Text
