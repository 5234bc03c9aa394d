import ComponentCompiler.Proofs.Outline.Captured
import ComponentCompiler.Text.Json

/-!
# String literals

`quote` writes any text as one string that JSON reads back: `quote_contained`.
-/

namespace ComponentCompiler.Text

open Template.Balanced

/-- A scan takes `text` for one string: the first character opens it in any code, and a scan inside of it, whatever is
open around, is out of it behind the last character. -/
def IsString : List Char → Prop
  | [] => False
  | quote :: body => ∀ (goal : Goal) (frames : List Frame) (pos : Nat) (rest : List Char),
    codeStep goal frames pos quote (body ++ rest).head? = .one (.quoted quote pos :: frames) ∧
      scan goal (.quoted quote pos :: frames) (pos + quote.utf8Size) (body ++ rest) =
        scan goal frames (pos + byteLength (quote :: body)) rest

/-- How a character is spelled between the quotes of a literal. -/
inductive Spelling (c : Char) : List Char → Prop where
  | short {e : Char} (stands : Json.shortEscape? e = some c) : Spelling c ['\\', e]
  | unit (control : c.toNat < 0x20) :
      Spelling c ['\\', 'u', '0', '0', hexDigit (c.toNat / 16), hexDigit (c.toNat % 16)]
  | plain (quote : c ≠ '"') (backslash : c ≠ '\\') (printable : 0x20 ≤ c.toNat) : Spelling c [c]

theorem spelling_escapeChar (c : Char) : Spelling c (escapeChar c) := by
  have short {n : Nat} {e : Char} (code : c.toNat = n) (stands : Json.shortEscape? e = some (Char.ofNat n)) :
      Spelling c ['\\', e] := by
    refine .short (stands.trans ?_)
    rw [← code, Char.ofNat_toNat]
  unfold escapeChar
  split
  · subst c
    exact .short rfl
  split
  · subst c
    exact .short rfl
  split
  · exact short ‹_› rfl
  split
  · exact short ‹_› rfl
  split
  · exact short ‹_› rfl
  split
  · exact short ‹_› rfl
  split
  · exact short ‹_› rfl
  split
  · exact .unit ‹_›
  · exact .plain ‹_› ‹_› (by omega)

theorem unit?_hexDigit {n : Nat} (control : n < 0x20) :
    Json.unit? '0' '0' (hexDigit (n / 16)) (hexDigit (n % 16)) = some n := by
  have all : ∀ n < 0x20, Json.unit? '0' '0' (hexDigit (n / 16)) (hexDigit (n % 16)) = some n := by decide
  exact all n control

theorem readString_malformed {e f g h read more} (malformed : Json.unit? e f g h = none) :
    Json.readString read ('\\' :: 'u' :: e :: f :: g :: h :: more) = none := by
  rw [Json.readString.eq_def]
  split <;> grind [Json.shortEscape?]

theorem scan_inside {goal start outer text} (plain : ∀ c ∈ text, c ≠ '"' ∧ c ≠ '\\' ∧ c ≠ '\n') (pos : Nat)
    (rest : List Char) : scan goal (.quoted '"' start :: outer) pos (text ++ rest) =
      scan goal (.quoted '"' start :: outer) (pos + byteLength text) rest := by
  induction text generalizing pos with
  | nil => rfl
  | cons c text ih =>
    obtain ⟨⟨quote, backslash, feed⟩, others⟩ := List.forall_mem_cons.1 plain
    have here : step goal (.quoted '"' start :: outer) pos c (text ++ rest) = .one (.quoted '"' start :: outer) := by
      simp [step, quotedStep, quote, backslash, feed]
    rw [List.cons_append, scan_one here, ih others, byteLength_cons, Nat.add_assoc]

section

variable {c : Char} {spelled : List Char} (spelling : Spelling c spelled)

include spelling

theorem Spelling.printable {d} (mem : d ∈ spelled) : 0x20 ≤ d.toNat := by
  cases spelling with
  | @short e stands =>
    rcases List.mem_cons.1 mem with rfl | mem
    · decide
    cases List.mem_singleton.1 mem
    unfold Json.shortEscape? at stands
    split at stands <;> first | decide | cases stands
  | unit control =>
    have all :
        ∀ n < 0x20, (['\\', 'u', '0', '0', hexDigit (n / 16), hexDigit (n % 16)].all (0x20 ≤ ·.toNat)) = true := by
      decide
    simpa using List.all_eq_true.1 (all _ control) d mem
  | plain quote backslash printable => exact List.mem_singleton.1 mem ▸ printable

theorem Spelling.readString (read rest : List Char) :
    Json.readString read (spelled ++ rest) = Json.readString (c :: read) rest := by
  cases spelling with
  | @short e stands =>
    have other : e ≠ 'u' := by
      rintro rfl
      cases stands
    simp only [List.cons_append, List.nil_append]
    rw [Json.readString, stands]
    · exact fun _ _ _ _ _ _ _ _ _ same => absurd same other
    · exact fun _ _ _ _ _ same => absurd same other
  | unit control =>
    have value := unit?_hexDigit control
    generalize hexDigit (c.toNat / 16) = x at value
    generalize hexDigit (c.toNat % 16) = y at value
    have half : (Json.isLeadSurrogate c.toNat || Json.isTrailSurrogate c.toNat) = false := by
      simp [Json.isLeadSurrogate, Json.isTrailSurrogate]
      omega
    simp only [List.cons_append, List.nil_append]
    by_cases pair : ∃ e f g h more, rest = '\\' :: 'u' :: e :: f :: g :: h :: more
    · obtain ⟨e, f, g, h, more, rfl⟩ := pair
      rw [Json.readString, value]
      cases next : Json.unit? e f g h with
      | none => exact (readString_malformed next).symm
      | some low =>
        simp only [Bool.or_eq_false_iff] at half
        simp [half, Char.ofNat_toNat]
    · rw [Json.readString, value]
      · simp [half, Char.ofNat_toNat]
      · exact fun e f g h more split => pair ⟨e, f, g, h, more, split⟩
  | plain quote backslash printable =>
    have shown : ¬(c = '\\' || c.toNat < 0x20) = true := by simp [backslash]; omega
    rw [List.singleton_append, Json.readString, if_neg shown]
    · exact quote
    · exact fun _ _ _ _ _ _ _ _ _ same => absurd same backslash
    · exact fun _ _ _ _ _ same => absurd same backslash
    · exact fun _ _ same => absurd same backslash

/-- A scan that is inside of a string stays there. -/
theorem Spelling.scan {goal start outer} (pos : Nat) (rest : List Char) :
    scan goal (.quoted '"' start :: outer) pos (spelled ++ rest) =
      scan goal (.quoted '"' start :: outer) (pos + byteLength spelled) rest := by
  cases spelling with
  | short stands =>
    refine (scan_two rfl).trans ?_
    simp [Nat.add_assoc]
  | unit control =>
    have digits : ∀ n < 0x20, (['0', '0', hexDigit (n / 16), hexDigit (n % 16)].all fun d =>
        d ≠ '"' ∧ d ≠ '\\' ∧ d ≠ '\n') = true := by decide
    have inside := fun d mem => of_decide_eq_true (List.all_eq_true.1 (digits _ control) d mem)
    refine (scan_two rfl).trans ((scan_inside inside _ rest).trans ?_)
    simp [Nat.add_assoc]
  | plain quote backslash printable =>
    have inside : ∀ d ∈ [c], d ≠ '"' ∧ d ≠ '\\' ∧ d ≠ '\n' := by
      rw [List.forall_mem_singleton]
      refine ⟨quote, backslash, ?_⟩
      rintro rfl
      exact absurd printable (by decide)
    exact scan_inside inside pos rest

end

theorem readString_escaped (text read rest : List Char) :
    Json.readString read (text.flatMap escapeChar ++ '"' :: rest) = some (read.reverse ++ text, rest) := by
  induction text generalizing read with
  | nil => simp [Json.readString]
  | cons c text ih => simp [(spelling_escapeChar c).readString, ih]

theorem scan_escaped {goal start outer} (text : List Char) (pos : Nat) (rest : List Char) :
    scan goal (.quoted '"' start :: outer) pos (text.flatMap escapeChar ++ '"' :: rest) =
      scan goal outer (pos + byteLength (text.flatMap escapeChar) + 1) rest := by
  induction text generalizing pos with
  | nil => exact scan_one (by simp [step, quotedStep])
  | cons c text ih =>
    rw [List.flatMap_cons, List.append_assoc, (spelling_escapeChar c).scan, ih, byteLength_append, Nat.add_assoc pos]

theorem parse?_quote (text : String) : Json.parse? (quote text) = some (.string text) := by
  have read : Json.readString [] (text.toList.flatMap escapeChar ++ ['"']) = some (text.toList, []) :=
    readString_escaped text.toList [] []
  have blanks : Json.skipBlanks (quoteList text.toList) = quoteList text.toList := rfl
  have value (fuel : Nat) : Json.readValue (fuel + 1) (quoteList text.toList) = some (.string text, []) := by
    rw [Json.readValue, blanks]
    simp [quoteList, read]
  rw [Json.parse?, quote, String.toList_ofList, value]
  rfl

theorem quote_injective {a b : String} (same : quote a = quote b) : a = b := by
  have read := parse?_quote a
  rw [same, parse?_quote] at read
  cases read
  rfl

theorem quote_not_identifier (text : String) : isIdentifier (quote text) = false := by
  rw [isIdentifier, quote, String.toList_ofList]
  rfl

theorem propertyKey_injective {a b : String} (same : propertyKey a = propertyKey b) : a = b := by
  unfold propertyKey at same
  split at same <;> split at same
  · exact same
  · rename_i identifier _
    rw [same, quote_not_identifier] at identifier
    cases identifier
  · rename_i identifier
    rw [← same, quote_not_identifier] at identifier
    cases identifier
  · exact quote_injective same

theorem quoteList_printable {text c} (mem : c ∈ quoteList text) : 0x20 ≤ c.toNat := by
  simp only [quoteList, List.cons_append, List.mem_cons, List.mem_append, List.mem_flatMap,
    List.not_mem_nil, or_false] at mem
  rcases mem with rfl | ⟨d, -, mem⟩ | rfl
  · decide
  · exact (spelling_escapeChar d).printable mem
  · decide

theorem quoteList_isString (text : List Char) : IsString (quoteList text) := by
  intro goal frames pos rest
  refine ⟨rfl, ?_⟩
  have length : byteLength (quoteList text) = 1 + byteLength (text.flatMap escapeChar) + 1 := by
    simp [quoteList, Nat.add_assoc]
    rfl
  have place : pos + byteLength (quoteList text) = pos + 1 + byteLength (text.flatMap escapeChar) + 1 := by omega
  have split : text.flatMap escapeChar ++ ['"'] ++ rest = text.flatMap escapeChar ++ '"' :: rest := by simp
  calc
    scan goal (.quoted '"' pos :: frames) (pos + 1) (text.flatMap escapeChar ++ ['"'] ++ rest)
      = scan goal frames (pos + 1 + byteLength (text.flatMap escapeChar) + 1) rest := by rw [split, scan_escaped]
    _ = scan goal frames (pos + byteLength (quoteList text)) rest := by rw [place]

/-- Nothing breaks out of a string literal: it has no control characters, reads back as its text and is one string to a
scan. So a key tells its name. -/
theorem quote_contained (text : String) :
    (∀ c ∈ (quote text).toList, 0x20 ≤ c.toNat) ∧ Json.parse? (quote text) = some (.string text) ∧
      IsString (quote text).toList ∧ Function.Injective propertyKey := by
  have shown : (quote text).toList = quoteList text.toList := String.toList_ofList
  rw [shown]
  exact ⟨fun _ => quoteList_printable, parse?_quote text, quoteList_isString _, fun _ _ => propertyKey_injective⟩

end ComponentCompiler.Text
