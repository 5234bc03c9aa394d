import ComponentCompiler.Proofs.Text.Passage
import ComponentCompiler.Script.Lexeme

/-!
# Lexemes read on
-/

namespace ComponentCompiler.Script

open Text Text.Cursor

variable {c d : Cursor} {fuel : Nat}

theorem leads_behind (text : List Char) {rest} (starts : c.rest = text ++ rest) :
    c.Leads ⟨rest, c.pos + byteLength text⟩ := ⟨text, starts, rfl⟩

theorem commentEnd_leads {newline newline' pos text} (found : commentEnd newline pos text = some (d, newline')) :
    Leads ⟨text, pos⟩ d := by
  fun_induction commentEnd newline pos text with
  | case1 newline pos rest =>
    cases found
    exact leads_behind (c := ⟨'*' :: '/' :: rest, pos⟩) ['*', '/'] rfl
  | case2 newline pos x rest _ ih => exact (passes_cons x rest pos).leads.trans (ih found)
  | case3 => cases found

theorem skipSpace_leads {newline newline'} (found : skipSpace fuel newline c = some (d, newline')) : c.Leads d := by
  induction fuel generalizing newline c with
  | zero =>
    cases found
    exact .refl _
  | succ n ih =>
    unfold skipSpace at found
    split at found
    · exact (passes_dropWhile c _).leads.trans (ih found)
    · rename_i rest starts
      split at found
      · rename_i behind newline'' ended
        have comment : c.Leads ⟨rest, c.pos + 2⟩ := leads_behind ['/', '*'] starts
        exact comment.trans ((commentEnd_leads ended).trans (ih found))
      · cases found
    · split at found
      · exact (leads_next c).trans (ih found)
      · cases found
        exact .refl _
    · cases found
      exact .refl _

theorem unicodeEscape?_leads {code} (found : unicodeEscape? c = some (code, d)) : c.Leads d := by
  unfold unicodeEscape? at found
  split at found
  · dsimp only at found
    split at found
    · cases found
      exact (leads_next c).trans ((passes_dropWhile _ _).leads.trans (leads_next _))
    · cases found
  · dsimp only at found
    split at found
    · cases found
      exact (passes_skip c 4).leads
    · cases found
  · cases found

theorem escapeEnd?_leads (found : escapeEnd? c = some d) : c.Leads d := by
  unfold escapeEnd? at found
  split at found
  · split at found
    · cases found
      exact (passes_skip c 3).leads
    · cases found
  · obtain ⟨⟨code, after⟩, escape, rfl⟩ := Option.map_eq_some_iff.1 found
    exact (leads_next c).trans (unicodeEscape?_leads escape)
  · cases found
    exact (passes_skip c 2).leads
  · split at found
    · cases found
    · cases found
      exact leads_next c
  · split at found
    · cases found
    · cases found
      exact leads_next c
  · cases found

/-- A first letter that `accepts` takes, and more letters. -/
def Lettered (accepts : Char → Bool) (name : List Char) : Prop :=
  (∀ x ∈ name.head?, accepts x = true) ∧ ∀ x ∈ name.tail, isLetterPart x = true

theorem Lettered.cons {accepts : Char → Bool} {x name} (first : accepts x = true) (later : Lettered isLetterPart name) :
    Lettered accepts (x :: name) := by
  refine ⟨by simpa using first, ?_⟩
  cases name with
  | nil => simp
  | cons y name => exact List.forall_mem_cons.2 ⟨later.1 y rfl, later.2⟩

theorem wordEnd_leads {accepts : Char → Bool} {escaped escaped' name}
    (found : wordEnd fuel accepts escaped c = some (name, escaped', d)) : c.Leads d ∧ Lettered accepts name := by
  induction fuel generalizing accepts escaped escaped' name c with
  | zero => cases found
  | succ n ih =>
    have none : Lettered accepts [] := ⟨by simp, by simp⟩
    unfold wordEnd at found
    split at found
    · split at found
      · cases found
      · rename_i code after escape
        dsimp only at found
        split at found
        · obtain ⟨⟨name', escaped'', rest⟩, later, same⟩ := Option.map_eq_some_iff.1 found
          cases same
          refine ⟨?_, .cons ‹_› (ih later).2⟩
          exact (passes_skip c 2).leads.trans ((unicodeEscape?_leads escape).trans (ih later).1)
        · cases found
    · cases found
    · split at found
      · obtain ⟨⟨name', escaped'', rest⟩, later, same⟩ := Option.map_eq_some_iff.1 found
        cases same
        exact ⟨(leads_next c).trans (ih later).1, .cons ‹_› (ih later).2⟩
      · cases found
        exact ⟨.refl _, none⟩
    · cases found
      exact ⟨.refl _, none⟩

/-- A word is spelled with letters. -/
def Token.Spelled : Token → Prop
  | .word name _ => ∃ x rest, name.toList = x :: rest ∧ isLetterStart x = true ∧ ∀ y ∈ rest, isLetterPart y = true
  | _ => True

theorem word?_leads {name escaped} (found : word? c = some (name, escaped, d)) :
    c.Leads d ∧ (Token.word name escaped).Spelled := by
  unfold word? at found
  split at found
  · rename_i x rest _ _ ended
    cases found
    obtain ⟨leads, first, others⟩ := wordEnd_leads ended
    exact ⟨leads, x, rest, String.toList_ofList, first x rfl, others⟩
  · cases found

theorem digitsEnd?_leads {isDigit : Char → Bool} (found : digitsEnd? isDigit c = some d) : c.Leads d := by
  unfold digitsEnd? at found
  dsimp only at found
  split at found
  · cases found
    exact (passes_dropWhile c _).leads
  · cases found

theorem exponentEnd?_leads (found : exponentEnd? c = some d) : c.Leads d := by
  have signed (s : Char) : c.Leads (if (decide (s = '+') || decide (s = '-')) = true then c.skip 2 else c.next) := by
    split
    · exact (passes_skip c 2).leads
    · exact leads_next c
  unfold exponentEnd? at found
  split at found
  · exact (signed _).trans (digitsEnd?_leads found)
  · exact (signed _).trans (digitsEnd?_leads found)
  · cases found
  · cases found
  · cases found
    exact .refl c

theorem numberStop_leads {token token'} (found : numberStop token c = some (token', d)) (plain : token.Spelled) :
    c.Leads d ∧ token'.Spelled := by
  unfold numberStop at found
  split at found
  · split at found
    · cases found
    · cases found
      exact ⟨.refl c, plain⟩
  · cases found
    exact ⟨.refl c, plain⟩

theorem integerStop_leads {token} (found : integerStop c = some (token, d)) : c.Leads d ∧ token.Spelled := by
  unfold integerStop at found
  split at found
  · exact (numberStop_leads found trivial).imp_left (leads_next c).trans
  · exact numberStop_leads found trivial

theorem fractionStop_leads {token} (found : fractionStop c = some (token, d)) : c.Leads d ∧ token.Spelled := by
  have ending {digits : Cursor} (found : (exponentEnd? digits).bind (numberStop .number) = some (token, d)) :
      digits.Leads d ∧ token.Spelled := by
    obtain ⟨stop, exponent, found⟩ := Option.bind_eq_some_iff.1 found
    exact (numberStop_leads found trivial).imp_left (exponentEnd?_leads exponent).trans
  unfold fractionStop at found
  split at found
  · dsimp only at found
    split at found
    · obtain ⟨digits, fraction, found⟩ := Option.bind_eq_some_iff.1 found
      exact (ending found).imp_left ((leads_next c).trans (digitsEnd?_leads fraction)).trans
    · exact (ending found).imp_left (leads_next c).trans
  · exact (numberStop_leads found trivial).imp_left (leads_next c).trans
  · exact (numberStop_leads found trivial).imp_left (leads_next c).trans
  · exact ending found

theorem number?_leads {token} (found : number? c = some (token, d)) : c.Leads d ∧ token.Spelled := by
  have radix {isDigit : Char → Bool} (found : (digitsEnd? isDigit (c.skip 2)).bind integerStop = some (token, d)) :
      c.Leads d ∧ token.Spelled := by
    obtain ⟨stop, digits, found⟩ := Option.bind_eq_some_iff.1 found
    exact (integerStop_leads found).imp_left ((passes_skip c 2).leads.trans (digitsEnd?_leads digits)).trans
  unfold number? at found
  split at found
  · exact radix found
  · exact radix found
  · exact radix found
  · exact radix found
  · exact radix found
  · exact radix found
  · split at found
    · cases found
    · exact (fractionStop_leads found).imp_left (leads_next c).trans
  · obtain ⟨digits, fraction, found⟩ := Option.bind_eq_some_iff.1 found
    obtain ⟨stop, exponent, found⟩ := Option.bind_eq_some_iff.1 found
    refine (numberStop_leads found trivial).imp_left fun stops => ?_
    exact (leads_next c).trans ((digitsEnd?_leads fraction).trans ((exponentEnd?_leads exponent).trans stops))
  · obtain ⟨digits, whole, found⟩ := Option.bind_eq_some_iff.1 found
    exact (fractionStop_leads found).imp_left (digitsEnd?_leads whole).trans

theorem stringEnd_leads {quote} (found : stringEnd fuel quote c = some d) : c.Leads d := by
  induction fuel generalizing c with
  | zero => cases found
  | succ n ih =>
    unfold stringEnd at found
    split at found
    · cases found
    · cases found
    · cases found
    · split at found
      · rename_i escape
        exact (leads_next c).trans ((escapeEnd?_leads escape).trans (ih found))
      · cases found
    · split at found
      · cases found
        exact leads_next c
      · exact (leads_next c).trans (ih found)

theorem string?_leads {quote token} (found : string? quote c = some (token, d)) : c.Leads d ∧ token.Spelled := by
  obtain ⟨after, ended, same⟩ := Option.bind_eq_some_iff.1 found
  cases same
  exact ⟨(leads_next c).trans (stringEnd_leads ended), trivial⟩

theorem partEnd_leads {tagged kind} (found : partEnd fuel tagged c = some (kind, d)) : c.Leads d := by
  induction fuel generalizing c with
  | zero => cases found
  | succ n ih =>
    unfold partEnd at found
    split at found
    · cases found
    · cases found
      exact leads_next c
    · cases found
      exact (passes_skip c 2).leads
    · split at found
      · rename_i after escape
        have passed : c.Leads after := by
          split at escape
          · cases escape
            exact (passes_skip c 2).leads
          · exact (leads_next c).trans (escapeEnd?_leads escape)
        exact passed.trans (ih found)
      · cases found
    · exact (leads_next c).trans (ih found)

theorem patternEnd_leads {inClass} (found : patternEnd fuel inClass c = some d) : c.Leads d := by
  induction fuel generalizing c inClass with
  | zero => cases found
  | succ n ih =>
    unfold patternEnd at found
    split at found
    · cases found
    · split at found
      · cases found
      · exact (passes_skip c 2).leads.trans (ih found)
    · split at found
      · cases found
      split at found
      · cases found
        exact leads_next c
      · exact (leads_next c).trans (ih found)

theorem regexEnd?_leads (found : regexEnd? c = some d) : c.Leads d := by
  obtain ⟨after, pattern, found⟩ := Option.bind_eq_some_iff.1 found
  have passed := (leads_next c).trans (patternEnd_leads pattern)
  dsimp only at found
  split at found
  · cases found
    exact passed.trans (passes_dropWhile after _).leads
  · cases found

theorem mark?_leads {token} (found : mark? c = some (token, d)) : c.Leads d ∧ token.Spelled := by
  unfold mark? at found
  split at found
  · cases found
    exact ⟨(passes_skip c _).leads, trivial⟩
  · split at found
    · split at found
      · cases found
        exact ⟨leads_next c, trivial⟩
      · cases found
    · cases found

theorem token?_leads {token} (found : token? c = some (token, d)) : c.Leads d ∧ token.Spelled := by
  unfold token? at found
  split at found
  · cases found
    exact ⟨.refl c, trivial⟩
  · exact string?_leads found
  · exact string?_leads found
  · cases found
    exact ⟨leads_next c, trivial⟩
  · obtain ⟨⟨name, escaped, after⟩, word, same⟩ := Option.map_eq_some_iff.1 found
    cases same
    exact ⟨(leads_next c).trans (word?_leads word).1, trivial⟩
  · split at found
    · exact number?_leads found
    · exact mark?_leads found
  · split at found
    · exact number?_leads found
    split at found
    · obtain ⟨⟨name, escaped, after⟩, word, same⟩ := Option.map_eq_some_iff.1 found
      cases same
      exact word?_leads word
    · exact mark?_leads found

theorem Lexeme.read_leads {next} (found : Lexeme.read c = some next) :
    c.Leads next.origin ∧ next.origin.Leads next.after ∧ next.token.Spelled := by
  unfold Lexeme.read at found
  split at found
  · cases found
  · rename_i origin newline space
    obtain ⟨⟨token, after⟩, read, rfl⟩ := Option.map_eq_some_iff.1 found
    exact ⟨skipSpace_leads space, token?_leads read⟩

theorem Lexeme.read_word {l name escaped} (found : Lexeme.read c = some l) (word : l.token = .word name escaped) :
    ∃ x rest, name.toList = x :: rest ∧ isLetterStart x = true ∧ ∀ y ∈ rest, isLetterPart y = true := by
  have spelled := (read_leads found).2.2
  rwa [word] at spelled

end ComponentCompiler.Script
