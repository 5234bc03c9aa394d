import ComponentCompiler.Program.Module

/-!
# Words of generated lines

The words of a text are its longest runs of identifier characters.
-/

namespace ComponentCompiler

namespace Text

def words (text : List Char) : List String :=
  ((text.splitOnP fun c => !isIdentifierPart c).filter (· ≠ [])).map String.ofList

def EndsApart (text : List Char) : Prop := ∀ c ∈ text.getLast?, isIdentifierPart c = false

theorem words_append_cons {c} (apart : isIdentifierPart c = false) (a b : List Char) :
    words (a ++ c :: b) = words a ++ words b := by
  unfold words
  rw [List.splitOnP_append_cons a b (by rw [apart]; rfl), List.filter_append, List.map_append]

theorem words_cons {c} (apart : isIdentifierPart c = false) (text : List Char) : words (c :: text) = words text :=
  words_append_cons apart [] text

theorem words_append_of_endsApart {a} (ends : EndsApart a) (b : List Char) : words (a ++ b) = words a ++ words b := by
  rcases List.eq_nil_or_concat a with rfl | ⟨before, c, rfl⟩
  · rfl
  · have apart : isIdentifierPart c = false := ends c (by simp)
    have alone : words (before ++ [c]) = words before := by
      rw [words_append_cons apart, show words [] = [] from rfl, List.append_nil]
    rw [List.concat_eq_append, List.append_assoc, List.singleton_append, words_append_cons apart, alone]

theorem words_identifier {text} (parts : ∀ c ∈ text, isIdentifierPart c = true) (some : text ≠ []) :
    words text = [String.ofList text] := by
  have single : text.splitOnP (fun c => !isIdentifierPart c) = [text] :=
    List.splitOnP_eq_singleton fun c mem => by rw [parts c mem]; rfl
  rw [words, single, List.filter_cons_of_pos (by simpa using some)]
  rfl

end Text

namespace Program

open Template Text
open Text.Writer (Step)

namespace Helper

def all : List Helper :=
  [createElement, createElementClass, createElementClasses, createElementReactiveClasses, createTextNode, effect,
    rangeEffect, contentEffect, bindProperty, fakeImmutable, fakeInitial, fakeMutable, exhaustive, noop, emptyObject]

def ofName? (name : String) : Option Helper := all.find? (·.name = name)

theorem ofName?_name (h : Helper) : ofName? h.name = some h := by
  cases h <;> decide +kernel

theorem name_of_ofName? {name h} (found : ofName? name = some h) : h.name = name := by
  simpa using List.find?_some found

theorem ofName?_underscore (rest : List Char) : ofName? (String.ofList ('_' :: rest)) = none := by
  refine List.find?_eq_none.2 fun h _ => ?_
  simp only [decide_eq_true_eq]
  intro same
  have first := congrArg String.toList same
  rw [String.toList_ofList] at first
  cases h <;> cases first

end Helper

/-- What the generator itself writes for a piece. What comes from the template or the script is a blank. -/
def Piece.own : Piece → List Char
  | .fixed text => text.toList
  | .helper h => h.name.toList
  | .declare t => t.name.toList
  | .node n => n.name.toList
  | .name _ | .code _ | .callee _ | .quoted _ | .key _ | .content _ => [' ']

namespace Line

def own (line : Line) : List Char := line.flatMap Piece.own

def RefersTo (line : Line) (h : Helper) : Prop := h.name ∈ words line.own

end Line

/-- No word goes on from before the piece into it. -/
def Piece.opensApart : Piece → Bool
  | .fixed text => text.toList.head?.any (!isIdentifierPart ·)
  | .helper _ | .declare _ | .node _ => false
  | _ => true

def Piece.closesApart : Piece → Bool
  | .fixed text => text.toList.getLast?.any (!isIdentifierPart ·)
  | .helper _ | .declare _ | .node _ => false
  | _ => true

/-- Fixed text names no helper. -/
def Piece.isTidy : Piece → Bool
  | .fixed text => (words text.toList).all fun w => (Helper.ofName? w).isNone
  | _ => true

section

variable {p : Piece} {apart : Bool} {text : List Char}

theorem words_own_append (fits : apart = true → EndsApart text) (opens : (apart || p.opensApart) = true) :
    words (text ++ p.own) = words text ++ words p.own := by
  rcases Bool.or_eq_true_iff.1 opens with before | here
  · exact words_append_of_endsApart (fits before) _
  · have first : ∃ c rest, p.own = c :: rest ∧ isIdentifierPart c = false := by
      cases p with
      | fixed t =>
        obtain ⟨c, found, other⟩ := (Option.any_eq_true _ _).1 here
        obtain ⟨rest, split⟩ := List.head?_eq_some_iff.1 found
        exact ⟨c, rest, split, by simpa using other⟩
      | helper | declare | node => cases here
      | name | code | callee | quoted | key | content => exact ⟨' ', [], rfl, by decide⟩
    obtain ⟨c, rest, split, other⟩ := first
    rw [split, words_append_cons other, words_cons other]

theorem endsApart_own (closes : p.closesApart = true) (text : List Char) : EndsApart (text ++ p.own) := by
  have last : ∃ c, p.own.getLast? = some c ∧ isIdentifierPart c = false := by
    cases p with
    | fixed t =>
      obtain ⟨c, found, other⟩ := (Option.any_eq_true _ _).1 closes
      exact ⟨c, found, by simpa using other⟩
    | helper | declare | node => cases closes
    | name | code | callee | quoted | key | content => exact ⟨' ', rfl, by decide⟩
  obtain ⟨c, found, other⟩ := last
  intro d mem
  rw [List.getLast?_append, found, Option.some_or] at mem
  cases mem
  exact other

end

end Program

end ComponentCompiler
