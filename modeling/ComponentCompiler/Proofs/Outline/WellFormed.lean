import ComponentCompiler.Proofs.Brackets.Pass
import ComponentCompiler.Template.Outline.Parse

/-!
# What can be read

`Item.WellFormed` says what the parts of an outline are made of.
-/

namespace ComponentCompiler.Template

open Text

/-- Code as it is cut out before `close`. It is cut out again when `behind` and `close` follow it. -/
structure Code.Cut (close behind : List Char) (code : Code) : Prop where
  trimmed : trim code.text.toList = code.text.toList
  bare : code.isBare = isIdentifierList code.text.toList
  kept : Balanced.Kept close behind code.text.toList

abbrev Code.Bracketed (close : Char) (code : Code) : Prop := code.Cut [close] ['\n']

structure Code.Interpolated (code : Code) : Prop extends code.Cut ['}', '}'] [' '] where
  some : code.text.toList ≠ []
  whole : '\n' ∉ code.text.toList

def Fragment.Interpolates : Fragment → Prop
  | .static _ => False
  | .dynamic code | .reactive code => code.Interpolated

namespace Outline

structure Named (first part : Char → Bool) (text : String) : Prop where
  start : text.toList.head?.any first = true
  parts : ∀ c ∈ text.toList, part c = true

abbrev IsName (text : String) : Prop := Named isNameStart isNamePart text

def endsLone (text : List Char) : Prop :=
  text.getLast? = some '{' ∧ text.dropLast.getLast? ≠ some '{'

/-- A line of text: fixed text does not stand side by side, and a single brace not before code; no blank
ends the line. -/
def IsTextLine : List Fragment → Prop
  | [] => True
  | .static text :: rest =>
    text.toList ≠ [] ∧ '\n' ∉ text.toList ∧
    (match rest with
      | [] => trimEnd text.toList = text.toList
      | next :: _ => next.isStatic = false ∧ ¬endsLone text.toList) ∧
    IsTextLine rest
  | fragment :: rest => fragment.Interpolates ∧ IsTextLine rest

/-- The text of a string literal: line feeds stand behind backslashes only. -/
inductive IsStringText : List Char → Prop where
  | nil : IsStringText []
  | feed {rest} (h : IsStringText rest) : IsStringText ('\\' :: '\n' :: rest)
  | cons {c rest} (inside : c ≠ '\n') (h : IsStringText rest) : IsStringText (c :: rest)

def Value.WellFormed : Value → Prop
  | .text content _ => IsStringText content.toList
  | .code c => c.Bracketed '}'

/-- A receiver has its kind in place of a name. -/
structure Attribute.WellFormed (a : Attribute) : Prop where
  name : match a.sigil with
    | .receiver kind => IsName kind ∧ a.name = "" ∧ a.modifiers = []
    | _ => IsName a.name ∧ ∀ m ∈ a.modifiers, IsName m.1
  value : ∀ v ∈ a.value, v.WellFormed

def Shorthand.WellFormed : Shorthand → Prop
  | .id name _ => IsName name
  | .className (.static name) _ => Named isNamePart isNamePart name
  | .className (.dynamic code) _ | .className (.reactive code) _ => code.Bracketed '}'

structure Header.WellFormed (first part : Char → Bool) (h : Header) : Prop where
  name : Named first part h.name
  shorthands : ∀ s ∈ h.shorthands, s.WellFormed
  attributes : ∀ a ∈ h.attributes, a.WellFormed

structure Directive.WellFormed (d : Directive) : Prop where
  name : IsName d.name
  argument : ∀ code ∈ d.argument, code.Bracketed ')'

def isTagStart (c : Char) : Bool := 'a' ≤ c && c ≤ 'z'

def isComponentStart (c : Char) : Bool := 'A' ≤ c && c ≤ 'Z'

inductive Item.WellFormed : Item → Prop where
  | tag {header children span} (line : header.WellFormed isTagStart isNamePart)
      (below : ∀ i ∈ children, i.WellFormed) : WellFormed (.tag header children span)
  | component {header children span} (line : header.WellFormed isComponentStart isWordPart)
      (below : ∀ i ∈ children, i.WellFormed) : WellFormed (.component header children span)
  | text {items span} (line : IsTextLine items) : WellFormed (.text items span)
  | directive {d children span} (line : d.WellFormed) (below : ∀ i ∈ children, i.WellFormed)
      (blockless : isBlockless d.name = true → children = []) : WellFormed (.directive d children span)

theorem named_takeWhile {first part : Char → Bool} {text : List Char} (start : text.head?.any first = true)
    (inside : ∀ c, first c = true → part c = true) :
    Named first part (String.ofList (text.takeWhile part)) := by
  cases text with
  | nil => cases start
  | cons x text =>
    have taken : (x :: text).takeWhile part = x :: text.takeWhile part :=
      List.takeWhile_cons_of_pos (inside x start)
    refine ⟨?_, ?_⟩
    · rw [String.toList_ofList, taken]
      exact start
    · rw [String.toList_ofList]
      exact List.all_eq_true.1 List.all_takeWhile

theorem named_of_parts {part : Char → Bool} {text} (some : text ≠ []) (parts : ∀ c ∈ text, part c = true) :
    Named part part (String.ofList text) := by
  obtain ⟨x, text, rfl⟩ := List.exists_cons_of_ne_nil some
  refine ⟨?_, ?_⟩
  · rw [String.toList_ofList]
    exact parts x List.mem_cons_self
  · rw [String.toList_ofList]
    exact parts

theorem isNamePart_of_start (x : Char) (h : isNameStart x = true) : isNamePart x = true := by
  simp only [isNameStart, isNamePart, isAsciiAlphanumeric, Bool.or_eq_true] at h ⊢
  rcases h with letter | underscore
  · exact .inl (.inl (.inl letter))
  · exact .inl (.inr underscore)

theorem upTo_append {a b : Cursor} {passed} (split : a.rest = passed ++ b.rest) : a.upTo b = passed := by
  simp [Cursor.upTo, split]

theorem ofList_cut {goal behind inner stop x more span} (closing : Balanced.isClosing x = true)
    (close : goal.close = x :: more) (found : Balanced.find goal inner = .ok stop) (blank : allBlank behind = true)
    (ends : '\n' ∈ inner.upTo stop → '\n' ∈ behind) :
    (Code.ofList (inner.upTo stop) span).Cut (x :: more) behind := by
  obtain ⟨passed, split, kept⟩ := Balanced.kept_of_found closing close found
  rw [upTo_append split] at ends ⊢
  refine ⟨?_, ?_, ?_⟩
  · simp [Code.ofList]
  · simp [Code.ofList]
  · simpa [Code.ofList] using kept behind blank ends

theorem ofList_identifier {text span} (parts : ∀ c ∈ text, isIdentifierPart c = true) :
    (Code.ofList text span).Bracketed '}' := by
  have inner : ∀ c ∈ trim text, isIdentifierPart c = true := fun c mem => parts c (mem_of_mem_trim mem)
  refine ⟨?_, ?_, ?_⟩
  · simp [Code.ofList]
  · simp [Code.ofList]
  · simpa [Code.ofList] using Balanced.kept_of_identifier rfl inner rfl

def startsCode : List TextStep → Bool
  | .code _ :: _ => true
  | _ => false

/-- Steps through a line: no single brace stands before code. -/
def StepsFit : List TextStep → Prop
  | [] => True
  | .code fragment :: rest => fragment.Interpolates ∧ StepsFit rest
  | .chars text :: rest =>
    text ≠ [] ∧ '\n' ∉ text ∧ (startsCode rest = true → ∀ run, ¬endsLone (run ++ text)) ∧ StepsFit rest

theorem not_endsLone_append {run text x} (last : text.getLast? = some x)
    (apart : x ≠ '{') : ¬endsLone (run ++ text)  := by
  rintro ⟨brace, -⟩
  rw [List.getLast?_append, last] at brace
  exact apart (Option.some.inj brace)

theorem not_endsLone_pair (run : List Char) : ¬endsLone (run ++ ['{', '{']) := by
  rintro ⟨-, single⟩
  simp [List.dropLast_append_of_ne_nil] at single

theorem gather_isTextLine {run steps} (fit : StepsFit steps) (whole : '\n' ∉ run)
    (apart : startsCode steps = true → ¬endsLone run) : IsTextLine (gather run steps) := by
  induction steps generalizing run with
  | nil =>
    unfold gather
    dsimp only
    split
    · trivial
    · rename_i some
      obtain ⟨b, split, -⟩ := exists_trimEnd_append run
      have inside : '\n' ∉ trimEnd run := fun mem => whole (by rw [split]; simp [mem])
      simpa [IsTextLine, inside] using some
  | cons step rest ih =>
    cases step with
    | chars text =>
      obtain ⟨-, unbroken, single, fits⟩ := fit
      refine ih fits ?_ fun starts => single starts run
      simp [whole, unbroken]
    | code f =>
      obtain ⟨interpolates, fits⟩ := fit
      have later : IsTextLine (gather [] rest) := ih fits (by simp) fun _ => by simp [endsLone]
      have line : IsTextLine (f :: gather [] rest) := by
        cases f with
        | static text => cases interpolates
        | dynamic code | reactive code => exact ⟨interpolates, later⟩
      unfold gather
      split
      · exact line
      · rename_i some
        refine ⟨by simpa using some, by simpa using whole, ⟨?_, by simpa using apart rfl⟩, line⟩
        cases f with
        | static text => cases interpolates
        | dynamic code | reactive code => rfl

theorem isNamePart_of_tagStart (c : Char) (h : isTagStart c = true) : isNamePart c = true := by
  simp_all [isTagStart, isNamePart, isAsciiAlphanumeric, isAsciiLetter]

theorem isWordPart_of_componentStart (c : Char) (h : isComponentStart c = true) : isWordPart c = true := by
  simp_all [isComponentStart, isWordPart, isAsciiAlphanumeric, isAsciiLetter]

end Outline

end ComponentCompiler.Template
