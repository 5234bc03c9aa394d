import ComponentCompiler.Position.Span
import ComponentCompiler.Text.Cursor
import ComponentCompiler.Text.Identifier

/-!
# Section markers

A marker is a line `#! name` or `#! name lang="value"`, with blanks between the parts and
possibly at the end, before an optional carriage return. The value runs to the next quote.
-/

namespace ComponentCompiler

open Text

structure Marker where
  name : String
  lang : Option String
  deriving DecidableEq, Repr

namespace Marker

/-- Blanks and `lang="value"`: the value, and the position after it. -/
def readLang? (c : Cursor) : Option (String × Cursor) :=
  if (c.takeWhile isInlineBlank).isEmpty then none
  else
    match (c.dropWhile isInlineBlank).skipLiteral? "lang=\"".toList with
    | none => none
    | some value =>
      let stop := value.dropWhile (· ≠ '"')
      if stop.rest.isEmpty then none
      else some (String.ofList (value.takeWhile (· ≠ '"')), stop.next)

/-- Blanks and an optional carriage return up to the end of the line. -/
def readLineEnd? (c : Cursor) : Option Cursor :=
  let c := c.dropWhile isInlineBlank
  let c := (c.skipLiteral? ['\r']).getD c
  match c.rest with
  | [] | '\n' :: _ => some c
  | _ => none

/-- The marker that starts here, and the end of its line. -/
def read? (c : Cursor) : Option (Marker × Cursor) :=
  match c.skipLiteral? "#!".toList with
  | none => none
  | some c =>
    let c := c.dropWhile isInlineBlank
    if c.peek?.any isNameStart then
      let name := String.ofList (c.takeWhile isNamePart)
      let c := c.dropWhile isNamePart
      match readLang? c with
      | some (lang, c) => (readLineEnd? c).map fun stop => (⟨name, some lang⟩, stop)
      | none => (readLineEnd? c).map fun stop => (⟨name, none⟩, stop)
    else none

structure Found where
  marker : Marker
  start : Cursor
  stop : Cursor
  deriving DecidableEq, Repr

def Found.body (m : Found) : Cursor := m.stop.next

def Found.span (m : Found) : Span := ⟨m.start.pos, m.stop.pos⟩

/-- The markers from the line start `c` on. -/
def findAll (c : Cursor) : List Found :=
  go (c.rest.length + 1) c
where
  /-- Every step passes a line, so the length of the text bounds their number. -/
  go : Nat → Cursor → List Found
    | 0, _ => []
    | n + 1, c =>
      if c.rest.isEmpty then []
      else
        match read? c with
        | some (marker, stop) => ⟨marker, c, stop⟩ :: go n stop.next
        | none => go n c.skipLine

end Marker

end ComponentCompiler
