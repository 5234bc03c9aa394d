import ComponentCompiler.Text.Cursor

/-!
# Lines and columns

A `LineTable` holds the byte offset of every line start of a text. Lines and columns count from 0;
a column is a number of bytes.
-/

namespace ComponentCompiler

structure LineCol where
  line : Nat
  col : Nat
  deriving DecidableEq, Repr

def LineCol.display (p : LineCol) : Nat × Nat := (p.line + 1, p.col + 1)

structure LineTable where
  starts : List Nat
  size : Nat
  deriving DecidableEq, Repr

namespace LineTable

/-- Offsets just past each line feed of a text that starts at `pos`. -/
def startsAfter (pos : Nat) : List Char → List Nat
  | [] => []
  | c :: cs =>
    if c = '\n' then (pos + 1) :: startsAfter (pos + 1) cs
    else startsAfter (pos + c.utf8Size) cs

def ofText (text : String) : LineTable :=
  ⟨0 :: startsAfter 0 text.toList, Text.byteLength text.toList⟩

def lineCount (t : LineTable) : Nat := t.starts.length

def lineStart? (t : LineTable) (line : Nat) : Option Nat := t.starts[line]?

/-- Position of a byte offset; offsets past the end count as the end. -/
def position (t : LineTable) (offset : Nat) : LineCol :=
  let o := min offset t.size
  let line := (t.starts.takeWhile (· ≤ o)).length - 1
  ⟨line, o - t.starts.getD line 0⟩

/-- Byte offset of a position, when the text has such a line and reaches that far. -/
def offset? (t : LineTable) (p : LineCol) : Option Nat :=
  match t.lineStart? p.line with
  | none => none
  | some start => if start + p.col ≤ t.size then some (start + p.col) else none

end LineTable

end ComponentCompiler
