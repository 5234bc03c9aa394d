import ComponentCompiler.Text.Blank

/-!
# Reading position

A `Cursor` holds the characters still to be read and the byte offset, in the UTF-8 text of the
whole file, of the first of them. Every reading step keeps the two in step.
-/

namespace ComponentCompiler.Text

def byteLength : List Char → Nat
  | [] => 0
  | c :: cs => c.utf8Size + byteLength cs

@[simp] theorem byteLength_nil : byteLength [] = 0 := rfl

@[simp] theorem byteLength_cons (c : Char) (cs : List Char) :
    byteLength (c :: cs) = c.utf8Size + byteLength cs := rfl

@[simp] theorem byteLength_append (a b : List Char) :
    byteLength (a ++ b) = byteLength a + byteLength b := by
  induction a with
  | nil => simp
  | cons c cs ih => simp [ih, Nat.add_assoc]

structure Cursor where
  rest : List Char
  pos : Nat
  deriving DecidableEq, Repr

namespace Cursor

def start (text : String) (base : Nat) : Cursor :=
  ⟨text.toList, base⟩

def peek? (c : Cursor) : Option Char :=
  c.rest.head?

def next (c : Cursor) : Cursor :=
  match c.rest with
  | [] => c
  | x :: xs => ⟨xs, c.pos + x.utf8Size⟩

def skip (c : Cursor) (n : Nat) : Cursor :=
  ⟨c.rest.drop n, c.pos + byteLength (c.rest.take n)⟩

def skipLiteral? (c : Cursor) (literal : List Char) : Option Cursor :=
  if literal.isPrefixOf c.rest then some (c.skip literal.length) else none

def takeWhile (c : Cursor) (p : Char → Bool) : List Char :=
  c.rest.takeWhile p

def dropWhile (c : Cursor) (p : Char → Bool) : Cursor :=
  ⟨c.rest.dropWhile p, c.pos + byteLength (c.rest.takeWhile p)⟩

/-- The characters between `c` and the later position `d` of the same text. -/
def upTo (c d : Cursor) : List Char :=
  c.rest.take (c.rest.length - d.rest.length)

/-- At the end of the text, or before a line feed with or without a carriage return. -/
def atLineEnd (c : Cursor) : Bool :=
  match c.rest with
  | [] | ['\r'] | '\n' :: _ | '\r' :: '\n' :: _ => true
  | _ => false

def skipLine (c : Cursor) : Cursor :=
  (c.dropWhile (· ≠ '\n')).next

end Cursor

end ComponentCompiler.Text
