import ComponentCompiler.Script.Lexeme
import ComponentCompiler.Script.Tree

/-!
# Reading scripts

A `Read` moves over lexemes, looking at one of them at a time, or finds that the text is no script.
The readers of the grammar call each other in a circle. Each is written over a `Grammar`, the readers
for what is nested in it, and `Grammar.deep` ties the circle to a given depth.
-/

namespace ComponentCompiler.Script

open Text

structure Stream where
  current : Lexeme
  lastEnd : Nat
  deriving DecidableEq

abbrev Read := StateT Stream Option

namespace Read

def fail : Read α := fun _ => none

def require (condition : Bool) : Read Unit :=
  if condition then return () else fail

def lexeme : Read Lexeme := return (← get).current

def token : Read Token := return (← get).current.token

def newline : Read Bool := return (← get).current.newline

def start : Read Nat := return (← get).current.origin.pos

def spanFrom (first : Nat) : Read Span := return ⟨first, (← get).lastEnd⟩

def resume (c : Cursor) : Read Unit := do
  match Lexeme.read c with
  | some next => set (⟨next, c.pos⟩ : Stream)
  | none => fail

def advance : Read Unit := do resume (← lexeme).after

/-- What `read` finds; where it fails, nothing has been read. -/
def attempt (read : Read α) : Read (Option α) := fun s =>
  match read s with
  | some (a, s) => some (some a, s)
  | none => some (none, s)

def ahead (read : Read α) : Read (Option α) := fun s =>
  some ((read s).map (·.1), s)

def foresee (read : Read Bool) : Read Bool := return (← ahead read).getD false

/-- Runs `read` until it yields nothing. Every run that yields something moves on, so the text that
is left bounds their number. -/
def many (read : Read (Option α)) : Read (List α) := do
  go ((← lexeme).origin.rest.length + 1)
where
  go : Nat → Read (List α)
    | 0 => fail
    | n + 1 => do
      match ← read with
      | none => return []
      | some a => return a :: (← go n)

/-- Replaces a state by what `step` makes of it until that is nothing. -/
def iterate (step : α → Read (Option α)) (a : α) : Read α := do
  go ((← lexeme).origin.rest.length + 1) a
where
  go : Nat → α → Read α
    | 0, _ => fail
    | n + 1, a => do
      match ← step a with
      | none => return a
      | some a => go n a

def isMark (text : String) : Read Bool := return (← token) = .mark text

def isOneOf (texts : List String) : Read Bool := do
  match ← token with
  | .mark text => return texts.contains text
  | _ => return false

def accept (text : String) : Read Bool := do
  if ← isMark text then advance; return true else return false

def expect (text : String) : Read Unit := do
  if ← isMark text then advance else fail

def isWord (name : String) : Read Bool := return (← token) = .word name false

def acceptWord (name : String) : Read Bool := do
  if ← isWord name then advance; return true else return false

def expectWord (name : String) : Read Unit := do
  if ← isWord name then advance else fail

def plainWord? : Read (Option String) := do
  match ← token with
  | .word name false => return some name
  | _ => return none

def thenHas (read : Read Bool) : Read Bool := foresee do advance; read

def thenMark (text : String) : Read Bool := thenHas (isMark text)

/-- Passes the end of a statement: a semicolon, or a place where one may be left out. -/
def semicolon : Read Unit := do
  if ← accept ";" then return
  else if (← newline) || (← isMark "\x7d") || (← token) = .stop then return
  else fail

/-- Items with commas between them, up to `close`, which is passed. A comma may follow the last. -/
def listUntil (close : String) (item : Read α) : Read (List α) := do
  let items ← many do
    if ← isMark close then return none
    else
      let a ← item
      if !(← isMark close) then expect ","
      return some a
  expect close
  return items

def reservedWords : List String :=
  ["break", "case", "catch", "class", "const", "continue", "debugger", "default", "delete", "do",
    "else", "enum", "export", "extends", "false", "finally", "for", "function", "if", "import", "in",
    "instanceof", "new", "null", "return", "super", "switch", "this", "throw", "true", "try", "typeof",
    "var", "void", "while", "with"]

/-- Words that are no names in a module. -/
def strictWords : List String :=
  ["implements", "interface", "let", "package", "private", "protected", "public", "static", "yield",
    "await"]

def isReserved (name : String) : Bool := reservedWords.contains name

def isReference (name : String) : Bool := !isReserved name && !strictWords.contains name

def isBindable (name : String) : Bool :=
  isReference name && name ≠ "eval" && name ≠ "arguments"

def anyWord : Read String := do
  match ← token with
  | .word name _ => advance; return name
  | _ => fail

def unreserved : Read String := do
  let name ← anyWord
  require (!isReserved name)
  return name

def bindingName : Read String := do
  let name ← anyWord
  require (isBindable name)
  return name

def isUnreserved : Read Bool := do
  match ← token with
  | .word name _ => return !isReserved name
  | _ => return false

def isString : Read Bool := do
  match ← token with
  | .string _ => return true
  | _ => return false

def expectString : Read Unit := do
  if ← isString then advance else fail

end Read

structure Context where
  /-- Inside a function, so that `return` can stand here. -/
  inFunction : Bool := false
  /-- `await` can stand here. -/
  inAsync : Bool := true
  /-- `yield` can stand here. -/
  inGenerator : Bool := false
  /-- The operator `in` ends the expression. -/
  noIn : Bool := false
  /-- A colon ends the expression. -/
  colonEnds : Bool := false
  /-- Inside a `declare`, so that nothing needs a value. -/
  ambient : Bool := false
  breaks : Bool := false
  continues : Bool := false
  labels : List String := []
  /-- The type must not be conditional. -/
  plainType : Bool := false
  deriving DecidableEq

namespace Context

def ofFunction (isAsync isGenerator : Bool) : Context :=
  { inFunction := true, inAsync := isAsync, inGenerator := isGenerator }

/-- In brackets, where nothing of the text around ends an expression. -/
def bracketed (ctx : Context) : Context := { ctx with noIn := false, colonEnds := false }

def typed (ctx : Context) : Context := { ctx with plainType := false }

def looping (ctx : Context) : Context := { ctx with breaks := true, continues := true }

end Context

inductive Target where
  | no
  | simple
  /-- An object or array literal that takes a value apart. -/
  | pattern
  deriving DecidableEq

structure Operand where
  /-- The members, if it is an object literal. -/
  object : Option (List ObjectMember) := none
  target : Target := .no
  /-- An assignment to a target, which can stand for a target with a default. -/
  defaulted : Bool := false
  /-- A unary expression, which is no base of a power. -/
  isUnary : Bool := false
  isName : Bool := false
  /-- Part of an optional chain. -/
  optional : Bool := false

def Operand.isElement (o : Operand) : Bool := o.target ≠ .no || o.defaulted

inductive Statement where
  | returned (r : Returned)
  | declared (d : Declaration)
  | other

structure Grammar where
  type : Context → Read TypeNode
  /-- An expression without top-level commas. -/
  assignment : Context → Read Operand
  unary : Context → Read Operand
  constructor : Context → Read Operand
  binding : Context → Read Unit
  statement : Context → Read Statement
  item : Context → Read Item

end ComponentCompiler.Script
