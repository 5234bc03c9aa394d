import ComponentCompiler.Template.ParseError

/-!
# Balanced code

`Balanced.scan` finds where embedded code ends: at the first closing text that stands outside every
bracket, string, template literal and comment.
-/

namespace ComponentCompiler.Template.Balanced

open Text

inductive Frame where
  /-- A bracket that `close` closes. -/
  | bracket (close : Char)
  | template
  /-- A string between `quote`s that started at `start`. -/
  | quoted (quote : Char) (start : Nat)
  /-- A comment that ends before the next line feed. -/
  | lineComment
  /-- A comment that started at `start` and ends with a star and a slash. -/
  | blockComment (start : Nat)
  deriving DecidableEq, Repr

/-- What the scan looks for, and what it reports when the text ends first. -/
structure Goal where
  close : List Char
  what : Construct
  /-- From the opening mark to the start of the code. -/
  opening : Span
  deriving DecidableEq, Repr

inductive Step where
  /-- The closing text is here. -/
  | stop
  /-- Past one character, into the given frames. -/
  | one (frames : List Frame)
  /-- Past two characters. -/
  | two (frames : List Frame)
  | fail (error : ParseError)
  deriving DecidableEq, Repr

def closing? (c : Char) : Option Char :=
  if c = '(' then some ')'
  else if c = '[' then some ']'
  else if c = '{' then some '}'
  else none

def isClosing (c : Char) : Bool :=
  c = ')' || c = ']' || c = '}'

/-- A closing bracket must match the innermost open one; outside all of them it should have been the
closing text. -/
def closeStep (goal : Goal) (frames : List Frame) (pos : Nat) (c : Char) : Step :=
  match frames with
  | .bracket expected :: outer =>
    if expected = c then .one outer else .fail (.mismatchedBracket expected c ⟨pos, pos + 1⟩)
  | _ => .fail (.mismatchedBracket (goal.close.headD ')') c ⟨pos, pos + 1⟩)

def codeStep (goal : Goal) (frames : List Frame) (pos : Nat) (c : Char) (next : Option Char) :
    Step :=
  if c = '/' && next = some '/' then .two (.lineComment :: frames)
  else if c = '/' && next = some '*' then .two (.blockComment pos :: frames)
  else if c = '\'' || c = '"' then .one (.quoted c pos :: frames)
  else if c = '`' then .one (.template :: frames)
  else if isClosing c then closeStep goal frames pos c
  else
    match closing? c with
    | some close => .one (.bracket close :: frames)
    | none => .one frames

def templateStep (outer : List Frame) (c : Char) (next : Option Char) : Step :=
  if c = '\\' && next.isSome then .two (.template :: outer)
  else if c = '`' then .one outer
  else if c = '$' && next = some '{' then .two (.bracket '}' :: .template :: outer)
  else .one (.template :: outer)

def quotedStep (quote : Char) (start : Nat) (outer : List Frame) (pos : Nat) (c : Char)
    (next : Option Char) : Step :=
  if c = '\\' && next.isSome then .two (.quoted quote start :: outer)
  else if c = '\n' then .fail (.unterminated .stringLiteral ⟨start, pos⟩)
  else if c = quote then .one outer
  else .one (.quoted quote start :: outer)

def step (goal : Goal) (frames : List Frame) (pos : Nat) (c : Char) (rest : List Char) : Step :=
  match frames with
  | [] => if goal.close.isPrefixOf (c :: rest) then .stop else codeStep goal [] pos c rest.head?
  | .bracket close :: outer => codeStep goal (.bracket close :: outer) pos c rest.head?
  | .template :: outer => templateStep outer c rest.head?
  | .quoted quote start :: outer => quotedStep quote start outer pos c rest.head?
  | .lineComment :: outer => if c = '\n' then .one outer else .one (.lineComment :: outer)
  | .blockComment start :: outer =>
    if c = '*' && rest.head? = some '/' then .two outer else .one (.blockComment start :: outer)

def atEnd (goal : Goal) (frames : List Frame) (pos : Nat) : ParseError :=
  match frames with
  | .quoted _ start :: _ => .unterminated .stringLiteral ⟨start, pos⟩
  | .blockComment start :: _ => .unterminated .comment ⟨start, pos⟩
  | _ => .unterminated goal.what goal.opening

/-- Scans a text that starts at offset `pos` inside the open `frames`, innermost first. Yields the
place of the closing text. -/
def scan (goal : Goal) : List Frame → Nat → List Char → Except ParseError Cursor
  | frames, pos, [] => .error (atEnd goal frames pos)
  | frames, pos, c :: rest =>
    match step goal frames pos c rest, rest with
    | .stop, _ => .ok ⟨c :: rest, pos⟩
    | .fail error, _ => .error error
    | .one frames, rest => scan goal frames (pos + c.utf8Size) rest
    | .two frames, d :: rest => scan goal frames (pos + c.utf8Size + d.utf8Size) rest
    | .two frames, [] => .error (atEnd goal frames (pos + c.utf8Size))

def find (goal : Goal) (c : Cursor) : Except ParseError Cursor :=
  scan goal [] c.pos c.rest

end ComponentCompiler.Template.Balanced
