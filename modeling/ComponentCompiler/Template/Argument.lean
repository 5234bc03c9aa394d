import ComponentCompiler.Template.Entity

/-!
# Directive arguments

Arguments are split at commas and at the word `of` where these stand outside brackets and strings.
-/

namespace ComponentCompiler.Template.Argument

open Text

/-- Where a walk through code stands: how many brackets are open, and in which quotes it is. -/
structure Nesting where
  depth : Nat := 0
  quote : Option Char := none
  /-- The character before was a backslash in quotes. -/
  escaped : Bool := false
  deriving DecidableEq

namespace Nesting

def isQuote (c : Char) : Bool := c = '"' || c = '\'' || c = '`'

def isOpening (c : Char) : Bool := c = '(' || c = '[' || c = '{'

def isClosing (c : Char) : Bool := c = ')' || c = ']' || c = '}'

/-- After `c`. A closing bracket too many is ignored. -/
def step (n : Nesting) (c : Char) : Nesting :=
  match n.quote with
  | some quote =>
    if n.escaped then { n with escaped := false }
    else if c = '\\' then { n with escaped := true }
    else if c = quote then { n with quote := none }
    else n
  | none =>
    if isQuote c then { n with quote := some c }
    else if isOpening c then { n with depth := n.depth + 1 }
    else if isClosing c then { n with depth := n.depth - 1 }
    else n

/-- Whether `c` stands outside all brackets and strings, and is neither a bracket nor a quote. -/
def isTop (n : Nesting) (c : Char) : Bool :=
  n.quote.isNone && !isQuote c && !isOpening c && !isClosing c && n.depth = 0

end Nesting

structure Piece where
  offset : Nat
  text : List Char
  deriving DecidableEq

def Piece.isBlank (p : Piece) : Bool := allBlank p.text

/-- Splits at every top-level `sep`. `start` is the offset of the piece that has begun with `taken`,
and `pos` that of the text to come. -/
def splitFrom (sep : Char) (n : Nesting) (start pos : Nat) (taken : List Char) :
    List Char → List Piece
  | [] => [⟨start, taken⟩]
  | c :: rest =>
    let next := pos + c.utf8Size
    if n.isTop c && c = sep then ⟨start, taken⟩ :: splitFrom sep (n.step c) next next [] rest
    else splitFrom sep (n.step c) start next (taken ++ [c]) rest

def split (text : List Char) (sep : Char) : List Piece :=
  splitFrom sep {} 0 0 [] text

def codes (pieces : List Piece) (span : Span) : List Code :=
  (pieces.filter (!·.isBlank)).map fun p => Code.ofList p.text span

/-- Whether the text goes on with `f` and a blank. -/
def endsOf : List Char → Bool
  | 'f' :: c :: _ => isBlank c
  | _ => false

/-- What stands before and behind the first top-level word `of` with blanks around it. `prev` is the
character before the text. -/
def splitAtOf? (n : Nesting) (prev : Char) : List Char → Option (List Char × List Char)
  | [] => none
  | c :: rest =>
    if n.isTop c && c = 'o' && isBlank prev && endsOf rest then some ([], rest.drop 1)
    else (splitAtOf? (n.step c) c rest).map fun (before, after) => (c :: before, after)

inductive LoopError where
  | noKeyword
  | noCollection
  | tooManyNames
  | noPattern
  | badIndex
  deriving DecidableEq

def LoopError.message : LoopError → String
  | .noKeyword => "expected `item of collection`"
  | .noCollection => "missing collection after `of`"
  | .tooManyNames => "expected at most a pattern and an index before `of`"
  | .noPattern => "missing loop pattern before `of`"
  | .badIndex => "the loop index must be an identifier"

def expr (text : List Char) (span : Span) : Expr :=
  match trim text with
  | ':' :: rest => ⟨Code.ofList rest span, true⟩
  | text => ⟨Code.ofList text span, false⟩

def loopNames (before : List Char) : Except LoopError (String × Option String) :=
  match split before ',' with
  | [pattern] =>
    let pattern := trim pattern.text
    if pattern.isEmpty then .error .noPattern else .ok (String.ofList pattern, none)
  | [pattern, index] =>
    let pattern := trim pattern.text
    let index := trim index.text
    if pattern.isEmpty then .error .noPattern
    else if isIdentifierList index then .ok (String.ofList pattern, some (String.ofList index))
    else .error .badIndex
  | _ => .error .tooManyNames

/-- Reads `pattern of collection` or `pattern, index of collection`. -/
def loop (text : List Char) (span : Span) : Except LoopError Loop :=
  match splitAtOf? {} ' ' text with
  | none => .error .noKeyword
  | some (before, collection) =>
    if allBlank collection then .error .noCollection
    else
      match loopNames before with
      | .error e => .error e
      | .ok (pattern, index) => .ok ⟨pattern, index, expr collection span⟩

end ComponentCompiler.Template.Argument
