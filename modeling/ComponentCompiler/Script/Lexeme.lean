import ComponentCompiler.Script.Letter
import ComponentCompiler.Text.Cursor

/-!
# Lexemes of scripts

`Lexeme.read` reads the next lexeme behind blanks and comments. What a slash or a backtick starts
depends on where it stands, so regular expressions and the parts of template literals have readers of
their own, and `>` is always read alone.
-/

namespace ComponentCompiler.Script

open Text

inductive Token where
  | stop
  /-- A name or keyword, with escapes resolved. -/
  | word (name : String) (escaped : Bool)
  | privateName
  | number
  | bigint
  /-- A string literal; `raw` is what stands between the quotes. -/
  | string (raw : String)
  | backtick
  | mark (text : String)
  deriving DecidableEq

structure Lexeme where
  token : Token
  origin : Cursor
  after : Cursor
  /-- A line ends between the lexeme before and this one. -/
  newline : Bool
  deriving DecidableEq

/-! ### Blanks and comments -/

def isLineEnd (c : Char) : Bool :=
  c = '\n' || c = '\r' || c.toNat = 0x2028 || c.toNat = 0x2029

def isSpace (c : Char) : Bool :=
  (isBlank c && c.toNat ≠ 0x85) || c.toNat = 0xFEFF

/-- What follows the comment that `c` is in, and whether a line ends in it. -/
def commentEnd (newline : Bool) (pos : Nat) : List Char → Option (Cursor × Bool)
  | '*' :: '/' :: rest => some (⟨rest, pos + 2⟩, newline)
  | c :: rest => commentEnd (newline || isLineEnd c) (pos + c.utf8Size) rest
  | [] => none

/-- What follows blanks and comments, and whether a line ends in them. `fuel` bounds their number. -/
def skipSpace (fuel : Nat) (newline : Bool) (c : Cursor) : Option (Cursor × Bool) :=
  match fuel with
  | 0 => some (c, newline)
  | n + 1 =>
    match c.rest with
    | '/' :: '/' :: _ => skipSpace n newline (c.dropWhile (!isLineEnd ·))
    | '/' :: '*' :: rest =>
      match commentEnd newline (c.pos + 2) rest with
      | some (c, newline) => skipSpace n newline c
      | none => none
    | x :: _ => if isSpace x then skipSpace n (newline || isLineEnd x) c.next else some (c, newline)
    | [] => some (c, newline)

/-! ### Escapes -/

def hexValue? (c : Char) : Option Nat :=
  if isAsciiDigit c then some (c.toNat - 0x30)
  else if 'a' ≤ c && c ≤ 'f' then some (c.toNat - 0x57)
  else if 'A' ≤ c && c ≤ 'F' then some (c.toNat - 0x37)
  else none

def isHexDigit (c : Char) : Bool := (hexValue? c).isSome

def hexNumber (digits : List Char) : Nat :=
  digits.foldl (fun n c => 16 * n + (hexValue? c).getD 0) 0

/-- The code point of an escape behind `\u`, and what follows. -/
def unicodeEscape? (c : Cursor) : Option (Nat × Cursor) :=
  match c.rest with
  | '{' :: _ =>
    let digits := c.next.takeWhile isHexDigit
    let after := c.next.dropWhile isHexDigit
    if after.peek? = some '}' && !digits.isEmpty && hexNumber digits ≤ 0x10FFFF then
      some (hexNumber digits, after.next)
    else none
  | a :: b :: x :: y :: _ =>
    let digits := [a, b, x, y]
    if digits.all isHexDigit then some (hexNumber digits, c.skip 4) else none
  | _ => none

/-- What follows an escape, from behind its backslash. Octal escapes are not allowed. -/
def escapeEnd? (c : Cursor) : Option Cursor :=
  match c.rest with
  | 'x' :: a :: b :: _ => if isHexDigit a && isHexDigit b then some (c.skip 3) else none
  | 'u' :: _ => (unicodeEscape? c.next).map (·.2)
  | '\r' :: '\n' :: _ => some (c.skip 2)
  | '0' :: d :: _ => if isAsciiDigit d then none else some c.next
  | x :: _ => if x = 'x' || ('1' ≤ x && x ≤ '9') then none else some c.next
  | [] => none

/-! ### Names -/

/-- The characters of a name, whether any was escaped, and what follows. `accepts` is asked for the
first character. -/
def wordEnd (fuel : Nat) (accepts : Char → Bool) (escaped : Bool) (c : Cursor) :
    Option (List Char × Bool × Cursor) :=
  match fuel with
  | 0 => none
  | n + 1 =>
    match c.rest with
    | '\\' :: 'u' :: _ =>
      match unicodeEscape? (c.skip 2) with
      | none => none
      | some (code, after) =>
        let letter := Char.ofNat code
        if accepts letter then
          (wordEnd n isLetterPart true after).map fun (name, _, rest) => (letter :: name, true, rest)
        else none
    | '\\' :: _ => none
    | x :: _ =>
      if accepts x then
        (wordEnd n isLetterPart escaped c.next).map fun (name, e, rest) => (x :: name, e, rest)
      else some ([], escaped, c)
    | [] => some ([], escaped, c)

def word? (c : Cursor) : Option (String × Bool × Cursor) :=
  match wordEnd (c.rest.length + 1) isLetterStart false c with
  | some (x :: name, escaped, after) => some (String.ofList (x :: name), escaped, after)
  | _ => none

/-! ### Numbers -/

def separated : List Char → Bool
  | [] => false
  | ['_'] => false
  | [_] => true
  | '_' :: _ => false
  | _ :: '_' :: rest => separated rest
  | _ :: rest => separated rest

def digitsEnd? (isDigit : Char → Bool) (c : Cursor) : Option Cursor :=
  let p := fun x => isDigit x || x = '_'
  if separated (c.takeWhile p) then some (c.dropWhile p) else none

def exponentEnd? (c : Cursor) : Option Cursor :=
  match c.rest with
  | 'e' :: s :: _ | 'E' :: s :: _ =>
    digitsEnd? isAsciiDigit (if s = '+' || s = '-' then c.skip 2 else c.next)
  | ['e'] | ['E'] => none
  | _ => some c

def numberStop (token : Token) (c : Cursor) : Option (Token × Cursor) :=
  match c.peek? with
  | some x => if isLetterStart x || isAsciiDigit x || x = '\\' then none else some (token, c)
  | none => some (token, c)

def integerStop (c : Cursor) : Option (Token × Cursor) :=
  match c.rest with
  | 'n' :: _ => numberStop .bigint c.next
  | _ => numberStop .number c

/-- A fraction and an exponent, behind the digits before the point. -/
def fractionStop (c : Cursor) : Option (Token × Cursor) := do
  match c.rest with
  | '.' :: x :: _ =>
    let c ← if isAsciiDigit x || x = '_' then digitsEnd? isAsciiDigit c.next else some c.next
    numberStop .number (← exponentEnd? c)
  | ['.'] => numberStop .number c.next
  | 'n' :: _ => numberStop .bigint c.next
  | _ => numberStop .number (← exponentEnd? c)

def number? (c : Cursor) : Option (Token × Cursor) := do
  match c.rest with
  | '0' :: 'x' :: _ | '0' :: 'X' :: _ => integerStop (← digitsEnd? isHexDigit (c.skip 2))
  | '0' :: 'o' :: _ | '0' :: 'O' :: _ =>
    integerStop (← digitsEnd? (fun x => '0' ≤ x && x ≤ '7') (c.skip 2))
  | '0' :: 'b' :: _ | '0' :: 'B' :: _ =>
    integerStop (← digitsEnd? (fun x => x = '0' || x = '1') (c.skip 2))
  | '0' :: x :: _ => if isAsciiDigit x || x = '_' then none else fractionStop c.next
  | '.' :: _ => numberStop .number (← exponentEnd? (← digitsEnd? isAsciiDigit c.next))
  | _ => fractionStop (← digitsEnd? isAsciiDigit c)

/-! ### Strings, templates and regular expressions -/

def stringEnd (fuel : Nat) (quote : Char) (c : Cursor) : Option Cursor :=
  match fuel with
  | 0 => none
  | n + 1 =>
    match c.rest with
    | [] | '\n' :: _ | '\r' :: _ => none
    | '\\' :: _ =>
      match escapeEnd? c.next with
      | some after => stringEnd n quote after
      | none => none
    | x :: _ => if x = quote then some c.next else stringEnd n quote c.next

def string? (quote : Char) (c : Cursor) : Option (Token × Cursor) := do
  let after ← stringEnd (c.rest.length + 1) quote c.next
  let raw := (c.next.upTo after).dropLast
  return (.string (String.ofList raw), after)

inductive PartEnd where
  | closed
  | substitution
  deriving DecidableEq

/-- The end of a part of a template literal, and what follows. In a tagged template any escape
goes. -/
def partEnd (fuel : Nat) (tagged : Bool) (c : Cursor) : Option (PartEnd × Cursor) :=
  match fuel with
  | 0 => none
  | n + 1 =>
    match c.rest with
    | [] => none
    | '`' :: _ => some (.closed, c.next)
    | '$' :: '{' :: _ => some (.substitution, c.skip 2)
    | '\\' :: _ =>
      match if tagged then some (c.skip 2) else escapeEnd? c.next with
      | some after => partEnd n tagged after
      | none => none
    | _ => partEnd n tagged c.next

def patternEnd (fuel : Nat) (inClass : Bool) (c : Cursor) : Option Cursor :=
  match fuel with
  | 0 => none
  | n + 1 =>
    match c.rest with
    | [] => none
    | '\\' :: x :: _ => if isLineEnd x then none else patternEnd n inClass (c.skip 2)
    | x :: _ =>
      if isLineEnd x then none
      else if x = '/' && !inClass then some c.next
      else patternEnd n (x = '[' || (inClass && x ≠ ']')) c.next

def regexFlags : List Char := ['d', 'g', 'i', 'm', 's', 'u', 'v', 'y']

def allDistinct : List Char → Bool
  | [] => true
  | c :: cs => !cs.contains c && allDistinct cs

def regexEnd? (c : Cursor) : Option Cursor := do
  let after ← patternEnd (c.rest.length + 1) false c.next
  let flags := after.takeWhile isLetterPart
  if flags.all regexFlags.contains && allDistinct flags then some (after.dropWhile isLetterPart)
  else none

/-! ### Marks -/

/-- The marks of more than one character, longer ones first. -/
def longMarks : List String :=
  ["...", "===", "!==", "**=", "<<=", "&&=", "||=", "??=",
    "=>", "==", "!=", "<=", "<<", "++", "--", "&&", "||", "??", "?.", "+=", "-=", "*=", "/=", "%=",
    "&=", "|=", "^=", "**"]

def shortMarks : List Char :=
  ['{', '}', '(', ')', '[', ']', ';', ',', '<', '>', '+', '-', '*', '/', '%', '&', '|', '^', '!', '~',
    '?', ':', '=', '.', '@']

/-- Whether `mark` stands at the start of `text`; a question mark and a number are not an optional
chain. -/
def startsMark (text : List Char) (mark : String) : Bool :=
  mark.toList.isPrefixOf text
    && !(mark = "?." && (text.drop 2).head?.any isAsciiDigit)

def mark? (c : Cursor) : Option (Token × Cursor) :=
  match longMarks.find? (startsMark c.rest) with
  | some mark => some (.mark mark, c.skip mark.length)
  | none =>
    match c.peek? with
    | some x => if shortMarks.contains x then some (.mark (String.ofList [x]), c.next) else none
    | none => none

/-! ### All together -/

def token? (c : Cursor) : Option (Token × Cursor) :=
  match c.rest with
  | [] => some (.stop, c)
  | '"' :: _ => string? '"' c
  | '\'' :: _ => string? '\'' c
  | '`' :: _ => some (.backtick, c.next)
  | '#' :: _ => (word? c.next).map fun (_, _, after) => (.privateName, after)
  | '.' :: x :: _ => if isAsciiDigit x then number? c else mark? c
  | x :: _ =>
    if isAsciiDigit x then number? c
    else if isLetterStart x || x = '\\' then
      (word? c).map fun (name, escaped, after) => (.word name escaped, after)
    else mark? c

def Lexeme.read (c : Cursor) : Option Lexeme :=
  match skipSpace (c.rest.length + 1) false c with
  | none => none
  | some (origin, newline) =>
    (token? origin).map fun (token, after) => ⟨token, origin, after, newline⟩

end ComponentCompiler.Script
