/-!
# Glob patterns

Patterns over the bytes of a path. `*` stands for any bytes and `?` for any one byte, slashes
included; `[ab]`, `[a-c]` and `[!a]` for one byte; `{a,b}` for one of several patterns; a backslash
takes away the meaning of the next character. `**` between slashes stands for any number of
directories. `Glob.accepts` follows a pattern through all the rests that it can leave of a path.
-/

namespace ComponentCompiler.Files

def utf8Bytes (chars : List Char) : List UInt8 := chars.flatMap String.utf8EncodeChar

inductive GlobToken where
  | char (c : Char)
  | anyByte
  | anyBytes
  /-- `**` at the start: nothing, or any directories with their slashes. -/
  | leadingDirs
  /-- `/**` at the end: a slash and any bytes. -/
  | trailingDirs
  /-- `/**/` between: a slash, or two with anything between them. -/
  | innerDirs
  | oneOf (negated : Bool) (ranges : List (UInt8 × UInt8))
  /-- One of the branches; nothing, when there is none. -/
  | choice (branches : List (List GlobToken))
  deriving Repr

inductive GlobError where
  | unclosedClass
  | reversedRange (low high : Char)
  | unclosedBrace
  | unopenedBrace
  | danglingEscape
  deriving DecidableEq, Repr

def GlobError.message : GlobError → String
  | .unclosedClass => "unclosed character class; missing ']'"
  | .reversedRange low high => s!"invalid range; '{low}' > '{high}'"
  | .unclosedBrace => "unclosed alternate group; missing '\x7d'"
  | .unopenedBrace => "unopened alternate group; missing '\x7b'"
  | .danglingEscape => "dangling '\\'"

structure Glob where
  tokens : List GlobToken
  deriving Repr

namespace Glob

def tails : List UInt8 → List (List UInt8)
  | [] => [[]]
  | b :: bs => (b :: bs) :: tails bs

def slash : UInt8 := 0x2F

def afterSlashes : List UInt8 → List (List UInt8)
  | [] => []
  | b :: bs => if b = slash then bs :: afterSlashes bs else afterSlashes bs

def inRanges (ranges : List (UInt8 × UInt8)) (b : UInt8) : Bool :=
  ranges.any fun r => r.1 ≤ b && b ≤ r.2

mutual

def tokenRests : GlobToken → List UInt8 → List (List UInt8)
  | .char c, text =>
    let bytes := String.utf8EncodeChar c
    if bytes.isPrefixOf text then [text.drop bytes.length] else []
  | .anyByte, text => if text.isEmpty then [] else [text.tail]
  | .anyBytes, text => tails text
  | .leadingDirs, text => text :: afterSlashes text
  | .trailingDirs, text => if text.head? = some slash then tails text.tail else []
  | .innerDirs, text =>
    if text.head? = some slash then text.tail :: afterSlashes text.tail else []
  | .oneOf negated ranges, text =>
    match text with
    | [] => []
    | b :: rest => if inRanges ranges b != negated then [rest] else []
  | .choice branches, text => if branches.isEmpty then [text] else choiceRests branches text

/-- The rests that the tokens one after another can leave of any of the texts. -/
def rests : List GlobToken → List (List UInt8) → List (List UInt8)
  | [], texts => texts
  | token :: tokens, texts => rests tokens (texts.flatMap (tokenRests token)).eraseDups

def choiceRests : List (List GlobToken) → List UInt8 → List (List UInt8)
  | [], _ => []
  | branch :: branches, text => rests branch [text] ++ choiceRests branches text

end

def accepts (g : Glob) (path : String) : Bool :=
  match g.tokens with
  | [.leadingDirs] => true
  | tokens => (rests tokens [utf8Bytes path.toList]).contains []

/-- Byte ranges of a character class item; a character of several bytes counts as each of them. -/
def byteRanges (low high : Char) : List (UInt8 × UInt8) :=
  if low = high then (String.utf8EncodeChar low).map fun b => (b, b)
  else
    let first := String.utf8EncodeChar low
    let last := String.utf8EncodeChar high
    first.dropLast.map (fun b => (b, b)) ++ [(first.getLastD 0, last.headD 0)]
      ++ last.tail.map fun b => (b, b)

/-- Reads the items of a character class up to its bracket. `items` holds those read so far, the last
one first; `toHyphen` says that a hyphen has just been read. -/
def readClass (items : List (Char × Char)) (toHyphen : Bool) :
    List Char → Except GlobError (List (Char × Char) × List Char)
  | [] => .error .unclosedClass
  | c :: rest =>
    match items with
    | [] => readClass [(c, c)] false rest
    | (low, high) :: earlier =>
      if c = ']' then .ok (if toHyphen then ('-', '-') :: items else items, rest)
      else if toHyphen then
        if c < low then .error (.reversedRange low c)
        else readClass ((low, c) :: earlier) false rest
      else if c = '-' then readClass ((low, high) :: earlier) true rest
      else readClass ((c, c) :: items) false rest

/-- A group of branches that is being read, the last branch and its last token first. -/
structure Group where
  finished : List (List GlobToken) := []
  current : List GlobToken := []

def isVoid : List GlobToken → Bool
  | [] => true
  | .choice [] :: tokens => isVoid tokens
  | _ :: _ => false

namespace Group

def push (g : Group) (token : GlobToken) : Group := { g with current := token :: g.current }

def nextBranch (g : Group) : Group := ⟨g.current :: g.finished, []⟩

def toToken (g : Group) : GlobToken :=
  .choice (((g.current :: g.finished).reverse.filter fun b => !isVoid b).map List.reverse)

end Group

/-- How far a pattern has been read: the groups around the place, the one at it, and the character
in front of it. -/
structure Reader where
  outer : List Group := []
  group : Group := {}
  previous : Option Char := none

namespace Reader

def push (r : Reader) (token : GlobToken) (last : Char) : Reader :=
  { r with group := r.group.push token, previous := some last }

def isNested (r : Reader) : Bool := !r.outer.isEmpty

def pushStars (r : Reader) : Reader := (r.push .anyBytes '*').push .anyBytes '*'

/-- Puts a token for directories in place of the one for the slash before it. Directories at the
start or the end take in more of them. -/
def pushDirs (r : Reader) (token : GlobToken) (last : Char) : Reader :=
  match r.group.current with
  | .leadingDirs :: _ | .trailingDirs :: _ => { r with previous := some last }
  | _ :: tokens => { r with group := { r.group with current := token :: tokens }, previous := some last }
  | [] => r.push token last

def doubleStar (r : Reader) (rest : List Char) : Reader × List Char :=
  if r.group.current.isEmpty then
    match rest with
    | [] => (r.push .leadingDirs '*', [])
    | '/' :: rest => (r.push .leadingDirs '/', rest)
    | _ => (r.pushStars, rest)
  else
    let standsAlone :=
      r.previous = some '/' || (r.isNested && (r.previous = some ',' || r.previous = some '{'))
    match rest with
    | [] => if standsAlone then (r.pushDirs .trailingDirs '*', []) else (r.pushStars, [])
    | c :: after =>
      if !standsAlone then (r.pushStars, rest)
      else if r.isNested && (c = ',' || c = '}') then (r.pushDirs .trailingDirs '*', rest)
      else if c = '/' then (r.pushDirs .innerDirs '/', after)
      else (r.pushStars, rest)

def openGroup (r : Reader) : Reader := ⟨r.group :: r.outer, {}, some '{'⟩

def closeGroup? (r : Reader) : Option Reader :=
  match r.outer with
  | [] => none
  | around :: outer => some ⟨outer, around.push r.group.toToken, some '}'⟩

/-- Reads a pattern; each step takes at least one character, so its length is enough fuel. -/
def read (r : Reader) : Nat → List Char → Except GlobError Reader
  | 0, _ | _, [] => .ok r
  | fuel + 1, c :: rest =>
    match c with
    | '?' => read (r.push .anyByte c) fuel rest
    | '*' =>
      match rest with
      | '*' :: rest =>
        let (r, rest) := r.doubleStar rest
        read r fuel rest
      | _ => read (r.push .anyBytes c) fuel rest
    | '[' => do
      let negated := rest.head? = some '!' || rest.head? = some '^'
      let (items, rest) ← readClass [] false (if negated then rest.tail else rest)
      read (r.push (.oneOf negated (items.flatMap fun i => byteRanges i.1 i.2)) ']') fuel rest
    | '{' => read r.openGroup fuel rest
    | '}' =>
      match r.closeGroup? with
      | some r => read r fuel rest
      | none => .error .unopenedBrace
    | ',' =>
      if r.isNested then read { r with group := r.group.nextBranch, previous := some ',' } fuel rest
      else read (r.push (.char ',') ',') fuel rest
    | '\\' =>
      match rest with
      | [] => .error .danglingEscape
      | c :: rest => read (r.push (.char c) c) fuel rest
    | c => read (r.push (.char c) c) fuel rest

end Reader

def parse (pattern : String) : Except GlobError Glob := do
  let r ← Reader.read {} pattern.length pattern.toList
  if r.isNested then throw .unclosedBrace
  return ⟨r.group.current.reverse⟩

end Glob

end ComponentCompiler.Files
