import ComponentCompiler.Template.Balanced
import ComponentCompiler.Template.Outline.Basic

/-!
# Parts of a line

Readers for what stands inside a line: names, embedded code, attribute lists and text with
interpolations. They move a `Cursor` and know nothing of indentation.
-/

namespace ComponentCompiler.Template.Outline

open Text

abbrev Read := StateT Cursor (Except ParseError)

namespace Read

def peek : Read (Option Char) := return (← get).peek?

def pos : Read Nat := return (← get).pos

def fail (expected : Expectation) : Read α := do
  throw (.unexpectedAt (← get) expected)

def accept (literal : List Char) : Read Bool := do
  match (← get).skipLiteral? literal with
  | some c => set c; return true
  | none => return false

def takeWhile (p : Char → Bool) : Read (List Char) := do
  let c ← get
  set (c.dropWhile p)
  return c.takeWhile p

def spanFrom (start : Nat) : Read Span := return ⟨start, ← pos⟩

/-- Runs `read` until it yields nothing. Every run that yields something moves on, so the text that
is left bounds their number. -/
def many (read : Read (Option α)) : Read (List α) := do
  go ((← get).rest.length + 1)
where
  go : Nat → Read (List α)
    | 0 => return []
    | n + 1 => do
      match ← read with
      | none => return []
      | some a => return a :: (← go n)

end Read

open Read

def name (expected : Expectation) : Read String := do
  if (← peek).any isNameStart then return String.ofList (← takeWhile isNamePart)
  else fail expected

/-- Code up to `close`, from the opening mark one character before it. -/
def delimited (close : Char) (what : Construct) : Read Code := do
  let start ← get
  let inner := start.next
  let stop ← Balanced.find ⟨[close], what, ⟨start.pos, inner.pos⟩⟩ inner
  set (stop.skip 1)
  return Code.ofList (inner.upTo stop) ⟨inner.pos, stop.pos⟩

def braced : Read Code := delimited '}' .codeBlock

def parenthesized : Read Code := delimited ')' .parenthesizedCode

def className : Read Fragment := do
  if ← accept [':'] then
    if (← peek) = some '{' then return .reactive (← braced) else fail .reactiveClassCode
  else if (← peek) = some '{' then return .dynamic (← braced)
  else
    let name ← takeWhile isNamePart
    if name.isEmpty then fail .className else return .static (String.ofList name)

def shorthand? : Read (Option Shorthand) := do
  let start ← pos
  if ← accept ['#'] then
    let name ← name .idName
    return some (.id name (← spanFrom start))
  else if ← accept ['.'] then
    let fragment ← className
    return some (.className fragment (← spanFrom start))
  else return none

/-- The text of a string literal, from behind its opening quote, and the place behind the closing one.
A backslash escapes quotes and backslashes, and stays before any other character. -/
def stringBody? (pos : Nat) : List Char → Option (List Char × Cursor)
  | [] => none
  | c :: rest =>
    if c = '\n' then none
    else if c = '"' then some ([], ⟨rest, pos + 1⟩)
    else if c = '\\' then
      match rest with
      | [] => none
      | d :: rest =>
        (stringBody? (pos + 1 + d.utf8Size) rest).map fun (text, stop) =>
          (if d = '"' || d = '\\' then d :: text else c :: d :: text, stop)
    else (stringBody? (pos + c.utf8Size) rest).map fun (text, stop) => (c :: text, stop)

def stringLiteral : Read Value := do
  let start ← get
  let inner := start.next
  match stringBody? inner.pos inner.rest with
  | none => throw (.unterminated .string ⟨start.pos, inner.pos⟩)
  | some (text, stop) =>
    set stop
    return .text (String.ofList text) ⟨start.pos, stop.pos⟩

def value : Read Value := do
  match ← peek with
  | some c =>
    if c = '"' then stringLiteral
    else if c = '{' then return .code (← braced)
    else if isIdentifierStart c then
      let start ← pos
      let text ← takeWhile isIdentifierPart
      return .code (Code.ofList text (← spanFrom start))
    else fail .attributeValue
  | none => fail .attributeValue

def modifier? : Read (Option (String × Span)) := do
  if ← accept ['|'] then
    let start ← pos
    let name ← name .modifierName
    return some (name, ← spanFrom start)
  else return none

def sigil : Read Sigil := do
  if ← accept ['@'] then return .event
  else if ← accept ['!'] then return .sync
  else if ← accept [':'] then return .reactive
  else if ← accept ['('] then
    let kind ← name .receiverKind
    if ← accept [')'] then return .receiver kind else fail .receiverEnd
  else return .plain

def attributeEnd (start : Nat) (g : Sigil) (name : String) (modifiers : List (String × Span)) : Read Attribute := do
  let value ← if ← accept ['='] then some <$> value else pure none
  return ⟨g, name, modifiers, value, ← spanFrom start⟩

def singleAttribute : Read Attribute := do
  let start ← pos
  let g ← sigil
  match g with
  | .receiver _ => attributeEnd start g "" []
  | _ =>
    let name ← name .attributeName
    attributeEnd start g name (← many modifier?)

/-- The next attribute of a list that was opened by `opening`, or nothing behind the closing
parenthesis. Blanks and commas in between are passed over. -/
def nextAttribute? (opening : Span) : Read (Option Attribute) := do
  let _ ← takeWhile fun c => isBlank c || c = ','
  match ← peek with
  | none => throw (.unterminated .attributeList opening)
  | some _ => if ← accept [')'] then return none else some <$> singleAttribute

def attributes : Read (List Attribute) := do
  let start ← pos
  if ← accept ['('] then many (nextAttribute? ⟨start, start + 1⟩) else return []

/-- Code up to the closing double braces. It must be on one line and must not be blank. -/
def interpolationFrom (opening : Span) (reactive : Bool) : Read Fragment := do
  let inner ← get
  let stop ← match Balanced.find ⟨['}', '}'], .interpolation, opening⟩ inner with
    | .ok stop => pure stop
    | .error (.unterminated _ _) => throw (.unterminatedInterpolation opening)
    | .error e => throw e
  let text := inner.upTo stop
  if text.contains '\n' then throw (.unterminatedInterpolation opening)
  else if allBlank text then throw (.unexpectedAt stop .interpolatedCode)
  else
    let code := Code.ofList text ⟨inner.pos, stop.pos⟩
    set (stop.skip 2)
    return if reactive then .reactive code else .dynamic code

/-- Code between double braces. -/
def interpolation : Read Fragment := do
  let start ← pos
  let _ ← accept ['{', '{']
  let reactive ← accept [':']
  interpolationFrom ⟨start, start + 2⟩ reactive

inductive TextStep where
  /-- Characters that stand for themselves. -/
  | chars (text : List Char)
  | code (fragment : Fragment)
  deriving DecidableEq, Repr

/-- A backslash escapes a backslash and double braces. -/
def textStep? : Read (Option TextStep) := do
  let c ← get
  if c.atLineEnd then return none
  else if ← accept ['\\', '{', '{'] then return some (.chars ['{', '{'])
  else if ← accept ['\\', '}', '}'] then return some (.chars ['}', '}'])
  else if ← accept ['\\', '\\'] then return some (.chars ['\\'])
  else if ['{', '{'].isPrefixOf c.rest then return some (.code (← interpolation))
  else
    set c.next
    return some (.chars (c.rest.take 1))

/-- Joins characters into fixed fragments. Blanks at the end of the line are dropped. -/
def gather (run : List Char) : List TextStep → List Fragment
  | [] =>
    let kept := trimEnd run
    if kept.isEmpty then [] else [.static (String.ofList kept)]
  | .chars text :: steps => gather (run ++ text) steps
  | .code fragment :: steps =>
    if run.isEmpty then fragment :: gather [] steps
    else .static (String.ofList run) :: fragment :: gather [] steps

def textRun : Read (List Fragment) := return gather [] (← many textStep?)

end ComponentCompiler.Template.Outline
