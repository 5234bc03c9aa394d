import ComponentCompiler.Template.Layout
import ComponentCompiler.Template.Outline.Inline

/-!
# Reading outlines

A line is chosen by its first character: a lower-case letter starts a tag, an upper-case letter a
component, `@` a directive and `|` a text line. Behind the header a line may hold an inline child or
inline text, and below it a block.

The readers of nested parts take the reader of a line as a parameter. `line` closes the circle; its
bound on the nesting is the length of the text, since every nested line takes at least a character.
-/

namespace ComponentCompiler.Template.Outline

open Text

abbrev LineRead := StateT Reading (Except ParseError)

namespace LineRead

def inline (read : Read α) : LineRead α := do
  let r ← get
  let (a, cursor) ← (read.run r.cursor : Except ParseError (α × Cursor))
  set { r with cursor }
  return a

/-- Refuses a deeper line below one that takes no block. -/
def noBlock : LineRead Unit := do
  if (← Layout.peek) = .indent then
    let pos := (← get).cursor.pos
    throw (.unexpectedIndent (Span.emptyAt pos))

end LineRead

open LineRead

/-- Directives whose line takes no block. -/
def isBlockless (directive : String) : Bool :=
  directive = "match" || directive = "switch" || directive = "include"

def lines (line : LineRead Item) : LineRead (List Item) := do
  go ((← get).cursor.rest.length + 1)
where
  go : Nat → LineRead (List Item)
    | 0 => return []
    | n + 1 => do
      let item ← line
      match ← Layout.peek with
      | .sibling =>
        let _ ← Layout.next
        return item :: (← go n)
      | .indent =>
        let pos := (← get).cursor.pos
        throw (.unexpectedIndent (Span.emptyAt pos))
      | .dedent | .eof => return [item]

def block (line : LineRead Item) : LineRead (List Item) := do
  if (← Layout.peek) = .indent then
    let _ ← Layout.next
    let items ← lines line
    match ← Layout.next with
    | .dedent => return items
    | _ => inline (Read.fail .blockEnd)
  else return []

/-- What follows a header: an inline child, which owns the block below, or inline text and a block. -/
def tail (line : LineRead Item) (allowText : Bool) : LineRead (List Item) := do
  if ← inline (Read.accept [':']) then
    let _ ← inline (Read.takeWhile isInlineBlank)
    if (← get).cursor.atLineEnd then inline (Read.fail .inlineChild)
    else return [← line]
  else
    let blanks ← inline (Read.takeWhile isInlineBlank)
    let start := (← get).cursor
    if start.atLineEnd then block line
    else if allowText && !blanks.isEmpty then
      let items ← inline textRun
      let span ← inline (Read.spanFrom start.pos)
      return .text items span :: (← block line)
    else inline (Read.fail .lineTail)

/-- The line of a tag or component, whose name is made of characters with `isPart`. -/
def element (line : LineRead Item) (isPart : Char → Bool)
    (make : Header → List Item → Span → Item) : LineRead Item := do
  let start ← inline Read.pos
  let name ← inline (Read.takeWhile isPart)
  let shorthands ← inline (Read.many shorthand?)
  let attributes ← inline attributes
  let span ← inline (Read.spanFrom start)
  let children ← tail line true
  return make ⟨String.ofList name, shorthands, attributes⟩ children span

/-- What follows the name and argument of a directive. Some directives take no block. -/
def directiveEnd (line : LineRead Item) (start : Nat) (name : String) (nameSpan : Span) (argument : Option Code) :
    LineRead Item := do
  let span ← inline (Read.spanFrom start)
  let children ←
    if isBlockless name then do
      let _ ← inline (Read.takeWhile isInlineBlank)
      if (← get).cursor.atLineEnd then
        noBlock
        pure []
      else inline (Read.fail .lineEnd)
    else tail line false
  return .directive ⟨name, nameSpan, argument⟩ children span

def directive (line : LineRead Item) : LineRead Item := do
  let start ← inline Read.pos
  let _ ← inline (Read.accept ['@'])
  let nameStart ← inline Read.pos
  let name ← inline (name .directiveName)
  let nameSpan ← inline (Read.spanFrom nameStart)
  let argument ←
    if (← inline Read.peek) = some '(' then some <$> inline parenthesized else pure none
  directiveEnd line start name nameSpan argument

def textLine : LineRead Item := do
  let start ← inline Read.pos
  let _ ← inline (Read.accept ['|'])
  let _ ← inline (Read.accept [' '])
  let items ← inline textRun
  let span ← inline (Read.spanFrom start)
  noBlock
  return .text items span

/-- One line with all that belongs to it, nested at most `depth` deep. -/
def line : Nat → LineRead Item
  | 0 => inline (Read.fail .lineStart)
  | depth + 1 => do
    match ← inline Read.peek with
    | some c =>
      if 'a' ≤ c && c ≤ 'z' then element (line depth) isNamePart .tag
      else if 'A' ≤ c && c ≤ 'Z' then element (line depth) isWordPart .component
      else if c = '@' then directive (line depth)
      else if c = '|' then textLine
      else inline (Read.fail .lineStart)
    | none => inline (Read.fail .lineStart)

def template (depth : Nat) : LineRead (List Item) := do
  let items ← lines (line depth)
  match ← Layout.next with
  | .eof => return items
  | _ => inline (Read.fail .templateEnd)

def parse (source : String) (base : Nat) : Except ParseError (List Item) :=
  let start := Cursor.start source base
  match Layout.firstLine? start with
  | none => .ok []
  | some (indent, cursor) =>
    (template (start.rest.length + 1)).run' { cursor, levels := [indent] }

end ComponentCompiler.Template.Outline
