import ComponentCompiler.Template.Code

/-!
# Outlines

An outline is a template as it is written: one item for each line and inline child, with the items of
the block below it as children. Nothing in it is checked beyond the grammar.
-/

namespace ComponentCompiler.Template.Outline

inductive Sigil where
  | plain
  /-- `:` -/
  | reactive
  /-- `@` -/
  | event
  /-- `!` -/
  | sync
  /-- `(kind)`, which takes the place of the name. -/
  | receiver (kind : String)
  deriving DecidableEq, Repr

inductive Value where
  /-- A string literal, with its escapes resolved. -/
  | text (text : String) (span : Span)
  /-- Code in braces, or an identifier. -/
  | code (code : Code)
  deriving DecidableEq, Repr

structure Attribute where
  sigil : Sigil
  /-- Empty for receivers. -/
  name : String
  modifiers : List (String × Span)
  value : Option Value
  span : Span
  deriving DecidableEq, Repr

inductive Shorthand where
  | id (name : String) (span : Span)
  | className (fragment : Fragment) (span : Span)
  deriving DecidableEq, Repr

def Shorthand.span : Shorthand → Span
  | .id _ span | .className _ span => span

structure Header where
  name : String
  shorthands : List Shorthand
  attributes : List Attribute
  deriving DecidableEq, Repr

structure Directive where
  name : String
  nameSpan : Span
  argument : Option Code
  deriving DecidableEq, Repr

inductive Item where
  | tag (header : Header) (children : List Item) (span : Span)
  | component (header : Header) (children : List Item) (span : Span)
  | text (items : List Fragment) (span : Span)
  | directive (directive : Directive) (children : List Item) (span : Span)
  deriving Repr

namespace Item

/-- What the line itself covers, without inline children and block. -/
def span : Item → Span
  | .tag _ _ span | .component _ _ span | .text _ span | .directive _ _ span => span

def children : Item → List Item
  | .tag _ children _ | .component _ children _ | .directive _ children _ => children
  | .text .. => []

end Item

end ComponentCompiler.Template.Outline
