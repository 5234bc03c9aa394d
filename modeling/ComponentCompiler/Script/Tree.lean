import ComponentCompiler.Position.Span

/-!
# What a script declares

The outline of a script module: its top-level declarations, and of them only what can make up a
component's contract.
-/

namespace ComponentCompiler.Script

mutual

inductive TypeNode where
  | literal (members : List TypeMember) (span : Span)
  | other (span : Span)

inductive TypeMember where
  /-- A property; `name` is `none` when it is computed or a number. -/
  | property (name : Option String) (optional : Bool) (type : Option TypeNode) (span : Span)
  | other (span : Span)

end

def TypeMember.span : TypeMember → Span
  | .property _ _ _ s | .other s => s

/-- A member of an object literal; `name` is `none` for spreads, accessors and names that are not
fixed. -/
structure ObjectMember where
  name : Option String
  span : Span
  deriving DecidableEq

structure Returned where
  /-- The members, if an object literal is returned. -/
  object : Option (List ObjectMember)
  span : Span
  deriving DecidableEq

structure Body where
  span : Span
  /-- Its last statement, if that is a `return`. -/
  result : Option Returned
  deriving DecidableEq

inductive Declaration where
  | typeAlias (name : String) (nameSpan : Span) (type : TypeNode)
  | interface (name : String) (nameSpan : Span)
  /-- `body` is `none` for a signature. -/
  | function (name : String) (nameSpan : Span) (body : Option Body)
  | other

structure Item where
  declaration : Declaration
  exported : Bool

end ComponentCompiler.Script
