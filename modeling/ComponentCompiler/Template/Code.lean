import ComponentCompiler.Position.Span
import ComponentCompiler.Text.Blank
import ComponentCompiler.Text.Quoted

/-!
# Embedded code

Templates carry fragments of script code. A `Fragment` of text or of a class list is fixed, computed
once, or kept up to date; `Liveness` orders the three by how often a value can change.
-/

namespace ComponentCompiler.Template

structure Code where
  /-- Without the blanks around it. -/
  text : String
  /-- Whether the text is an identifier, which can stand for a function. -/
  isBare : Bool
  /-- What the code was cut from, blanks included. -/
  span : Span
  deriving DecidableEq, Repr

def Code.ofList (text : List Char) (span : Span) : Code :=
  let trimmed := Text.trim text
  ⟨String.ofList trimmed, Text.isIdentifierList trimmed, span⟩

/-- The code in a position where it is called or accessed. -/
def Code.callee (code : Code) : String :=
  if code.isBare then code.text else "(" ++ code.text ++ ")"

inductive Liveness where
  /-- Known when the component is compiled. -/
  | static
  /-- Computed once, when the node is made. -/
  | dynamic
  /-- Computed again whenever what it depends on changes. -/
  | reactive
  deriving DecidableEq, Repr

namespace Liveness

def rank : Liveness → Nat
  | .static => 0
  | .dynamic => 1
  | .reactive => 2

def max (a b : Liveness) : Liveness := if a.rank ≤ b.rank then b else a

/-- The liveliest of a list, `static` when there is none. -/
def combine (xs : List Liveness) : Liveness := xs.foldl max .static

end Liveness

inductive Fragment where
  | static (text : String)
  | dynamic (code : Code)
  | reactive (code : Code)
  deriving DecidableEq, Repr

namespace Fragment

def liveness : Fragment → Liveness
  | .static _ => .static
  | .dynamic _ => .dynamic
  | .reactive _ => .reactive

def isStatic : Fragment → Bool
  | .static _ => true
  | _ => false

def staticText : Fragment → String
  | .static text => text
  | _ => ""

def inTemplateLiteral : Fragment → String
  | .static text => Text.templateText text
  | .dynamic code | .reactive code => "$\x7b" ++ code.text ++ "\x7d"

/-- An expression for the text of `items`: a string literal when all of it is fixed, else a
template literal. -/
def textExpression (items : List Fragment) : String :=
  if items.all isStatic then Text.quote (String.join (items.map staticText))
  else "`" ++ String.join (items.map inTemplateLiteral) ++ "`"

end Fragment

end ComponentCompiler.Template
