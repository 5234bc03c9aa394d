import ComponentCompiler.Program.Node
import ComponentCompiler.Template.Code

/-!
# Lines of the generated program

A line is a list of pieces that say what each part of it is: fixed text, a name, code from the
template, a helper of the runtime, or a node. `Line.text` forgets the difference.
-/

namespace ComponentCompiler.Program

open Template

inductive Helper where
  | createElement
  | createElementClass
  | createElementClasses
  | createElementReactiveClasses
  | createTextNode
  | effect
  | rangeEffect
  | contentEffect
  | bindProperty
  | fakeImmutable
  | fakeInitial
  | fakeMutable
  | exhaustive
  | noop
  | emptyObject
  deriving DecidableEq

def Helper.name : Helper → String
  | .createElement => "createElement"
  | .createElementClass => "createElementClass"
  | .createElementClasses => "createElementClasses"
  | .createElementReactiveClasses => "createElementReactiveClasses"
  | .createTextNode => "createTextNode"
  | .effect => "effect"
  | .rangeEffect => "rangeEffect"
  | .contentEffect => "contentEffect"
  | .bindProperty => "bindProperty"
  | .fakeImmutable => "fakeImmutable"
  | .fakeInitial => "fakeInitial"
  | .fakeMutable => "fakeMutable"
  | .exhaustive => "exhaustive"
  | .noop => "noop"
  | .emptyObject => "EMPTYOBJECT"

inductive Piece where
  /-- Text that is the same in every program. -/
  | fixed (text : String)
  /-- A name where only an identifier can stand. -/
  | name (text : String)
  /-- Code from the template or the script, as it is. -/
  | code (text : String)
  /-- Code that is called or accessed. -/
  | callee (code : Code)
  | quoted (text : String)
  | key (name : String)
  | content (items : List Fragment)
  | helper (h : Helper)
  | declare (t : Temp)
  | node (n : Node)
  deriving DecidableEq

def Piece.text : Piece → String
  | .fixed t | .name t | .code t => t
  | .callee c => c.callee
  | .quoted t => Text.quote t
  | .key n => Text.propertyKey n
  | .content items => Fragment.textExpression items
  | .helper h => h.name
  | .declare t => t.name
  | .node n => n.name

abbrev Line := List Piece

namespace Line

def text (line : Line) : String := String.join (line.map Piece.text)

def join (separator : String) : List Line → Line
  | [] => []
  | [line] => line
  | line :: lines => line ++ .fixed separator :: join separator lines

def helpers (line : Line) : List Helper :=
  line.filterMap fun
    | .helper h => some h
    | _ => none

end Line

end ComponentCompiler.Program
