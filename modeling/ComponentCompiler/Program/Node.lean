/-!
# Nodes of the generated program

The generated program names the nodes it makes after their place in the template, so each name is
decided by the template alone.
-/

namespace ComponentCompiler.Program

/-- The way to a place in the template, from the top. -/
abbrev Path := List Nat

def Path.text (path : Path) : String :=
  "_".intercalate (path.map fun i => toString i)

inductive TempKind where
  | element
  | fragment
  | text
  | subject
  deriving DecidableEq

structure Temp where
  kind : TempKind
  path : Path
  deriving DecidableEq

def TempKind.letter : TempKind → String
  | .element => "e"
  | .fragment => "f"
  | .text => "t"
  | .subject => "m"

def Temp.name (t : Temp) : String := "___" ++ t.kind.letter ++ t.path.text

inductive Node where
  /-- The element around the place that a function fills. -/
  | realParent
  /-- What a function appends to. -/
  | parent
  | temp (t : Temp)
  deriving DecidableEq

def Node.name : Node → String
  | .realParent => "___realParent"
  | .parent => "___parent"
  | .temp t => t.name

structure Place where
  /-- The nearest element. -/
  real : Node
  /-- What is appended to: a fragment, or the element itself. -/
  node : Node
  /-- What is put here is all the content of the element. -/
  lone : Bool
  deriving DecidableEq

namespace Place

def scope : Place := ⟨.realParent, .parent, false⟩

def element (t : Temp) : Place := ⟨.temp t, .temp t, true⟩

def isReal (p : Place) : Bool := p.real = p.node

def notLone (p : Place) : Place := { p with lone := false }

end Place

end ComponentCompiler.Program
