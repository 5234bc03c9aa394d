import ComponentCompiler.Position.Span

/-!
# Component contracts

What a component's script declares: its props, syncs, events and slots, and how its state is created.
-/

namespace ComponentCompiler

structure SlotDecl where
  name : String
  optional : Bool
  span : Span
  deriving DecidableEq

/-- The declared slots, in order and without repetition. -/
abbrev SlotTable := List SlotDecl

namespace SlotTable

def find? (table : SlotTable) (name : String) : Option SlotDecl :=
  List.find? (fun decl => decl.name = name) table

/-- Adds a declaration; one of the same name is replaced in its place. -/
def insert (table : SlotTable) (decl : SlotDecl) : SlotTable :=
  if (table.find? decl.name).isSome then
    table.map fun d => if d.name = decl.name then decl else d
  else table ++ [decl]

end SlotTable

inductive Creation where
  /-- By a function whose result has these members. -/
  | members (names : List String)
  /-- By a function whose result is kept whole. -/
  | context
  deriving DecidableEq

structure Contract where
  hasComponent : Bool := false
  props : List String := []
  syncs : List String := []
  events : List String := []
  /-- `none` when no slots section is declared. -/
  slots : Option SlotTable := none
  creation : Option Creation := none
  deriving DecidableEq

end ComponentCompiler
