import ComponentCompiler.Program.Node
import ComponentCompiler.Template.Entity

/-!
# Statements of the generated program

The program that builds a component's nodes, as a tree. An `Action` is a statement of one line; a
`Stmt` may hold further statements.
-/

namespace ComponentCompiler.Program

open Template

inductive Action where
  | createElement (e : Temp) (tag : String) (classes : List Fragment)
  | createFragment (f : Temp)
  | createText (t : Temp)
  | setId (e : Temp) (id : String)
  | bind (e : Temp) (name : String) (value : BindingValue)
  | listen (e : Temp) (listener : Listener)
  | bindProperty (e : Temp) (property event : String) (signal : Code)
  | checkRadio (e : Temp) (signal : Code)
  | listenRadio (e : Temp) (signal : Code)
  | listenOptions (e : Temp) (signal : Code)
  | receive (e : Temp) (receiver : Code)
  | append (node : Node) (child : Temp)
  | appendText (node : Node) (items : List Fragment)
  | setContent (node : Node) (items : List Fragment)
  | setData (t : Temp) (items : List Fragment)
  | declareSubject (m : Temp) (value : Code)
  /-- Reached only by a value that no case expects. -/
  | exhaustive (m : Temp)
  | break
  | slot (name : String) (place : Place)
  | optionalSlot (name : String) (place : Place)
  | templateUse (name : String) (place : Place) (args : List Code)
  deriving DecidableEq

inductive Label where
  | default
  | values (others : List Code) (last : Code)
  deriving DecidableEq

mutual

inductive Stmt where
  | act (action : Action)
  /-- Runs again whenever what it read changes. -/
  | effect (action : Action)
  | selectOptions (e : Temp) (signal : Code)
  /-- Content that is built anew whenever what it read changes. -/
  | region (place : Place) (body : List Stmt)
  | conditional (condition : Code) (body : List Stmt) (elseIfs : List Branch)
      (otherwise : Option (List Stmt))
  | loop (loop : Loop) (body : List Stmt)
  | switch (subject : Temp) (clauses : List Clause)
  | fallbackSlot (name : String) (place : Place) (body : List Stmt)
  | component (inclusion : Inclusion) (place : Place) (fillings : List Filling)
  | template (name : String) (params : List String) (body : List Stmt)

inductive Branch where
  | mk (condition : Code) (body : List Stmt)

inductive Clause where
  | mk (label : Label) (body : List Stmt)

inductive Filling where
  | mk (slot : String) (body : List Stmt)

end

end ComponentCompiler.Program
