import ComponentCompiler.Program.Lower
import ComponentCompiler.Program.Print

/-!
# The generated module

A module imports what it needs from the runtime, repeats the script, defines the component and ends
with what other sections add. `generate` writes it.
-/

namespace ComponentCompiler.Program

open Template
open Text.Writer (Step)

def defaultRuntime : String := "project-f/runtime"

structure Component where
  hasType : Bool := false
  slots : SlotTable := []
  creation : Option Creation := none
  entities : List Entity := []

def Component.ofContract (contract : Contract) (entities : List Entity) : Component :=
  ⟨contract.hasComponent, contract.slots.getD [], contract.creation, entities⟩

structure Addition where
  code : String
  imports : List String
  deriving DecidableEq

def insertName (name : String) : List String → List String
  | [] => [name]
  | first :: names =>
    if name = first then first :: names
    else if name < first then name :: first :: names
    else first :: insertName name names

def sortNames (names : List String) : List String :=
  names.foldr insertName []

def helpers (steps : Steps) : List Helper :=
  steps.flatMap fun
    | .line line | .enter line | .leave line | .push line => line.helpers
    | _ => []

def creationSteps : Option Creation → Steps
  | none => []
  | some .context => [.line [.fixed "const ctx = createCtx($props, $syncs, $events);"]]
  | some (.members []) => [.line [.fixed "create($props, $syncs, $events);"]]
  | some (.members names) =>
    [.line (.fixed "const \x7b " :: Line.join ", " (names.map fun name => [.name name])
      ++ [.fixed " \x7d = create($props, $syncs, $events);"])]

def importSteps (names : List String) (runtime : String) : Steps :=
  (if names.isEmpty then []
  else [.line (.fixed "import \x7b " :: Line.join ", " (names.map fun name => [.name name])
    ++ [.fixed " \x7d from ", .quoted runtime, .fixed ";"])])
  ++ [.line [.fixed "import type \x7b ComponentDefinition as ___ComponentDefinition \x7d from ",
      .quoted runtime, .fixed ";"],
    .newline]

def scriptSteps (script : Option String) : Steps :=
  match script.map Text.trimmed with
  | none => []
  | some text => if text.isEmpty then [] else [.push [.code text], .newline, .newline]

def componentSteps (c : Component) (body : Steps) : Steps :=
  let argument := if c.hasType then "Component" else "\x7b\x7d"
  .enter [.fixed "const ___Component: ___ComponentDefinition<", .fixed argument,
      .fixed "> = (___realParent, ___parent, $props, $syncs, $events, $slots) => \x7b"]
    :: creationSteps c.creation ++ body
    ++ [.leave [.fixed "\x7d;"], .newline, .line [.fixed "export default ___Component;"]]

def additionSteps (addition : Addition) : Steps :=
  let code := Text.trimmed addition.code
  if code.isEmpty then [] else [.newline, .push [.code code], .newline]

def importedNames (body : Steps) (additions : List Addition) : List String :=
  sortNames ((helpers body).map Helper.name ++ additions.flatMap (·.imports))

def moduleSteps (c : Component) (script : Option String) (additions : List Addition)
    (runtime : String) (body : Steps) : Steps :=
  importSteps (importedNames body additions) runtime ++ scriptSteps script ++ componentSteps c body
    ++ additions.flatMap additionSteps

def generate (c : Component) (script : Option String) (additions : List Addition)
    (runtime : String) : Lowering String := do
  let statements ← ofEntities c.slots c.entities
  let steps := moduleSteps c script additions runtime (steps statements)
  return (({} : Text.Writer).run (steps.map (Step.map Line.text))).code

end ComponentCompiler.Program
