import ComponentCompiler.Contract
import ComponentCompiler.Diagnostic.Log
import ComponentCompiler.Script.Grammar.Module

/-!
# The contract of a script

The first `Component` type and the first function `create` or `createCtx` make up the contract. Every
member of the type is recorded or reported, and later declarations of the same kind are reported.
-/

namespace ComponentCompiler.Script

structure Finding where
  contract : Contract := {}
  log : Log := []

abbrev Inspect := StateM Finding

namespace Inspect

def report (d : Diagnostic) : Inspect Unit :=
  modify fun f => { f with log := f.log ++ [d] }

def error (rule : Rule) (span : Span) (headline : String) : Inspect Unit :=
  report (.errorAt rule span headline)

def warning (rule : Rule) (span : Span) (headline : String) : Inspect Unit :=
  report (.warningAt rule span headline)

def amend (f : Contract → Contract) : Inspect Unit :=
  modify fun s => { s with contract := f s.contract }

inductive Part where
  | props
  | syncs
  | events
  | slots
  deriving DecidableEq

def Part.ofName? (name : String) : Option Part :=
  if name = "props" then some .props
  else if name = "syncs" then some .syncs
  else if name = "events" then some .events
  else if name = "slots" then some .slots
  else none

/-- The members of a part in order, each name once, behind those in `found`. -/
def members (found : List SlotDecl) : List TypeMember → Inspect (List SlotDecl)
  | [] => return found
  | .property (some name) optional _ span :: rest => do
    if found.any (·.name = name) then
      error .componentDuplicateMember span s!"`{name}` is declared more than once"
      members found rest
    else members (found ++ [⟨name, optional, span⟩]) rest
  | member :: rest => do
    error .componentInvalidMember member.span "expected a simple property signature"
    members found rest

def enter (part : Part) (found : List SlotDecl) : Inspect Unit :=
  amend fun c =>
    match part with
    | .props => { c with props := found.map (·.name) }
    | .syncs => { c with syncs := found.map (·.name) }
    | .events => { c with events := found.map (·.name) }
    | .slots => { c with slots := some found }

def inspectPart (part : Part) (name : String) (optional : Bool) (type : Option TypeNode)
    (span : Span) : Inspect Unit := do
  if optional then
    warning .componentOptionalSection span s!"marking section `{name}` optional has no effect"
  match type with
  | some (.literal body _) => enter part (← members [] body)
  | _ => error .componentSectionNotLiteral span s!"section `{name}` must be an object type literal"

/-- Inspects the members of the component type behind those whose parts are in `seen`. -/
def inspectParts (seen : List Part) : List TypeMember → Inspect Unit
  | [] => return
  | .other span :: rest => do
    error .componentInvalidMember span "expected a section: `props`, `syncs`, `events` or `slots`"
    inspectParts seen rest
  | .property none _ _ span :: rest => do
    error .componentInvalidMember span "section names must be plain identifiers"
    inspectParts seen rest
  | .property (some name) optional type span :: rest => do
    match Part.ofName? name with
    | none =>
      error .componentUnknownSection span s!"unknown `Component` section `{name}`"
      inspectParts seen rest
    | some part =>
      if seen.contains part then
        error .componentDuplicateSection span s!"section `{name}` is declared more than once"
        inspectParts seen rest
      else
        inspectPart part name optional type span
        inspectParts (seen ++ [part]) rest

def inspectComponent (nameSpan : Span) (type : TypeNode) (exported : Bool) : Inspect Unit := do
  if (← get).contract.hasComponent then
    error .componentDuplicateType nameSpan "`Component` is declared more than once"
  else
    amend fun c => { c with hasComponent := true }
    if !exported then
      warning .componentNotExported nameSpan "`Component` type is not exported"
    match type with
    | .literal parts _ => inspectParts [] parts
    | .other span => error .componentTypeNotLiteral span "`Component` must be an object type literal"

/-- The names of returned members in order, each once, behind those in `found`. -/
def returnedNames (found : List String) : List ObjectMember → Inspect (List String)
  | [] => return found
  | ⟨some name, _⟩ :: rest =>
    returnedNames (if found.contains name then found else found ++ [name]) rest
  | ⟨none, span⟩ :: rest => do
    error .createInvalidMember span
      "returned members must have static names; spreads and accessors are not supported"
    returnedNames found rest

def createdNames (nameSpan : Span) (body : Option Body) : Inspect (List String) := do
  match body with
  | none =>
    error .createMissingBody nameSpan "`create` must have a body"
    return []
  | some ⟨span, none⟩ =>
    error .createMissingReturn span "the last statement of `create` must return an object literal"
    return []
  | some ⟨_, some ⟨none, span⟩⟩ =>
    error .createReturnNotObject span "`create` must return an object literal"
    return []
  | some ⟨_, some ⟨some object, _⟩⟩ => returnedNames [] object

def inspectCreate (name : String) (nameSpan : Span) (body : Option Body) (exported : Bool) :
    Inspect Unit := do
  if (← get).contract.creation.isSome then
    error .componentConflictingCreate nameSpan
      "a component declares at most one `create` or `createCtx` function"
  else
    if !exported then warning .createNotExported nameSpan s!"`{name}` is not exported"
    if name = "createCtx" then amend fun c => { c with creation := some .context }
    else
      let names ← createdNames nameSpan body
      amend fun c => { c with creation := some (.members names) }

def inspectItem (item : Item) : Inspect Unit := do
  match item.declaration with
  | .typeAlias name nameSpan type =>
    if name = "Component" then inspectComponent nameSpan type item.exported
  | .interface name nameSpan =>
    if name = "Component" then
      error .componentTypeNotLiteral nameSpan
        "`Component` must be a type alias of an object type literal"
  | .function name nameSpan body =>
    if name = "create" || name = "createCtx" then inspectCreate name nameSpan body item.exported
  | .other => return

def inspectItems : List Item → Inspect Unit
  | [] => return
  | item :: rest => do
    inspectItem item
    inspectItems rest

end Inspect

def contractOf (items : List Item) (log : Log) : Contract × Log :=
  let ((), f) := (Inspect.inspectItems items).run { log }
  (f.contract, f.log)

/-- The contract of a script that starts at file offset `base`. A text that is no script has the empty
contract and one diagnostic over all of it. What is wrong with it and where, the errors of a parser with
their own spans, is not modelled. -/
def inspect (text : String) (base : Nat) (log : Log) : Contract × Log :=
  match parse text base with
  | some items => contractOf items log
  | none =>
    let span : Span := ⟨base, base + Text.byteLength text.toList⟩
    ({}, log ++ [.errorAt .scriptSyntax span "the script is not valid"])

end ComponentCompiler.Script
