import ComponentCompiler.Template.Check.Attribute

/-!
# Checking component uses

A component takes props, syncs and events, each name in one of these parts only, and content for its
slots. What stands below it outside `@insert` goes into the default slot.
-/

namespace ComponentCompiler.Template

inductive Passing where
  | prop
  | sync
  | event
  deriving DecidableEq

def Passing.text : Passing → String
  | .prop => "prop"
  | .sync => "sync"
  | .event => "event"

def Inclusion.passing? (i : Inclusion) (name : String) : Option Passing :=
  if i.props.any (·.name = name) then some .prop
  else if i.syncs.any (·.name = name) then some .sync
  else if i.listeners.any (·.event = name) then some .event
  else none

namespace Check

/-- Whether `name` can be passed as `kind`; a name keeps its part, and only events may repeat. -/
def passable (i : Inclusion) (name : String) (span : Span) (kind : Passing) : Check Bool := do
  match i.passing? name with
  | none => return true
  | some previous =>
    if previous ≠ kind then
      error .componentAttributeConflict span s!"`{name}` is already passed as a {previous.text}"
      return false
    else if kind ≠ .event then
      error .componentDuplicateAttribute span s!"{kind.text} `{name}` is passed more than once"
      return false
    else return true

def ignoreListenerModifiers (span : Span) : List EventModifier → Check Unit
  | [] => return
  | m :: rest => do
    if m ≠ .handler then
      warning .attributeExtraneousModifier span
        s!"modifier `{m.text}` has no effect on a component event"
    ignoreListenerModifiers span rest

def pass (i : Inclusion) : Attribute → Check Inclusion
  | .binding b => do
    if ← passable i b.name b.span .prop then return { i with props := i.props ++ [b] } else return i
  | .sync s => do
    if ← passable i s.name s.span .sync then return { i with syncs := i.syncs ++ [s] } else return i
  | .event name handler => do
    if ← passable i name handler.span .event then
      ignoreListenerModifiers handler.span handler.modifiers
      let handler := { handler with modifiers := handler.modifiers.filter (· = .handler) }
      return { i with listeners := Listener.add i.listeners name handler }
    else return i
  | .receiver _ => return i

def passAttribute (i : Inclusion) (a : Outline.Attribute) : Check Inclusion := do
  match a.sigil with
  | .receiver kind =>
    error .componentReceiver a.span s!"`({kind})` cannot be used on component `{i.name}`"
    return i
  | _ =>
    match ← checkAttribute a with
    | none => return i
    | some checked => pass i checked

def refuseShorthands (name : String) : List Outline.Shorthand → Check Unit
  | [] => return
  | s :: rest => do
    error .componentMeta s.span
      s!"`#id` and `.class` metas cannot be used on component `{name}`"
    refuseShorthands name rest

/-- Sorts content into insertions, each slot once, and the rest. -/
def sortContent (insertions : List Insertion) (rest : List Entity) :
    List Entity → Check (List Insertion × List Entity)
  | [] => return (insertions, rest)
  | .insertion i :: entities => do
    if insertions.any (·.slot = i.slot) then
      error .slotDuplicateInsertion i.span s!"slot `{i.slot}` is filled more than once"
      sortContent insertions rest entities
    else sortContent (insertions ++ [i]) rest entities
  | entity :: entities => sortContent insertions (rest ++ [entity]) entities

/-- The insertions that content makes; what is in no insertion fills the default slot. -/
def groupInsertions (entities : List Entity) : Check (List Insertion) := do
  let (insertions, rest) ← sortContent [] [] entities
  match rest with
  | [] => return insertions
  | first :: others =>
    let span := others.foldl (fun span e => span.merge e.span) first.span
    if insertions.any (·.slot = defaultSlot) then
      error .slotDefaultConflict span
        s!"children outside `@insert` conflict with the explicit `@insert({defaultSlot})`"
      return insertions
    else return insertions ++ [.mk defaultSlot rest span]

def checkInclusion (header : Outline.Header) (span : Span) (body : Check (List Entity)) :
    Check Entity := do
  refuseShorthands header.name header.shorthands
  let inclusion : Inclusion := { name := header.name, span }
  let inclusion ← header.attributes.foldlM passAttribute inclusion
  let insertions ← groupInsertions (← body)
  return .component inclusion insertions

end Check

end ComponentCompiler.Template
