import ComponentCompiler.Template.Check.Basic

/-!
# Checking attributes

An attribute on its own: its modifiers must suit its sigil, and most sigils need code as a value.
Modifiers that do not suit are ignored with a warning; an attribute without a fitting value is left
out with an error.
-/

namespace ComponentCompiler.Template

inductive Attribute where
  | binding (binding : Binding)
  | event (name : String) (handler : Handler)
  | sync (sync : Sync)
  | receiver (receiver : Receiver)
  deriving DecidableEq

namespace Outline

def Sigil.modifiers : Sigil → List String
  | .plain | .sync => ["initial"]
  | .event => EventModifier.all.map EventModifier.text
  | .reactive | .receiver _ => []

def Attribute.describe (a : Attribute) : String :=
  match a.sigil with
  | .plain => s!"`{a.name}`"
  | .reactive => s!"`:{a.name}`"
  | .event => s!"`@{a.name}`"
  | .sync => s!"`!{a.name}`"
  | .receiver kind => s!"`({kind})`"

end Outline

namespace Check

def ignoredModifier (a : Outline.Attribute) (modifier : String) (span : Span) : Check Unit :=
  warning .attributeExtraneousModifier span
    s!"modifier `{modifier}` has no effect on {a.describe}"

/-- The modifiers that count, in source order: each one once, after those in `accepted`. -/
def modifiers (a : Outline.Attribute) (accepted : List String) :
    List (String × Span) → Check (List String)
  | [] => return accepted
  | (modifier, span) :: rest => do
    if accepted.contains modifier then
      warning .attributeDuplicateModifier span s!"modifier `{modifier}` is repeated"
      modifiers a accepted rest
    else if a.sigil.modifiers.contains modifier then
      modifiers a (accepted ++ [modifier]) rest
    else
      ignoredModifier a modifier span
      modifiers a accepted rest

def requireCode (a : Outline.Attribute) : Check (Option Code) := do
  match a.value with
  | some (.code code) => return some code
  | some (.text _ span) =>
    error .attributeExpectedCode span s!"{a.describe} needs code in braces, not a string"
    return none
  | none =>
    error .attributeMissingValue a.span s!"{a.describe} needs a value"
    return none

def plainValue (a : Outline.Attribute) (initial : Bool) : Check BindingValue := do
  match a.value with
  | some (.code code) => return .dynamic code initial
  | other =>
    if initial then
      let span := ((a.modifiers.find? fun m => m.1 = "initial").map (·.2)).getD a.span
      ignoredModifier a "initial" span
    match other with
    | some (.text text _) => return .static text
    | _ => return .empty

def checkAttribute (a : Outline.Attribute) : Check (Option Attribute) := do
  let accepted ← modifiers a [] a.modifiers
  let initial := accepted.contains "initial"
  match a.sigil with
  | .plain =>
    let value ← plainValue a initial
    return some (.binding ⟨a.name, value, a.span⟩)
  | .reactive =>
    let code ← requireCode a
    return code.map fun code => .binding ⟨a.name, .reactive code, a.span⟩
  | .event =>
    let code ← requireCode a
    return code.map fun code =>
      .event a.name ⟨code, accepted.filterMap EventModifier.ofText?, a.span⟩
  | .sync =>
    let code ← requireCode a
    return code.map fun code => .sync ⟨a.name, code, initial, a.span⟩
  | .receiver kind =>
    if kind = "node" then
      let code ← requireCode a
      return code.map fun code => .receiver ⟨code, a.span⟩
    else
      error .attributeUnknownReceiver a.span s!"unknown receiver `({kind})`"
        ["the only receiver is `(node)`"]
      return none

end Check

end ComponentCompiler.Template
