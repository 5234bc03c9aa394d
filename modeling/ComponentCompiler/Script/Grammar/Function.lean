import ComponentCompiler.Script.Grammar.Type

/-!
# Patterns, parameters and functions
-/

namespace ComponentCompiler.Script

open Read

namespace Grammar

variable (g : Grammar) (ctx : Context)

def skipDefault : Read Bool := do
  if ← accept "=" then
    let _ ← g.assignment ctx.bracketed
    return true
  else return false

def restElement (close : String) : Read Unit := do
  expect "..."
  g.binding ctx
  require (← isMark close)

def propertyPattern : Read Unit := do
  if ← isMark "..." then g.restElement ctx "\x7d"
  else
    let key ← token
    let _ ← g.memberKey ctx
    if ← accept ":" then g.binding ctx
    else
      match key with
      | .word name _ => require (isBindable name)
      | _ => fail
    let _ ← g.skipDefault ctx

def elementPattern : Read Unit := do
  if ← isMark "..." then g.restElement ctx "]"
  else if ← isMark "," then return
  else
    g.binding ctx
    let _ ← g.skipDefault ctx

/-- A name, or a pattern that takes a value apart. -/
def bindingStep : Read Unit := do
  match ← token with
  | .mark "\x7b" =>
    advance
    let _ ← listUntil "\x7d" (g.propertyPattern ctx)
  | .mark "[" =>
    advance
    let _ ← listUntil "]" (g.elementPattern ctx)
  | _ => let _ ← bindingName

def parameterModifiers : List String := ["public", "private", "protected", "readonly", "override"]

def skipParameterModifiers : Read Unit := do
  let _ ← many do
    match ← plainWord? with
    | some name =>
      if parameterModifiers.contains name && (← thenHas do
          match ← token with
          | .word .. => return true
          | _ => isOneOf ["\x7b", "["]) then
        advance
        return some ()
      else return none
    | none => return none

def parameter (ofConstructor : Bool) : Read Unit := do
  if ofConstructor then skipParameterModifiers
  if ← accept "..." then
    g.binding ctx
    g.skipAnnotation ctx
    require (← isMark ")")
  else
    if !(← acceptWord "this") then g.binding ctx
    let optional ← accept "?"
    g.skipAnnotation ctx
    let hasDefault ← g.skipDefault ctx
    require (!(optional && hasDefault))

def parameters (ofConstructor : Bool) : Read Nat := do
  expect "("
  return (← listUntil ")" (g.parameter ctx ofConstructor)).length

def statements : Read (List Statement) :=
  many do
    if ← isMark "\x7d" then return none else return some (← g.statement ctx)

def block : Read (List Statement) := do
  expect "\x7b"
  let list ← g.statements ctx
  expect "\x7d"
  return list

def functionBody (isAsync isGenerator : Bool) : Read Body := do
  let first ← start
  let list ← g.block (.ofFunction isAsync isGenerator)
  let result := match list.getLast? with
    | some (.returned r) => some r
    | _ => none
  return ⟨← spanFrom first, result⟩

/-- The parameters, result and body of a function; a signature has no body. -/
def functionRest (isAsync isGenerator : Bool) : Read (Option Body) := do
  let inner := Context.ofFunction isAsync isGenerator
  g.skipTypeParameters inner
  let _ ← g.parameters inner false
  g.skipResult inner
  if ← isMark "\x7b" then return some (← g.functionBody isAsync isGenerator)
  else
    semicolon
    return none

def wholeFunction (isAsync isGenerator : Bool) : Read Unit := do
  let inner := Context.ofFunction isAsync isGenerator
  g.skipTypeParameters inner
  let _ ← g.parameters inner false
  g.skipResult inner
  let _ ← g.functionBody isAsync isGenerator

/-- A method of a class or an object, behind its key; gives whether it has a body. -/
def method (isAsync isGenerator ofConstructor : Bool) (count : Nat → Bool) :
    Read Unit := do
  let inner := Context.ofFunction isAsync isGenerator
  g.skipTypeParameters inner
  require (count (← g.parameters inner ofConstructor))
  g.skipResult inner

end Grammar

end ComponentCompiler.Script
