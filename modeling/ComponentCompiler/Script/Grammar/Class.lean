import ComponentCompiler.Script.Grammar.Function

/-!
# Classes

Classes declare nothing that matters; they are read to find their end.
-/

namespace ComponentCompiler.Script

open Read

namespace Grammar

variable (g : Grammar) (ctx : Context)

def heritage : Read Unit := do
  let one : Read Unit := do let _ ← g.type ctx.typed
  one
  let _ ← many do
    if ← accept "," then one; return some () else return none

def classModifiers : List String :=
  ["public", "private", "protected", "static", "abstract", "override", "readonly", "declare", "async",
    "accessor", "get", "set"]

/-- Whether the word is the key itself, because what follows belongs to a member. -/
def endsKey : Read Bool := do
  return (← isOneOf ["(", "<", "=", ";", "\x7d", "?", "!", ":", ","]) || (← token) = .stop

def modifiers : Read (List String) :=
  many do
    match ← plainWord? with
    | some name =>
      let mayBreak := ["static", "get", "set", "public", "private", "protected"].contains name
      if classModifiers.contains name && !(← thenHas do
          return (← endsKey) || ((← newline) && !mayBreak)) then
        advance
        return some name
      else return none
    | none => return none

/-- A key of a class member: its name if it is fixed. -/
def classKey : Read (Option String) := do
  match ← token with
  | .privateName | .bigint => advance; return none
  | _ => g.memberKey ctx

def accessorCount (words : List String) (n : Nat) : Bool :=
  if words.contains "get" then n = 0 else if words.contains "set" then n = 1 else true

/-- A member; says whether it is a constructor with a body. -/
def classMember : Read Bool := do
  if ← accept ";" then return false
  else if (← isWord "static") && (← thenMark "\x7b") then
    advance
    let _ ← g.block { inAsync := false }
    return false
  else
    let words ← modifiers
    if (← attempt do g.indexSignature ctx; semicolon).isSome then return false
    else
      let isGenerator ← accept "*"
      let name ← g.classKey ctx
      let marked ← accept "?"
      let _ ← if marked then pure false else accept "!"
      let isAsync := words.contains "async"
      let isAccessor := words.contains "get" || words.contains "set"
      let ofConstructor := name = some "constructor" && !words.contains "static"
      if ← isOneOf ["(", "<"] then
        require (!(ofConstructor && (isAsync || isGenerator || isAccessor)))
        g.method isAsync isGenerator ofConstructor (accessorCount words)
        if ← isMark "\x7b" then
          require (!ctx.ambient)
          let _ ← g.functionBody isAsync isGenerator
          return ofConstructor
        else
          semicolon
          return false
      else
        require (!isGenerator && !isAsync && !isAccessor && !ofConstructor)
        g.skipAnnotation ctx
        if ← accept "=" then let _ ← g.assignment { inAsync := false, ambient := ctx.ambient }
        semicolon
        return false

def classRest : Read Unit := do
  g.skipTypeParameters ctx
  if ← acceptWord "extends" then
    let _ ← g.unary ctx.bracketed
    g.skipTypeArguments ctx
  if ← acceptWord "implements" then g.heritage ctx
  expect "\x7b"
  let constructors ← many do
    if ← isMark "\x7d" then return none else return some (← g.classMember ctx)
  expect "\x7d"
  require ((constructors.filter id).length ≤ 1)

def className? : Read Unit := do
  if (← isUnreserved) && !(← isWord "implements") then let _ ← bindingName

end Grammar

end ComponentCompiler.Script
