import ComponentCompiler.Script.Read

/-!
# Types

Of a type only object types matter; every other type is passed over.
-/

namespace ComponentCompiler.Script

open Read Text

namespace Grammar

variable (g : Grammar) (ctx : Context)

def annotation : Read (Option TypeNode) := do
  if ← accept ":" then return some (← g.type ctx.typed) else return none

def skipAnnotation : Read Unit := do
  let _ ← g.annotation ctx

def typeParameter : Read Unit := do
  let _ ← many do
    if ((← isWord "const") || (← isWord "in") || (← isWord "out"))
        && !(← thenHas (isOneOf [",", ">", "="])) && !(← thenHas (isWord "extends")) then
      advance
      return some ()
    else return none
  let _ ← unreserved
  if ← acceptWord "extends" then let _ ← g.type ctx.typed
  if ← accept "=" then let _ ← g.type ctx.typed

def typeParameters : Read Unit := do
  expect "<"
  require (!(← listUntil ">" (g.typeParameter ctx)).isEmpty)

def skipTypeParameters : Read Unit := do
  if ← isMark "<" then g.typeParameters ctx

def typeArguments : Read Unit := do
  expect "<"
  require (!(← listUntil ">" (g.type ctx.typed)).isEmpty)

def signatureParameter : Read Unit := do
  if ← accept "..." then
    g.binding ctx
    g.skipAnnotation ctx
    require (!(← isMark ","))
  else
    if !(← acceptWord "this") then g.binding ctx
    let _ ← accept "?"
    g.skipAnnotation ctx

def signatureParameters : Read Nat := do
  expect "("
  return (← listUntil ")" (g.signatureParameter ctx)).length

def returnType : Read Unit := do
  let subject : Read Bool := do
    match ← token with
    | .word name _ => return !(isReserved name) || name = "this"
    | _ => return false
  if (← isWord "asserts") && (← thenHas do return !(← newline) && (← subject)) then
    advance
    advance
    if ← acceptWord "is" then let _ ← g.type ctx.typed
  else if (← subject) && (← thenHas do return !(← newline) && (← isWord "is")) then
    advance
    advance
    let _ ← g.type ctx.typed
  else let _ ← g.type ctx.typed

def skipResult : Read Unit := do
  if ← accept ":" then g.returnType ctx

def signature : Read Unit := do
  g.skipTypeParameters ctx
  let _ ← g.signatureParameters ctx
  g.skipResult ctx

/-- The end of a member: a comma, a semicolon, or a place where that may be left out. -/
def memberEnd : Read Unit := do
  if !(← accept ",") then semicolon

/-- A name or literal as a key, or a computed key; gives the name if it is fixed. -/
def memberKey : Read (Option String) := do
  match ← token with
  | .word name _ => advance; return some name
  | .string raw => advance; return some raw
  | .number => advance; return none
  | .mark "[" =>
    advance
    let _ ← g.assignment ctx.bracketed
    expect "]"
    return none
  | _ => fail

def startsKey : Read Bool := do
  match ← token with
  | .word .. | .string _ | .number | .bigint | .privateName => return true
  | .mark m => return m = "["
  | _ => return false

/-- Passes a modifier if it is one: another part of the member follows on its line. -/
def acceptModifier (name : String) : Read Bool := do
  if (← isWord name) && (← thenHas do
      return !(← newline) && ((← startsKey) || (← isOneOf ["\x7b", "*", "..."]))) then
    advance
    return true
  else return false

def indexSignature : Read Unit := do
  expect "["
  let _ ← unreserved
  expect ":"
  let _ ← g.type ctx.typed
  expect "]"
  g.skipAnnotation ctx

def accessorSignature : Read Unit := do
  let isGetter ← acceptWord "get"
  if !isGetter then expectWord "set"
  let _ ← g.memberKey ctx
  if isGetter then
    expect "("
    expect ")"
    g.skipAnnotation ctx
  else require ((← g.signatureParameters ctx) ≠ 0)
  memberEnd

def propertySignature (first : Nat) (isReadonly : Bool) :
    Read TypeMember := do
  let name ← g.memberKey ctx
  let optional ← accept "?"
  if ← isOneOf ["(", "<"] then
    require (!isReadonly)
    g.signature ctx
    memberEnd
    return .other (← spanFrom first)
  else
    let type ← g.annotation ctx
    memberEnd
    return .property name optional type (← spanFrom first)

def typeMember : Read TypeMember := do
  let first ← start
  if ← isOneOf ["(", "<"] then
    g.signature ctx
    memberEnd
    return .other (← spanFrom first)
  else if (← isWord "new") && (← thenHas (isOneOf ["(", "<"])) then
    advance
    g.signature ctx
    memberEnd
    return .other (← spanFrom first)
  else
    let isReadonly ← acceptModifier "readonly"
    if (← attempt do g.indexSignature ctx; memberEnd).isSome then return .other (← spanFrom first)
    else if !isReadonly && (← attempt (g.accessorSignature ctx)).isSome then
      return .other (← spanFrom first)
    else g.propertySignature ctx first isReadonly

def typeMembers : Read (List TypeMember) := do
  expect "\x7b"
  let members ← many do
    if ← isMark "\x7d" then return none else return some (← g.typeMember ctx)
  expect "\x7d"
  return members

def mappedType : Read Unit := do
  expect "\x7b"
  if (← accept "+") || (← accept "-") then expectWord "readonly"
  else let _ ← acceptWord "readonly"
  expect "["
  let _ ← anyWord
  expectWord "in"
  let _ ← g.type ctx.typed
  if ← acceptWord "as" then let _ ← g.type ctx.typed
  expect "]"
  if (← accept "+") || (← accept "-") then expect "?"
  else let _ ← accept "?"
  g.skipAnnotation ctx
  semicolon
  expect "\x7d"

def entityName : Read Unit := do
  let name ← anyWord
  require (!isReserved name || name = "this")
  let _ ← many do
    if ← accept "." then
      match ← token with
      | .privateName => advance; return some ()
      | _ => let _ ← anyWord; return some ()
    else return none

/-- Passes type arguments on the same line, if there are any. -/
def skipTypeArguments : Read Unit := do
  if !(← newline) && (← isMark "<") then g.typeArguments ctx

def importType : Read Unit := do
  expectWord "import"
  expect "("
  expectString
  if ← accept "," then
    if !(← isMark ")") then
      let _ ← g.assignment ctx.bracketed
      let _ ← accept ","
  expect ")"
  if ← accept "." then entityName
  g.skipTypeArguments ctx

/-- What an element of a tuple type says about how many there are. -/
inductive Presence where
  | required
  | optional
  | rest
  deriving DecidableEq

def tupleElement : Read Presence := do
  let isRest ← accept "..."
  let named : Read Unit := do
    let _ ← anyWord
    let _ ← accept "?"
    expect ":"
  let _ ← attempt named
  let _ ← g.type ctx.typed
  let isOptional ← accept "?"
  return if isRest then .rest else if isOptional then .optional else .required

/-- Whether no required element follows an optional one. -/
def inTupleOrder (elements : List Presence) : Bool :=
  (elements.dropWhile (· ≠ .optional)).all (· ≠ .required)

def templateParts (tagged : Bool) (substitution : Read Unit) : Read Unit := do
  let opening ← lexeme
  let finished ← iterate (fun (stop : Option Cursor) => do
    match stop with
    | none => return none
    | some c =>
      match partEnd (c.rest.length + 1) tagged c with
      | none => fail
      | some (.closed, after) => resume after; return some none
      | some (.substitution, after) =>
        resume after
        substitution
        match (← token) with
        | .mark "\x7d" => return some (some (← lexeme).after)
        | _ => fail) (some opening.after)
  require finished.isNone

def simpleType : Read TypeNode := do
  let first ← start
  let rest : Read (Option (List TypeMember)) := do
    match ← token with
    | .word "this" _ | .word "null" _ | .word "void" _ | .word "true" _ | .word "false" _ =>
      advance; return none
    | .word "typeof" _ =>
      advance
      if ← isWord "import" then g.importType ctx
      else
        entityName
        g.skipTypeArguments ctx
      return none
    | .word "import" _ => g.importType ctx; return none
    | .word _ _ =>
      entityName
      g.skipTypeArguments ctx
      return none
    | .string _ | .number | .bigint => advance; return none
    | .mark "-" =>
      advance
      match ← token with
      | .number | .bigint => advance; return none
      | _ => fail
    | .backtick => templateParts false do let _ ← g.type ctx.typed
                   return none
    | .mark "[" =>
      advance
      require (inTupleOrder (← listUntil "]" (g.tupleElement ctx)))
      return none
    | .mark "(" =>
      advance
      let _ ← g.type ctx.typed
      expect ")"
      return none
    | .mark "\x7b" =>
      if (← attempt (g.mappedType ctx)).isSome then return none
      else return some (← g.typeMembers ctx)
    | _ => fail
  match ← rest with
  | some members => return .literal members (← spanFrom first)
  | none => return .other (← spanFrom first)

def arrayType : Read TypeNode := do
  let first ← start
  let base ← g.simpleType ctx
  iterate (fun (_ : TypeNode) => do
    if !(← newline) && (← accept "[") then
      if !(← isMark "]") then let _ ← g.type ctx.typed
      expect "]"
      return some (.other (← spanFrom first))
    else return none) base

def operatorType : Read TypeNode := do
  let first ← start
  let operators ← many do
    if (← isWord "keyof") || (← isWord "unique") || (← isWord "readonly") then
      advance; return some ()
    else return none
  if ← acceptWord "infer" then
    let _ ← unreserved
    let constraint : Read Unit := do
      expectWord "extends"
      let _ ← g.type { ctx with plainType := true }
      require (ctx.plainType || !(← isMark "?"))
    let _ ← attempt constraint
    return .other (← spanFrom first)
  else
    let type ← g.arrayType ctx
    if operators.isEmpty then return type else return .other (← spanFrom first)

/-- One or more types with an operator between them, which may also stand before the first. -/
def combinedType (operator : String) (operand : Read TypeNode) : Read TypeNode := do
  let first ← start
  let _ ← accept operator
  let type ← operand
  iterate (fun (_ : TypeNode) => do
    if ← accept operator then
      let _ ← operand
      return some (.other (← spanFrom first))
    else return none) type

def unionType : Read TypeNode :=
  combinedType "|" (combinedType "&" (g.operatorType ctx))

def functionHead : Read Unit := do
  g.skipTypeParameters ctx
  let _ ← g.signatureParameters ctx
  expect "=>"

def typeStep : Read TypeNode := do
  let first ← start
  let isConstructor ← do
    if (← isWord "abstract") && (← thenHas (isWord "new")) then advance; advance; pure true
    else acceptWord "new"
  if isConstructor then
    g.functionHead ctx
    g.returnType ctx
    return .other (← spanFrom first)
  else if (← isOneOf ["(", "<"]) && (← attempt (g.functionHead ctx)).isSome then
    g.returnType ctx
    return .other (← spanFrom first)
  else
    let type ← g.unionType ctx
    if !ctx.plainType && !(← newline) && (← acceptWord "extends") then
      let _ ← g.type { ctx with plainType := true }
      expect "?"
      let _ ← g.type ctx.typed
      expect ":"
      let _ ← g.type ctx.typed
      return .other (← spanFrom first)
    else return type

end Grammar

end ComponentCompiler.Script
