import ComponentCompiler.Script.Grammar.Expression

/-!
# Statements and declarations
-/

namespace ComponentCompiler.Script

open Read

namespace Grammar

variable (g : Grammar) (ctx : Context)

/-- Whether a variable may be left without a value. -/
def mayLackValue (isConst isPattern : Bool) : Bool :=
  ctx.ambient || (!isConst && !isPattern)

/-- The name or pattern of a variable, up to its value; says whether it is a pattern. -/
def variableHead : Read Bool := do
  let isPattern ← isOneOf ["\x7b", "["]
  g.binding ctx
  let _ ← if ← newline then pure false else accept "!"
  g.skipAnnotation ctx
  return isPattern

def variableValue (isConst isPattern : Bool) : Read Unit := do
  if ← accept "=" then let _ ← g.assignment ctx
  else require (mayLackValue ctx isConst isPattern)

def oneVariable (isConst : Bool) : Read Unit := do
  let isPattern ← g.variableHead ctx
  g.variableValue ctx isConst isPattern

def moreVariables (isConst : Bool) : Read Unit := do
  let _ ← many do
    if ← accept "," then g.oneVariable ctx isConst; return some () else return none

def variableList (isConst : Bool) : Read Statement := do
  g.oneVariable ctx isConst
  g.moreVariables ctx isConst
  semicolon
  return .other

/-- A function behind the word `function`. An ambient one has no body. -/
def functionDeclaration (isAsync : Bool) : Read Statement := do
  let isGenerator ← accept "*"
  let first ← start
  let name ← bindingName
  let nameSpan ← spanFrom first
  let body ← g.functionRest isAsync isGenerator
  require (!ctx.ambient || body.isNone)
  return .declared (.function name nameSpan body)

def classDeclaration : Read Statement := do
  let _ ← bindingName
  g.classRest ctx
  return .other

def typeAlias : Read Statement := do
  let first ← start
  let name ← unreserved
  let nameSpan ← spanFrom first
  g.skipTypeParameters ctx
  expect "="
  let type ← g.type ctx.typed
  semicolon
  return .declared (.typeAlias name nameSpan type)

def interfaceDeclaration : Read Statement := do
  let first ← start
  let name ← unreserved
  let nameSpan ← spanFrom first
  g.skipTypeParameters ctx
  if ← acceptWord "extends" then g.heritage ctx
  let _ ← g.typeMembers ctx
  return .declared (.interface name nameSpan)

def enumMember : Read Unit := do
  match ← token with
  | .word .. | .string _ => advance
  | _ => fail
  let _ ← g.skipDefault ctx

def enumDeclaration : Read Statement := do
  let _ ← bindingName
  expect "\x7b"
  let _ ← listUntil "\x7d" (g.enumMember ctx)
  return .other

def itemBlock : Read Statement := do
  expect "\x7b"
  let _ ← many do
    if ← isMark "\x7d" then return none else return some (← g.item ctx)
  expect "\x7d"
  return .other

def namespaceDeclaration : Read Statement := do
  if ← isString then
    advance
    if ← isMark "\x7b" then g.itemBlock ctx
    else
      semicolon
      return .other
  else
    let _ ← bindingName
    let _ ← many do
      if ← accept "." then let _ ← anyWord; return some () else return none
    g.itemBlock ctx

def namesNext : Read Bool := thenHas do return !(← newline) && (← isUnreserved)

def wordNext (names : List String) : Read Bool :=
  thenHas do
    match ← plainWord? with
    | some name => return !(← newline) && names.contains name
    | none => return false

def keywordDeclaration? : Read (Option Statement) := do
  match ← plainWord? with
  | some "var" => advance; return some (← g.variableList ctx false)
  | some "let" => advance; return some (← g.variableList ctx false)
  | some "const" =>
    advance
    if ← acceptWord "enum" then return some (← g.enumDeclaration ctx)
    else return some (← g.variableList ctx true)
  | some "function" => advance; return some (← g.functionDeclaration ctx false)
  | some "class" => advance; return some (← g.classDeclaration ctx)
  | some "enum" => advance; return some (← g.enumDeclaration ctx)
  | some "async" =>
    if ← wordNext ["function"] then
      advance
      advance
      return some (← g.functionDeclaration ctx true)
    else return none
  | _ => return none

def declaresUsed : Read Bool := do
  return (← namesNext) && !(← wordNext ["of", "in"])

/-- A declaration that starts with a word which is a keyword only there. -/
def contextualDeclaration? : Read (Option Statement) := do
  match ← plainWord? with
  | some "type" =>
    if ← namesNext then advance; return some (← g.typeAlias ctx) else return none
  | some "interface" =>
    if ← namesNext then advance; return some (← g.interfaceDeclaration ctx) else return none
  | some "abstract" =>
    if ← wordNext ["class"] then
      advance
      advance
      return some (← g.classDeclaration ctx)
    else return none
  | some "namespace" =>
    if ← namesNext then advance; return some (← g.namespaceDeclaration ctx) else return none
  | some "module" =>
    if (← namesNext) || (← thenHas do return !(← newline) && (← isString)) then
      advance
      return some (← g.namespaceDeclaration ctx)
    else return none
  | some "global" =>
    if ← thenMark "\x7b" then advance; return some (← g.itemBlock ctx) else return none
  | some "using" =>
    if ← declaresUsed then
      advance
      return some (← g.variableList ctx true)
    else return none
  | some "await" =>
    if ctx.inAsync && (← thenHas do return (← isWord "using") && (← declaresUsed)) then
      advance
      advance
      return some (← g.variableList ctx true)
    else return none
  | _ => return none

def declarable : List String :=
  ["var", "let", "const", "function", "class", "enum", "async", "type", "interface", "abstract",
    "namespace", "module", "global"]

def declaration? : Read (Option Statement) := do
  if (← isWord "declare") && (← wordNext declarable) then
    require (!ctx.ambient)
    advance
    let ctx := { ctx with ambient := true }
    match ← g.keywordDeclaration? ctx with
    | some s => return some s
    | none =>
      match ← g.contextualDeclaration? ctx with
      | some s => return some s
      | none => fail
  else
    match ← g.keywordDeclaration? ctx with
    | some s => return some s
    | none => g.contextualDeclaration? ctx

def nested : Read Unit := do
  match ← plainWord? with
  | some name => require (!(["let", "const", "function", "class", "enum"].contains name))
  | none => pure ()
  require (!((← isWord "async") && (← wordNext ["function"])))
  let _ ← g.statement ctx

def condition : Read Unit := do
  expect "("
  g.skipExpression ctx.bracketed
  expect ")"

def ifStatement : Read Unit := do
  g.condition ctx
  g.nested ctx
  if ← acceptWord "else" then g.nested ctx

def loopOver : Read Bool := do
  if ← acceptWord "of" then
    let _ ← g.assignment ctx.bracketed
    return true
  else if ← acceptWord "in" then
    g.skipExpression ctx.bracketed
    return true
  else return false

def loopParts : Read Unit := do
  expect ";"
  if !(← isMark ";") then g.skipExpression ctx.bracketed
  expect ";"
  if !(← isMark ")") then g.skipExpression ctx.bracketed

def loopVariables (isConst : Bool) : Read Unit := do
  let inner := { ctx with noIn := true }
  let isPattern ← g.variableHead inner
  if !(← g.loopOver ctx) then
    g.variableValue inner isConst isPattern
    g.moreVariables inner isConst
    g.loopParts ctx

def forHead : Read Unit := do
  if ← isMark ";" then g.loopParts ctx
  else if (← acceptWord "var") || (← acceptWord "let") then g.loopVariables ctx false
  else if ← acceptWord "const" then g.loopVariables ctx true
  else
    let o ← g.expression { ctx with noIn := true }
    if (← isWord "of") || (← isWord "in") then
      require (o.target ≠ .no)
      let _ ← g.loopOver ctx
    else g.loopParts ctx

def forStatement : Read Unit := do
  if ← acceptWord "await" then require ctx.inAsync
  expect "("
  g.forHead ctx
  expect ")"
  g.nested ctx.looping

def doStatement : Read Unit := do
  g.nested ctx.looping
  expectWord "while"
  g.condition ctx
  let _ ← accept ";"

def jumpLabel : Read (Option String) := do
  if !(← newline) && (← isUnreserved) then return some (← anyWord) else return none

def breakStatement : Read Unit := do
  match ← jumpLabel with
  | some label => require (ctx.labels.contains label)
  | none => require ctx.breaks
  semicolon

def continueStatement : Read Unit := do
  require ctx.continues
  match ← jumpLabel with
  | some label => require (ctx.labels.contains label)
  | none => pure ()
  semicolon

def switchCase : Read Bool := do
  let isDefault ← acceptWord "default"
  if !isDefault then
    expectWord "case"
    g.skipExpression ctx.bracketed
  expect ":"
  let _ ← many do
    if (← isMark "\x7d") || (← isWord "case") || (← isWord "default") then return none
    else return some (← g.statement ctx)
  return isDefault

def switchStatement : Read Unit := do
  g.condition ctx
  expect "\x7b"
  let cases ← many do
    if ← isMark "\x7d" then return none
    else return some (← g.switchCase { ctx with breaks := true })
  expect "\x7d"
  require ((cases.filter id).length ≤ 1)

def tryStatement : Read Unit := do
  let _ ← g.block ctx
  let caught ← acceptWord "catch"
  if caught then
    if ← accept "(" then
      g.binding ctx
      g.skipAnnotation ctx
      expect ")"
    let _ ← g.block ctx
  let finished ← acceptWord "finally"
  if finished then let _ ← g.block ctx
  require (caught || finished)

def returnStatement (first : Nat) : Read Statement := do
  require ctx.inFunction
  let isBare := (← newline) || (← token) = .stop || (← isOneOf [";", "\x7d"])
  let value ← if isBare then pure {} else g.expression ctx.bracketed
  semicolon
  return .returned ⟨value.object, ← spanFrom first⟩

def throwStatement : Read Unit := do
  require (!(← newline))
  g.skipExpression ctx.bracketed
  semicolon

def control? : Read (Option Statement) := do
  let first ← start
  let run (read : Read Unit) : Read (Option Statement) := do
    advance
    read
    return some .other
  match ← plainWord? with
  | some "if" => run (g.ifStatement ctx)
  | some "for" => run (g.forStatement ctx)
  | some "while" => run do g.condition ctx; g.nested ctx.looping
  | some "do" => run (g.doStatement ctx)
  | some "break" => run (breakStatement ctx)
  | some "continue" => run (continueStatement ctx)
  | some "switch" => run (g.switchStatement ctx)
  | some "try" => run (g.tryStatement ctx)
  | some "throw" => run (g.throwStatement ctx)
  | some "debugger" => run semicolon
  | some "return" =>
    advance
    return some (← g.returnStatement ctx first)
  | _ => return none

def labelled : Read Unit := do
  let name ← anyWord
  require (isReference name && !ctx.labels.contains name)
  expect ":"
  g.nested { ctx with labels := name :: ctx.labels }

def statementStep : Read Statement := do
  if ← isMark "\x7b" then
    let _ ← g.block ctx
    return .other
  else if ← accept ";" then return .other
  else
    match ← g.control? ctx with
    | some s => return s
    | none =>
      match ← g.declaration? ctx with
      | some s => return s
      | none =>
        if (← isUnreserved) && (← thenMark ":") then
          g.labelled ctx
          return .other
        else
          g.skipExpression ctx.bracketed
          semicolon
          return .other

end Grammar

end ComponentCompiler.Script
