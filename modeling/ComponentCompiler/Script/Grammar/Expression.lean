import ComponentCompiler.Script.Grammar.Class

/-!
# Expressions

Operators only have to be told from the end of an expression, so their ranks play no part.
-/

namespace ComponentCompiler.Script

open Read Text

namespace Grammar

variable (g : Grammar) (ctx : Context)

def expression : Read Operand := do
  let first ← g.assignment ctx
  let more ← many do
    if ← accept "," then return some (← g.assignment ctx) else return none
  return if more.isEmpty then first else {}

def skipExpression : Read Unit := do
  let _ ← g.expression ctx

/-! ### Literals -/

def spreadOrElement : Read Bool := do
  if ← isMark "," then return true
  else if ← accept "..." then
    let o ← g.assignment ctx
    return o.target ≠ .no && !(← isMark ",")
  else return (← g.assignment ctx).isElement

def arrayLiteral : Read Operand := do
  expect "["
  let elements ← listUntil "]" (g.spreadOrElement ctx.bracketed)
  return { target := if elements.all id then .pattern else .no }

def objectModifiers : List String := ["async", "get", "set"]

/-- The modifier of a member, and whether it is a generator. -/
def objectModifier : Read (Option String × Bool) := do
  let word ← match ← plainWord? with
    | some name =>
      if objectModifiers.contains name && !(← thenHas do
          return (← isOneOf ["(", "<", ":", ",", "=", "\x7d"]) || (name = "async" && (← newline))) then
        advance
        pure (some name)
      else pure none
    | none => pure none
  return (word, ← accept "*")

/-- A member of an object literal, and whether it can be part of a pattern. -/
def objectMember : Read (ObjectMember × Bool) := do
  let first ← start
  if ← accept "..." then
    let o ← g.assignment ctx
    return (⟨none, ← spanFrom first⟩, o.target ≠ .no && !(← isMark ","))
  else
    let (modifier, isGenerator) ← objectModifier
    let key ← token
    let name ← if key = .bigint then do advance; pure none else g.memberKey ctx
    if ← isOneOf ["(", "<"] then
      let isAsync := modifier = some "async"
      g.method isAsync isGenerator false (accessorCount modifier.toList)
      let _ ← g.functionBody isAsync isGenerator
      let isAccessor := modifier = some "get" || modifier = some "set"
      return (⟨if isAccessor then none else name, ← spanFrom first⟩, false)
    else
      require (modifier.isNone && !isGenerator)
      if ← accept ":" then
        let value ← g.assignment ctx
        return (⟨name, ← spanFrom first⟩, value.isElement)
      else
        match key with
        | .word text _ =>
          require (isReference text)
          let _ ← g.skipDefault ctx
          return (⟨name, ← spanFrom first⟩, isBindable text)
        | _ => fail

def objectLiteral : Read Operand := do
  expect "\x7b"
  let members ← listUntil "\x7d" (g.objectMember ctx.bracketed)
  return { object := some (members.map (·.1))
           target := if members.all (·.2) then .pattern else .no }

def templateLiteral (tagged : Bool) : Read Unit :=
  templateParts tagged (g.skipExpression ctx.bracketed)

def regexLiteral : Read Unit := do
  match regexEnd? (← lexeme).origin with
  | some after => resume after
  | none => fail

/-! ### Arrow functions -/

def arrow : Read Unit := do
  require (!(← newline))
  expect "=>"

def arrowHead (isAsync : Bool) : Read Unit := do
  let inner : Context := { ctx with inAsync := isAsync || ctx.inAsync }
  g.skipTypeParameters inner
  let _ ← g.parameters inner.bracketed false
  if !ctx.colonEnds then g.skipResult inner
  arrow

def arrowBody (isAsync : Bool) : Read Operand := do
  if ← isMark "\x7b" then
    let _ ← g.functionBody isAsync false
    return {}
  else
    let _ ← g.assignment { ctx with inAsync := isAsync, inGenerator := false }
    return {}

def bareArrowHead : Read Unit := do
  let _ ← bindingName
  arrow

/-- The head of an arrow function, if there is one; says whether it is asynchronous. -/
def arrowHead? : Read (Option Bool) := do
  let asyncHead : Read Unit := do
    expectWord "async"
    require (!(← newline))
    if ← isOneOf ["(", "<"] then g.arrowHead ctx true else bareArrowHead
  match ← token with
  | .mark "(" | .mark "<" => return (← attempt (g.arrowHead ctx false)).map fun _ => false
  | .word name _ =>
    if (← attempt bareArrowHead).isSome then return some false
    else if name = "async" then return (← attempt asyncHead).map fun _ => true
    else return none
  | _ => return none

/-! ### Operands -/

def arguments : Read Unit := do
  expect "("
  let _ ← listUntil ")" do
    let _ ← accept "..."
    let _ ← g.assignment ctx.bracketed

def parenthesized : Read Operand := do
  expect "("
  let o ← g.expression ctx.bracketed
  expect ")"
  return { object := o.object, target := if o.target = .simple then .simple else .no, isName := o.isName }

def functionExpression (isAsync : Bool) : Read Unit := do
  let isGenerator ← accept "*"
  if !(← isMark "(") && !(← isMark "<") then let _ ← bindingName
  g.wholeFunction isAsync isGenerator

def importExpression : Read Operand := do
  expectWord "import"
  if ← accept "." then
    expectWord "meta"
    return {}
  else
    expect "("
    let args ← listUntil ")" (g.assignment ctx.bracketed)
    require (!args.isEmpty && args.length ≤ 2)
    return {}

def wordOperand (name : String) : Read Operand := do
  if name = "this" || name = "null" || name = "true" || name = "false" then
    advance
    return {}
  else if name = "function" then
    advance
    g.functionExpression false
    return {}
  else if name = "async" && (← thenHas do return !(← newline) && (← isWord "function")) then
    advance
    advance
    g.functionExpression true
    return {}
  else if name = "class" then
    advance
    className?
    g.classRest ctx
    return {}
  else if name = "super" then
    advance
    require (← isOneOf ["(", ".", "["])
    return {}
  else if name = "import" then g.importExpression ctx
  else
    require (isReference name)
    advance
    return { target := if isBindable name then .simple else .no, isName := true }

def primary : Read Operand := do
  match ← token with
  | .word name _ => g.wordOperand ctx name
  | .number | .bigint | .string _ => advance; return {}
  | .backtick => g.templateLiteral ctx false; return {}
  | .mark "/" | .mark "/=" => regexLiteral; return {}
  | .mark "[" => g.arrayLiteral ctx
  | .mark "\x7b" => g.objectLiteral ctx
  | .mark "(" => g.parenthesized ctx
  | .privateName =>
    require (!ctx.noIn && (← thenHas (isWord "in")))
    advance
    return {}
  | _ => fail

/-! ### Members and calls -/

def dotMember : Read Unit := do
  match ← token with
  | .privateName => advance
  | _ => let _ ← anyWord

def bracketMember : Read Unit := do
  expect "["
  g.skipExpression ctx.bracketed
  expect "]"

def wordOperators : List String := ["in", "instanceof", "as", "satisfies"]

def startsExpression : Read Bool := do
  match ← token with
  | .word name _ => return !wordOperators.contains name
  | .mark m => return ["(", "[", "\x7b", "+", "-", "!", "~", "++", "--", "<", "/", "/="].contains m
  | .stop => return false
  | _ => return true

/-- Type arguments of a call or of a function that is named with them. -/
def callTypeArguments : Read Unit := do
  g.typeArguments ctx
  if (← isMark "(") || (← token) = .backtick then return
  else if ← isOneOf ["<", ">", "+", "-"] then fail
  else require ((← newline) || !(← startsExpression))

def optionalLink : Read Operand := do
  match ← token with
  | .mark "(" => g.arguments ctx
  | .mark "[" => g.bracketMember ctx
  | .mark "<" =>
    g.typeArguments ctx
    g.arguments ctx
  | .backtick => fail
  | _ => dotMember
  return { optional := true }

def link (calls : Bool) (o : Operand) : Read (Option Operand) := do
  let member : Operand := { optional := o.optional, target := if o.optional then .no else .simple }
  match ← token with
  | .mark "." =>
    advance
    dotMember
    return some member
  | .mark "[" =>
    g.bracketMember ctx
    return some member
  | .mark "?." =>
    require calls
    advance
    return some (← g.optionalLink ctx)
  | .mark "(" =>
    if calls then
      g.arguments ctx
      return some { optional := o.optional }
    else return none
  | .backtick =>
    require (!o.optional)
    g.templateLiteral ctx true
    return some {}
  | .mark "!" =>
    if ← newline then return none
    else
      advance
      return some { o with object := none, isName := false }
  | .mark "<" =>
    if calls then return (← attempt (g.callTypeArguments ctx)).map fun _ => { optional := o.optional }
    else return none
  | _ => return none

def newExpression : Read Operand := do
  expectWord "new"
  if ← accept "." then
    expectWord "target"
    return {}
  else
    require (!(← isWord "import"))
    let _ ← g.constructor ctx
    let _ ← attempt do
      g.typeArguments ctx
      require (!(← startsExpression) || (← newline) || (← isMark "("))
    if ← isMark "(" then g.arguments ctx
    return {}

/-- What `new` is applied to: members, but no calls. -/
def constructorStep : Read Operand := do
  let base ← if ← isWord "new" then g.newExpression ctx else g.primary ctx
  iterate (g.link ctx false) base

def chain : Read Operand := do
  let base ← if ← isWord "new" then g.newExpression ctx else g.primary ctx
  iterate (g.link ctx true) base

/-! ### Operators -/

def assertion : Read Operand := do
  expect "<"
  let isConst ← acceptWord "const"
  if !isConst then let _ ← g.type ctx.typed
  expect ">"
  let o ← g.unary ctx
  return if isConst then { object := o.object } else { target := o.target }

def unaryStep : Read Operand := do
  match ← token with
  | .mark "!" | .mark "~" | .mark "+" | .mark "-" =>
    advance
    let _ ← g.unary ctx
    return { isUnary := true }
  | .mark "++" | .mark "--" =>
    advance
    require ((← g.unary ctx).target = .simple)
    return {}
  | .mark "<" => g.assertion ctx
  | .word "typeof" false | .word "void" false =>
    advance
    let _ ← g.unary ctx
    return { isUnary := true }
  | .word "delete" false =>
    advance
    require (!(← g.unary ctx).isName)
    return { isUnary := true }
  | .word "await" false =>
    require ctx.inAsync
    advance
    let _ ← g.unary ctx
    return { isUnary := true }
  | _ =>
    let o ← g.chain ctx
    if !(← newline) && (← isOneOf ["++", "--"]) then
      require (o.target = .simple)
      advance
      return {}
    else return o

def greaterMarks : List String := [">>>=", ">>>", ">>=", ">>", ">=", ">"]

/-- The operator mark that is next, where `>` takes what belongs to it. -/
def operator? : Read (Option String) := do
  match ← token with
  | .mark ">" =>
    let text := (← lexeme).origin.rest
    return greaterMarks.find? fun m => m.toList.isPrefixOf text
  | .mark m => return some m
  | _ => return none

def passOperator (mark : String) : Read Unit := do
  resume ((← lexeme).origin.skip mark.length)

def binaryMarks : List String :=
  ["+", "-", "*", "/", "%", "**", "<", ">", "<=", ">=", "==", "!=", "===", "!==", "<<", ">>", ">>>", "&",
    "|", "^", "&&", "||", "??"]

structure Operation where
  last : Operand
  /-- Some operator has been read. -/
  combined : Bool := false
  hasNullish : Bool := false
  hasLogical : Bool := false

def typeOperation (s : Operation) : Read Operation := do
  let isAs ← isWord "as"
  advance
  if isAs && (← acceptWord "const") then
    return { s with last := { object := s.last.object } }
  else
    let _ ← g.type { ctx.typed with plainType := false }
    return { s with last := { object := if isAs then none else s.last.object, target := s.last.target } }

def operation (s : Operation) : Read (Option Operation) := do
  match ← token with
  | .word name false =>
    if (name = "as" || name = "satisfies") && !(← newline) then return some (← g.typeOperation ctx s)
    else if name = "instanceof" || (name = "in" && !ctx.noIn) then
      advance
      return some { s with last := ← g.unary ctx, combined := true }
    else return none
  | _ =>
    match ← operator? with
    | some mark =>
      if binaryMarks.contains mark then
        require (!(mark = "**" && s.last.isUnary))
        passOperator mark
        let last ← g.unary ctx
        let s : Operation :=
          ⟨last, true, s.hasNullish || mark = "??", s.hasLogical || mark = "&&" || mark = "||"⟩
        require (!(s.hasNullish && s.hasLogical))
        return some s
      else return none
    | none => return none

def binary : Read Operand := do
  let first ← g.unary ctx
  let s ← iterate (g.operation ctx) ⟨first, false, false, false⟩
  return if s.combined then {} else s.last

def conditional : Read Operand := do
  let o ← g.binary ctx
  if ← accept "?" then
    let _ ← g.assignment { ctx with noIn := false, colonEnds := true }
    expect ":"
    let _ ← g.assignment ctx
    return {}
  else return o

def assignmentMarks : List String :=
  ["+=", "-=", "*=", "/=", "%=", "**=", "<<=", ">>=", ">>>=", "&=", "|=", "^=", "&&=", "||=", "??="]

def yieldExpression : Read Operand := do
  expectWord "yield"
  if ← newline then return {}
  else if ← accept "*" then
    let _ ← g.assignment ctx
    return {}
  else if (← token) = .stop || (← isOneOf [")", "]", "\x7d", ",", ";", ":"]) || (← isWord "in")
      || (← isWord "of") then return {}
  else
    let _ ← g.assignment ctx
    return {}

def assignmentStep : Read Operand := do
  if ctx.inGenerator && (← isWord "yield") then g.yieldExpression ctx
  else
    match ← g.arrowHead? ctx with
    | some isAsync => g.arrowBody ctx isAsync
    | none =>
      let o ← g.conditional ctx
      match ← operator? with
      | some mark =>
        if mark = "=" then
          require (o.target ≠ .no)
          advance
          let _ ← g.assignment ctx
          return { defaulted := true }
        else if assignmentMarks.contains mark then
          require (o.target = .simple)
          passOperator mark
          let _ ← g.assignment ctx
          return {}
        else return o
      | none => return o

end Grammar

end ComponentCompiler.Script
