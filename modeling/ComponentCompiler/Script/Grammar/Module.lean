import ComponentCompiler.Script.Grammar.Statement

/-!
# Modules

A module is a list of statements, imports and exports. `parse` reads a whole script.
-/

namespace ComponentCompiler.Script

open Read Text

namespace Grammar

inductive Specifier where
  | name (text : String)
  | string
  deriving DecidableEq

def specifier : Read (List Specifier) :=
  many do
    match ← token with
    | .word text _ => advance; return some (.name text)
    | .string _ => advance; return some .string
    | _ => return none

/-- What is imported or exported under the words of an entry, and the name it gets, if another. -/
def specifierParts : List Specifier → Option (Specifier × Option Specifier)
  | [a] => some (a, none)
  | [a, .name "as", b] => some (a, some b)
  | [.name "type", a] => some (a, none)
  | [.name "type", a, .name "as", b] => some (a, some b)
  | _ => none

def isImported (words : List Specifier) : Bool :=
  match specifierParts words with
  | some (.name a, none) => isBindable a
  | some (_, some (.name b)) => isBindable b
  | _ => false

def isLocal (words : List Specifier) : Bool :=
  match specifierParts words with
  | some (.name a, _) => isReference a
  | _ => false

def attributes : Read Unit := do
  let begins := (← isWord "with") || ((← isWord "assert") && !(← newline))
  if begins && (← thenMark "\x7b") then
    advance
    advance
    let _ ← listUntil "\x7d" do
      match ← token with
      | .word .. | .string _ => advance
      | _ => fail
      expect ":"
      expectString

def source : Read Unit := do
  expectString
  attributes
  semicolon

def importsTypes : Read Bool := do
  if ← isWord "type" then
    thenHas do
      if ← isOneOf ["\x7b", "*"] then return true
      else if ← isWord "from" then thenHas (isWord "from")
      else isUnreserved
  else return false

def importAlias : Read Unit := do
  if (← isWord "require") && (← thenMark "(") then
    advance
    advance
    expectString
    expect ")"
  else entityName
  semicolon

def importNames : Read Unit := do
  if ← accept "*" then
    expectWord "as"
    let _ ← bindingName
  else
    expect "\x7b"
    let entries ← listUntil "\x7d" specifier
    require (entries.all isImported)

def importDeclaration : Read Unit := do
  if ← isString then source
  else
    if ← importsTypes then advance
    if ← isUnreserved then
      let _ ← bindingName
      if ← accept "=" then importAlias
      else
        if ← accept "," then importNames
        expectWord "from"
        source
    else
      importNames
      expectWord "from"
      source

def exportList : Read Unit := do
  if ← accept "*" then
    if ← acceptWord "as" then
      match ← token with
      | .word .. | .string _ => advance
      | _ => fail
    expectWord "from"
    source
  else
    expect "\x7b"
    let entries ← listUntil "\x7d" specifier
    if ← acceptWord "from" then
      require (entries.all fun words => (specifierParts words).isSome)
      source
    else
      require (entries.all isLocal)
      semicolon

def exportDefault (g : Grammar) (ctx : Context) : Read Unit := do
  let function (isAsync : Bool) : Read Unit := do
    let isGenerator ← accept "*"
    if !(← isOneOf ["(", "<"]) then let _ ← bindingName
    let _ ← g.functionRest isAsync isGenerator
  if ← acceptWord "class" then
    className?
    g.classRest ctx
  else if (← isWord "abstract") && (← wordNext ["class"]) then
    advance
    advance
    className?
    g.classRest ctx
  else if ← acceptWord "function" then function false
  else if (← isWord "async") && (← wordNext ["function"]) then
    advance
    advance
    function true
  else if (← isWord "interface") && (← namesNext) then
    advance
    let _ ← g.interfaceDeclaration ctx
  else
    let _ ← g.assignment ctx.bracketed
    semicolon

/-- An export behind its keyword; gives what it declares. -/
def exportDeclaration (g : Grammar) (ctx : Context) : Read Declaration := do
  let run (read : Read Unit) : Read Declaration := do
    read
    return .other
  if ← isOneOf ["*", "\x7b"] then run exportList
  else if ← accept "=" then run do g.skipExpression ctx.bracketed; semicolon
  else if ← acceptWord "default" then run (g.exportDefault ctx)
  else if ← acceptWord "import" then
    run do
      let _ ← acceptWord "type"
      let _ ← bindingName
      expect "="
      importAlias
  else if (← isWord "as") && (← wordNext ["namespace"]) then
    run do
      advance
      advance
      let _ ← bindingName
      semicolon
  else if (← isWord "type") && (← thenHas (isOneOf ["*", "\x7b"])) then
    advance
    run exportList
  else
    match ← g.declaration? ctx with
    | some (.declared d) => return d
    | some _ => return .other
    | none => fail

def itemStep (g : Grammar) (ctx : Context) : Read Item := do
  if (← isWord "import") && !(← thenHas (isOneOf ["(", "."])) then
    advance
    importDeclaration
    return ⟨.other, false⟩
  else if ← acceptWord "export" then return ⟨← g.exportDeclaration ctx, true⟩
  else
    match ← g.statement ctx with
    | .declared d => return ⟨d, false⟩
    | _ => return ⟨.other, false⟩

/-- The readers for text that is nested less than `n` deep. -/
def deep : Nat → Grammar
  | 0 => ⟨fun _ => fail, fun _ => fail, fun _ => fail, fun _ => fail, fun _ => fail, fun _ => fail,
      fun _ => fail⟩
  | n + 1 =>
    { type := fun ctx => (deep n).typeStep ctx
      assignment := fun ctx => (deep n).assignmentStep ctx
      unary := fun ctx => (deep n).unaryStep ctx
      constructor := fun ctx => (deep n).constructorStep ctx
      binding := fun ctx => (deep n).bindingStep ctx
      statement := fun ctx => (deep n).statementStep ctx
      item := fun ctx => (deep n).itemStep ctx }

end Grammar

/-- All items up to the end of the text. Every reader inside another starts behind at least one
character more, apart from a few steps, so the length of the text bounds their depth. -/
def items (length : Nat) : Read (List Item) :=
  many do
    if (← token) = .stop then return none
    else return some (← (Grammar.deep (4 * length + 16)).item {})

/-- Past a first line that names an interpreter. -/
def skipInterpreter (c : Cursor) : Cursor :=
  match c.rest with
  | '#' :: '!' :: _ => c.dropWhile (!isLineEnd ·)
  | _ => c

/-- The items of a script that starts at file offset `base`; `none` if the text is no script. -/
def parse (text : String) (base : Nat) : Option (List Item) := do
  let c := skipInterpreter (Cursor.start text base)
  let first ← Lexeme.read c
  let (list, _) ← (items c.rest.length).run ⟨first, c.pos⟩
  return list

end ComponentCompiler.Script
