import ComponentCompiler.Template.Check.Chain

/-!
# Directives that stand on their own

Loops, slots, insertions and local templates, and the directives that open a chain.
-/

namespace ComponentCompiler.Template.Check

open Text

def checkEach (d : Outline.Directive) (span : Span) (body : Check (List Entity)) :
    Check (Option Entity) := do
  match d.argument with
  | none =>
    error .directiveMissingArgument d.nameSpan "`@each` needs an argument like `item of items`"
    return none
  | some argument =>
    match Argument.loop argument.text.toList argument.span with
    | .error e =>
      error .directiveInvalidArgument argument.span e.message
      return none
    | .ok loop => return some (.each loop (← body) span)

def slotName (d : Outline.Directive) : Check (Option String) := do
  match d.argument.filter fun a => !a.text.isEmpty with
  | none => return some defaultSlot
  | some argument =>
    if isIdentifier argument.text then return some argument.text
    else
      error .slotInvalidName argument.span s!"`{argument.text}` is not a valid slot name"
      return none

def useSlot (slots : Option SlotTable) (name : String) (fallback : Option (List Entity))
    (span : Span) : Check (Option Entity) := do
  match slots with
  | none =>
    error .slotNoSection span "`@slot` requires a `slots` section in the `Component` type"
    return none
  | some table =>
    match table.find? name with
    | none =>
      error .slotUnknown span s!"slot `{name}` is not declared in the `Component` type"
      return none
    | some decl =>
      if !decl.optional && fallback.isSome then
        error .slotRequiredFallback span s!"required slot `{name}` cannot have a fallback"
      modify fun p => { p with usedSlots := p.usedSlots ++ [name] }
      return some (.slot name fallback span)

def checkSlot (slots : Option SlotTable) (d : Outline.Directive) (span : Span) (hasBody : Bool)
    (body : Check (List Entity)) : Check (Option Entity) := do
  match ← slotName d with
  | none => return none
  | some name =>
    let fallback ← if hasBody then some <$> body else pure none
    useSlot slots name fallback span

def checkInsertion (scope : Scope) (d : Outline.Directive) (span : Span)
    (body : Check (List Entity)) : Check (Option Entity) := do
  if scope ≠ .component then
    error .slotInsertOutsideComponent span "`@insert` must be a direct child of a component"
    return none
  else
    match ← slotName d with
    | none => return none
    | some name => return some (.insertion (.mk name (← body) span))

def templateName (argument : Code) : Check (Option (String × List Argument.Piece)) := do
  match Argument.split argument.text.toList ',' with
  | first :: rest =>
    let name := trim first.text
    if isIdentifierList name then return some (String.ofList name, rest)
    else
      error .directiveInvalidArgument argument.span "a template name must be an identifier"
      return none
  | [] => return none

def checkTemplate (scope : Scope) (d : Outline.Directive) (span : Span)
    (body : Check (List Entity)) : Check (Option Entity) := do
  if scope ≠ .root then
    error .templateNotTopLevel span "`@template` is only allowed at the top level"
    return none
  else
    match d.argument with
    | none =>
      error .directiveMissingArgument d.nameSpan "`@template` needs a name"
      return none
    | some argument =>
      match ← templateName argument with
      | none => return none
      | some (name, params) =>
        if (← get).templates.contains name then
          error .templateDuplicate span s!"template `{name}` is defined more than once"
          return none
        else
          modify fun p => { p with templates := p.templates ++ [name] }
          let body ← body
          if body.isEmpty then warning .templateEmpty span s!"template `{name}` renders nothing"
          let params := (params.filter (!·.isBlank)).map fun p => String.ofList (trim p.text)
          return some (.template name params body span)

def checkInclude (d : Outline.Directive) (span : Span) : Check (Option Entity) := do
  match d.argument with
  | none =>
    error .directiveMissingArgument d.nameSpan "`@include` needs a template name"
    return none
  | some argument =>
    match ← templateName argument with
    | none => return none
    | some (name, args) =>
      modify fun p => { p with includes := p.includes ++ [(name, span)] }
      return some (.templateUse name (Argument.codes args argument.span) span)

/-- A directive that does not go on with a chain, behind siblings with no open chain. -/
def checkDirective (slots : Option SlotTable) (scope : Scope) (d : Outline.Directive) (span : Span)
    (hasBody : Bool) (body : Check (List Entity)) (s : Siblings) : Check Siblings := do
  if d.name = "if" then
    let condition ← requireExpr d
    let body ← body
    return { s with chain := some (.conditional condition body [] none span) }
  else if d.name = "match" then
    let value ← requireExpr d
    return { s with chain := some (.choice value [] none span) }
  else if d.name = "switch" then
    let value ← requireExpr d
    return { s with chain := some (.switch value [] span) }
  else if d.name = "each" then return s.push? (← checkEach d span body)
  else if d.name = "slot" then return s.push? (← checkSlot slots d span hasBody body)
  else if d.name = "insert" then return s.push? (← checkInsertion scope d span body)
  else if d.name = "template" then return s.push? (← checkTemplate scope d span body)
  else if d.name = "include" then return s.push? (← checkInclude d span)
  else
    error .directiveUnknown d.nameSpan s!"unknown directive `@{d.name}`"
    return s

end ComponentCompiler.Template.Check
