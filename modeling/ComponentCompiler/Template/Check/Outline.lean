import ComponentCompiler.Template.Check.Directive
import ComponentCompiler.Template.Check.Inclusion
import ComponentCompiler.Template.Check.Tag
import ComponentCompiler.Template.Outline.Parse

/-!
# From text to entities

`check` turns an outline into entities and logs every rule it breaks; `parse` does so for the text of a
template section.
-/

namespace ComponentCompiler.Template

namespace Check

mutual

def item (slots : Option SlotTable) (scope : Scope) : Outline.Item → Siblings → Check Siblings
  | .text items span, s => do
    let s ← closeChain s
    return s.pushText items span
  | .tag header children span, s => do
    let s ← closeChain s
    return s.push? (← checkTag header span (siblings slots .nested children {}))
  | .component header children span, s => do
    let s ← closeChain s
    return s.push (← checkInclusion header span (siblings slots .component children {}))
  | .directive d children span, s => do
    match Continuation.ofName? d.name with
    | some k =>
      return { s with chain := ← continueChain k d span (siblings slots .nested children {}) s.chain }
    | none =>
      let s ← closeChain s
      checkDirective slots scope d span (!children.isEmpty) (siblings slots .nested children {}) s

/-- Adds a list of items, and ends the chain that is open behind them. -/
def siblings (slots : Option SlotTable) (scope : Scope) :
    List Outline.Item → Siblings → Check (List Entity)
  | [], s => do
    let s ← closeChain s
    return s.done.reverse
  | i :: items, s => do
    let s ← item slots scope i s
    siblings slots scope items s

end

def checkIncludes (templates : List String) : List (String × Span) → Check Unit
  | [] => return
  | (name, span) :: rest => do
    if !templates.contains name then
      error .templateUnknown span s!"no `@template({name})` is defined"
    checkIncludes templates rest

def checkSlotUses (used : List String) : SlotTable → Check Unit
  | [] => return
  | decl :: rest => do
    if !decl.optional && !used.contains decl.name then
      error .slotRequiredUnused decl.span s!"required slot `{decl.name}` is never rendered"
        [s!"add `@slot({decl.name})` to the template or declare it as `{decl.name}?`"]
    checkSlotUses used rest

/-- The rules that need the whole template. -/
def checkWhole (slots : Option SlotTable) : Check Unit := do
  let p ← get
  checkIncludes p.templates p.includes
  checkSlotUses p.usedSlots (slots.getD [])

end Check

/-- The entities of an outline, if it breaks no rule, and the log with what was found. `region` is the
whole template section. -/
def check (items : List Outline.Item) (slots : Option SlotTable) (region : Span) (log : Log) :
    Option (List Entity) × Log :=
  let run : Check (List Entity) := do
    let entities ← Check.siblings slots .root items {}
    Check.checkWhole slots
    return entities
  let (entities, p) := run.run { log }
  if log.errorCount < p.log.errorCount then (none, p.log)
  else if entities.isEmpty then
    (some entities, p.log ++ [.warningAt .templateEmpty region "the template renders nothing"])
  else (some entities, p.log)

/-- Reads and checks a template section that starts at file offset `base`. -/
def parse (source : String) (base : Nat) (slots : Option SlotTable) (log : Log) :
    Except ParseError (Option (List Entity) × Log) :=
  match Outline.parse source base with
  | .error e => .error e
  | .ok items =>
    .ok (check items slots ⟨base, base + Text.byteLength source.toList⟩ log)

end ComponentCompiler.Template
