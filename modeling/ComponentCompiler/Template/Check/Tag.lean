import ComponentCompiler.Template.Check.Attribute

/-!
# Checking tags

An element has one id, no attribute twice, and at most one `!sync`, which only inputs, text areas and
selects take. `Check.synced` decides which kind of synced element a tag is.
-/

namespace ComponentCompiler.Template

def leafTags : List String :=
  ["area", "base", "br", "col", "embed", "hr", "img", "input", "link", "meta", "source", "track",
    "wbr"]

structure TagDraft where
  tag : Tag
  syncs : List Sync := []
  /-- Some part had to be left out. -/
  failed : Bool := false
  deriving DecidableEq

namespace Check

def addShorthand (d : TagDraft) : Outline.Shorthand → Check TagDraft
  | .id name span => do
    if d.tag.id.isSome then
      error .tagDuplicateId span "an element has at most one `#id`"
      return { d with failed := true }
    else return { d with tag := { d.tag with id := some name } }
  | .className fragment _ =>
    return { d with tag := { d.tag with classes := d.tag.classes ++ [fragment] } }

def addBinding (d : TagDraft) (b : Binding) : Check TagDraft := do
  if b.name = "id" && d.tag.id.isSome then
    error .tagDuplicateId b.span "`id` is already set by a `#id` meta"
    return { d with failed := true }
  else if (d.tag.binding? b.name).isSome then
    error .attributeDuplicate b.span s!"attribute `{b.name}` is set more than once"
    return { d with failed := true }
  else
    if let .dynamic _ true := b.value then
      warning .tagIneffectiveModifier b.span "`initial` has no effect on an element attribute"
    return { d with tag := { d.tag with bindings := d.tag.bindings ++ [b] } }

def addAttribute (d : TagDraft) (a : Outline.Attribute) : Check TagDraft := do
  match ← checkAttribute a with
  | none => return { d with failed := true }
  | some (.binding b) => addBinding d b
  | some (.event name handler) =>
    return { d with tag := { d.tag with listeners := Listener.add d.tag.listeners name handler } }
  | some (.sync s) => return { d with syncs := d.syncs ++ [s] }
  | some (.receiver r) => return { d with tag := { d.tag with receivers := d.tag.receivers ++ [r] } }

def inputKind (tag : Tag) : Check (Option SyncKind) := do
  match tag.binding? "type" with
  | none => return some .text
  | some b =>
    match b.value with
    | .static type =>
      if type = "text" then return some .text
      else if type = "checkbox" then return some .checkbox
      else if type = "radio" then return some .radio
      else
        error .syncUnsupportedType b.span s!"`!sync` is not supported on `input type=\"{type}\"`"
          ["supported types are `text`, `checkbox` and `radio`"]
        return none
    | .empty =>
      error .syncUnsupportedType b.span "`type` needs a value on a synced input"
      return none
    | .dynamic .. | .reactive _ =>
      error .syncDynamicType b.span "the `type` of a synced input must be a string literal"
      return none

/-- The kind of a synced element, by its name. Selects are taken as single for now. -/
def syncKind (tag : Tag) (sync : Sync) : Check (Option SyncKind) := do
  if tag.name = "textarea" then return some .text
  else if tag.name = "select" then return some (.select false)
  else if tag.name = "input" then inputKind tag
  else
    error .syncUnsupportedTag sync.span s!"`!sync` is not supported on `{tag.name}`"
    return none

/-- The binding that must not change under a synced element, and what to say when it does. -/
def syncTarget : SyncKind → String × String
  | .text | .select _ => ("value", "a reactive `value` conflicts with `!sync`")
  | .checkbox => ("checked", "a reactive `checked` conflicts with `!sync`")
  | .radio => ("value", "a synced radio needs an inert `value`")

def selectKind (tag : Tag) : Check (Option SyncKind) := do
  match tag.binding? "multiple" with
  | none => return some (.select false)
  | some b =>
    match b.value with
    | .empty | .static _ => return some (.select true)
    | .dynamic .. | .reactive _ =>
      error .syncDynamicMultiple b.span "`multiple` on a synced select must be static"
      return none

def soleSync (tag : Tag) (sync : Sync) : Check (Option SyncKind) := do
  if sync.name ≠ "sync" then
    error .syncUnknownName sync.span s!"`!{sync.name}` is not supported on elements"
      ["elements only accept `!sync`"]
    return none
  else if sync.initial then
    error .syncModifier sync.span "`!sync` on an element takes no modifiers"
    return none
  else
    match ← syncKind tag sync with
    | none => return none
    | some kind =>
      let (name, message) := syncTarget kind
      match (tag.binding? name).filter fun b => !b.value.isInert with
      | some b =>
        error .syncReactiveTarget b.span message
        return none
      | none =>
        match kind with
        | .select _ => selectKind tag
        | kind => return some kind

def extraSyncs : List Sync → Check Unit
  | [] => return
  | s :: rest => do
    error .syncMultiple s.span "an element has at most one `!sync`"
    extraSyncs rest

def synced (tag : Tag) (body : List Entity) : List Sync → Check (Option Entity)
  | [] => return some (.tag tag body)
  | [sync] => do
    let kind ← soleSync tag sync
    return kind.map fun kind => .synced kind sync tag body
  | _ :: extra => do
    extraSyncs extra
    return none

def checkTag (header : Outline.Header) (span : Span) (body : Check (List Entity)) :
    Check (Option Entity) := do
  let draft : TagDraft := { tag := { name := header.name, span } }
  let draft ← header.shorthands.foldlM addShorthand draft
  let draft ← header.attributes.foldlM addAttribute draft
  let body ← body
  if !body.isEmpty && leafTags.contains header.name then
    warning .tagLeafChildren span
      s!"`{header.name}` cannot have children; they will be ignored by the browser"
  let entity ← synced draft.tag body draft.syncs
  return if draft.failed then none else entity

end Check

end ComponentCompiler.Template
