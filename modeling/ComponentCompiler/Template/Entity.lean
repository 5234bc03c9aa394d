import ComponentCompiler.Template.Code

/-!
# Entities

The tree of a template whose rules have been checked. Every list of entities is what one place of the
page shows, in order.
-/

namespace ComponentCompiler.Template

def defaultSlot : String := "def"

inductive BindingValue where
  /-- `name` -/
  | empty
  /-- `name="text"` -/
  | static (text : String)
  /-- `name` set to code; `initial` reads it once. -/
  | dynamic (code : Code) (initial : Bool)
  /-- `:name` set to code. -/
  | reactive (code : Code)
  deriving DecidableEq

namespace BindingValue

def liveness : BindingValue → Liveness
  | .empty | .static _ => .static
  | .dynamic .. => .dynamic
  | .reactive _ => .reactive

/-- Whether the value stays as it was when the node was made. -/
def isInert : BindingValue → Bool
  | .reactive _ => false
  | _ => true

end BindingValue

structure Binding where
  name : String
  value : BindingValue
  span : Span
  deriving DecidableEq

inductive EventModifier where
  /-- The code is the handler itself. -/
  | handler
  | once
  | capture
  | passive
  | prevent
  | stop
  deriving DecidableEq

namespace EventModifier

def text : EventModifier → String
  | .handler => "handler"
  | .once => "once"
  | .capture => "capture"
  | .passive => "passive"
  | .prevent => "prevent"
  | .stop => "stop"

def all : List EventModifier := [.handler, .once, .capture, .passive, .prevent, .stop]

def ofText? (text : String) : Option EventModifier :=
  all.find? fun m => m.text = text

end EventModifier

structure Handler where
  code : Code
  modifiers : List EventModifier
  span : Span
  deriving DecidableEq

def Handler.has (h : Handler) (m : EventModifier) : Bool := h.modifiers.contains m

/-- All handlers of one event, in source order. -/
structure Listener where
  event : String
  handlers : List Handler
  deriving DecidableEq

/-- Adds a handler behind the others of its event; a new event comes last. -/
def Listener.add (listeners : List Listener) (event : String) (handler : Handler) : List Listener :=
  if listeners.any (·.event = event) then
    listeners.map fun l => if l.event = event then { l with handlers := l.handlers ++ [handler] } else l
  else listeners ++ [⟨event, [handler]⟩]

/-- A signal tied to a name in both directions. -/
structure Sync where
  name : String
  code : Code
  /-- Only the first value is read. -/
  initial : Bool
  span : Span
  deriving DecidableEq

structure Receiver where
  code : Code
  span : Span
  deriving DecidableEq

structure Tag where
  name : String
  id : Option String := none
  classes : List Fragment := []
  bindings : List Binding := []
  listeners : List Listener := []
  receivers : List Receiver := []
  span : Span
  deriving DecidableEq

namespace Tag

def binding? (tag : Tag) (name : String) : Option Binding :=
  tag.bindings.find? fun b => b.name = name

end Tag

inductive SyncKind where
  | text
  | checkbox
  | radio
  | select (multiple : Bool)
  deriving DecidableEq

structure Inclusion where
  name : String
  props : List Binding := []
  syncs : List Sync := []
  listeners : List Listener := []
  span : Span
  deriving DecidableEq

structure Expr where
  code : Code
  reactive : Bool
  deriving DecidableEq

structure Loop where
  /-- May take the item apart. -/
  pattern : String
  index : Option String
  collection : Expr
  deriving DecidableEq

mutual

inductive Entity where
  | tag (tag : Tag) (body : List Entity)
  | synced (kind : SyncKind) (sync : Sync) (tag : Tag) (body : List Entity)
  | text (items : List Fragment) (span : Span)
  | component (inclusion : Inclusion) (insertions : List Insertion)
  | conditional (condition : Expr) (body : List Entity) (elseIfs : List ElseIf)
      (otherwise : Option (List Entity)) (span : Span)
  | each (loop : Loop) (body : List Entity) (span : Span)
  | choice (value : Expr) (cases : List MatchCase) (default : Option (List Entity)) (span : Span)
  | switch (value : Expr) (cases : List SwitchCase) (span : Span)
  | slot (name : String) (fallback : Option (List Entity)) (span : Span)
  | insertion (insertion : Insertion)
  | template (name : String) (params : List String) (body : List Entity) (span : Span)
  | templateUse (name : String) (args : List Code) (span : Span)

inductive ElseIf where
  | mk (condition : Expr) (body : List Entity)

inductive MatchCase where
  | mk (patterns : List Code) (body : List Entity) (span : Span)

inductive SwitchCase where
  /-- `value` is `none` for the default case. -/
  | mk (value : Option Expr) (body : List Entity) (fallsThrough : Bool) (span : Span)

inductive Insertion where
  | mk (slot : String) (body : List Entity) (span : Span)

end

def ElseIf.condition : ElseIf → Expr
  | .mk condition _ => condition

namespace SwitchCase

def value : SwitchCase → Option Expr
  | .mk value _ _ _ => value

def fallsThrough : SwitchCase → Bool
  | .mk _ _ fallsThrough _ => fallsThrough

def span : SwitchCase → Span
  | .mk _ _ _ span => span

def isDefault (c : SwitchCase) : Bool := c.value.isNone

end SwitchCase

namespace Insertion

def slot : Insertion → String
  | .mk slot _ _ => slot

def span : Insertion → Span
  | .mk _ _ span => span

end Insertion

namespace Entity

def span : Entity → Span
  | .tag t _ | .synced _ _ t _ => t.span
  | .component i _ => i.span
  | .insertion i => i.span
  | .text _ s | .conditional _ _ _ _ s | .each _ _ s | .choice _ _ _ s | .switch _ _ s
  | .slot _ _ s | .template _ _ _ s | .templateUse _ _ s => s

end Entity

end ComponentCompiler.Template
