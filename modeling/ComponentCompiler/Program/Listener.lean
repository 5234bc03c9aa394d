import ComponentCompiler.Program.Line
import ComponentCompiler.Template.Entity

/-!
# Event listeners

All handlers of an event become one function. One handler alone can be that function itself; several
handlers, or one that touches the event, are dispatched in order.
-/

namespace ComponentCompiler.Program

open Template

inductive ListenerStep where
  | preventDefault
  | stopPropagation
  | call (code : Code)
  | evaluate (code : Code)
  deriving DecidableEq

inductive ListenerFunction where
  | plain (code : Code)
  | arrow (code : Code)
  | dispatcher (steps : List ListenerStep)
  deriving DecidableEq

def isFunction (h : Handler) : Bool := h.code.isBare || h.has .handler

/-- Whether the handler changes what happens to the event. -/
def touchesEvent (h : Handler) : Bool := h.has .prevent || h.has .stop

def handlerSteps (h : Handler) : List ListenerStep :=
  (if h.has .prevent then [.preventDefault] else [])
    ++ (if h.has .stop then [.stopPropagation] else [])
    ++ [if isFunction h then .call h.code else .evaluate h.code]

namespace ListenerFunction

def ofHandlers (handlers : List Handler) : ListenerFunction :=
  match handlers with
  | [h] =>
    if touchesEvent h then .dispatcher (handlerSteps h)
    else if isFunction h then .plain h.code
    else .arrow h.code
  | handlers => .dispatcher (handlers.flatMap handlerSteps)

end ListenerFunction

def optionModifiers : List EventModifier := [.once, .capture, .passive]

def listenerOptions (handlers : List Handler) : List EventModifier :=
  optionModifiers.filter fun m => handlers.any (·.has m)

def ListenerStep.line : ListenerStep → Line
  | .preventDefault => [.fixed "$event.preventDefault();"]
  | .stopPropagation => [.fixed "$event.stopPropagation();"]
  | .call code => [.callee code, .fixed "($event);"]
  | .evaluate code => [.code code.text, .fixed ";"]

def ListenerFunction.line : ListenerFunction → Line
  | .plain code => [.code code.text]
  | .arrow code => [.fixed "$event => ", .code code.text]
  | .dispatcher steps =>
    .fixed "$event => \x7b " :: Line.join " " (steps.map ListenerStep.line) ++ [.fixed " \x7d"]

def optionsLine (options : List EventModifier) : Line :=
  if options.isEmpty then []
  else .fixed ", \x7b " ::
    Line.join ", " (options.map fun m => [.fixed m.text, .fixed ": true"]) ++ [.fixed " \x7d"]

end ComponentCompiler.Program
