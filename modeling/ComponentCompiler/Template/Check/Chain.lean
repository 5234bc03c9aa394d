import ComponentCompiler.Template.Argument
import ComponentCompiler.Template.Check.Basic

/-!
# Directive chains

`@if`, `@match` and `@switch` open a chain that sibling directives go on with. The chain becomes one
entity when a sibling comes that does not belong to it.
-/

namespace ComponentCompiler.Template

inductive Continuation where
  | elseIf
  | otherwise
  | when
  | case
  | fallCase
  | default
  | fallDefault
  deriving DecidableEq

def Continuation.ofName? (name : String) : Option Continuation :=
  if name = "elseif" then some .elseIf
  else if name = "else" then some .otherwise
  else if name = "when" then some .when
  else if name = "case" then some .case
  else if name = "fallcase" then some .fallCase
  else if name = "default" then some .default
  else if name = "falldefault" then some .fallDefault
  else none

inductive Chain where
  | conditional (condition : Expr) (body : List Entity) (elseIfs : List ElseIf)
      (otherwise : Option (List Entity)) (span : Span)
  | choice (value : Expr) (cases : List MatchCase) (default : Option (List Entity)) (span : Span)
  | switch (value : Expr) (cases : List SwitchCase) (span : Span)

/-- The entities of a list of siblings so far, the last one first, and the chain that is open. -/
structure Siblings where
  done : List Entity := []
  chain : Option Chain := none

namespace Siblings

def push (s : Siblings) (e : Entity) : Siblings := { s with done := e :: s.done }

def push? (s : Siblings) : Option Entity → Siblings
  | some e => s.push e
  | none => s

end Siblings

namespace Fragment

/-- Adds a fragment; fixed text joins fixed text before it. -/
def append (items : List Fragment) (f : Fragment) : List Fragment :=
  match items.getLast?, f with
  | some (.static a), .static b => items.dropLast ++ [.static (a ++ b)]
  | _, f => items ++ [f]

def appendAll (items more : List Fragment) : List Fragment := more.foldl append items

end Fragment

/-- Adds a line of text. It joins text directly before it, on a line of its own; a line without items
adds nothing. -/
def Siblings.pushText (s : Siblings) (items : List Fragment) (span : Span) : Siblings :=
  if items.isEmpty then s
  else
    match s.done with
    | .text before start :: done =>
      let items := Fragment.appendAll (Fragment.append before (.static "\n")) items
      { s with done := .text items (start.merge span) :: done }
    | done => { s with done := .text (Fragment.appendAll [] items) span :: done }

namespace Check

def refuseArgument (d : Outline.Directive) : Check Unit := do
  if let some argument := d.argument then
    error .directiveUnexpectedArgument argument.span s!"`@{d.name}` takes no argument"

/-- The argument as an expression. Without one the directive gets an empty expression, after an
error. -/
def requireExpr (d : Outline.Directive) : Check Expr := do
  match d.argument.filter fun a => !a.text.isEmpty with
  | some argument => return Argument.expr argument.text.toList argument.span
  | none =>
    error .directiveMissingArgument d.nameSpan s!"`@{d.name}` needs an argument"
    return ⟨Code.ofList [] d.nameSpan, false⟩

def patterns (d : Outline.Directive) : Check (List Code) := do
  match d.argument with
  | none =>
    error .directiveMissingArgument d.nameSpan "`@when` needs at least one pattern"
    return []
  | some argument =>
    let patterns := Argument.codes (Argument.split argument.text.toList ',') argument.span
    if patterns.isEmpty then
      error .directiveMissingArgument argument.span "`@when` needs at least one pattern"
    return patterns

def unpreceded (d : Outline.Directive) (opener : String) : Check Unit :=
  error .directiveUnpreceded d.nameSpan s!"`@{d.name}` must follow {opener}"

def duplicateDefault (span : Span) : Check Unit :=
  error .directiveDuplicateDefault span "only one default case is allowed"

section

variable (d : Outline.Directive) (span : Span) (body : Check (List Entity))

def continueElseIf : Option Chain → Check (Option Chain)
  | some (.conditional condition first elseIfs none start) => do
    let next ← requireExpr d
    let body ← body
    return some (.conditional condition first (elseIfs ++ [.mk next body]) none (start.merge span))
  | chain@(some (.conditional ..)) => do
    error .directiveAfterElse span "`@elseif` cannot follow `@else`"
    return chain
  | chain => do
    unpreceded d "`@if`"
    return chain

def continueOtherwise : Option Chain → Check (Option Chain)
  | some (.conditional condition first elseIfs none start) => do
    refuseArgument d
    let body ← body
    return some (.conditional condition first elseIfs (some body) (start.merge span))
  | chain@(some (.conditional ..)) => do
    error .directiveAfterElse span "an `@if` chain has at most one `@else`"
    return chain
  | chain => do
    unpreceded d "`@if`"
    return chain

def continueWhen : Option Chain → Check (Option Chain)
  | some (.choice value cases none start) => do
    let patterns ← patterns d
    let body ← body
    return some (.choice value (cases ++ [.mk patterns body span]) none (start.merge span))
  | chain@(some (.choice ..)) => do
    error .directiveAfterDefault span "`@when` cannot follow `@default`"
    return chain
  | chain => do
    unpreceded d "`@match`"
    return chain

def continueCase (fallsThrough : Bool) (d : Outline.Directive) (span : Span)
    (body : Check (List Entity)) : Option Chain → Check (Option Chain)
  | some (.switch value cases start) => do
    let expr ← requireExpr d
    let body ← body
    return some (.switch value (cases ++ [.mk (some expr) body fallsThrough span]) (start.merge span))
  | chain => do
    unpreceded d "`@switch`"
    return chain

def switchDefault (fallsThrough : Bool) (span : Span) (body : Check (List Entity)) (value : Expr)
    (cases : List SwitchCase) (start : Span) : Check (Option Chain) := do
  if cases.any (·.isDefault) then
    duplicateDefault span
    return some (.switch value cases start)
  else
    let body ← body
    return some (.switch value (cases ++ [.mk none body fallsThrough span]) (start.merge span))

def continueDefault : Option Chain → Check (Option Chain)
  | some (.choice value cases none start) => do
    refuseArgument d
    let body ← body
    return some (.choice value cases (some body) (start.merge span))
  | chain@(some (.choice ..)) => do
    refuseArgument d
    duplicateDefault span
    return chain
  | some (.switch value cases start) => do
    refuseArgument d
    switchDefault false span body value cases start
  | chain => do
    refuseArgument d
    unpreceded d "`@match` or `@switch`"
    return chain

def continueFallDefault : Option Chain → Check (Option Chain)
  | some (.switch value cases start) => do
    refuseArgument d
    switchDefault true span body value cases start
  | chain => do
    refuseArgument d
    unpreceded d "`@switch`"
    return chain

end

/-- The chain after a directive that goes on with it. One that does not fit leaves it as it was. -/
def continueChain (k : Continuation) (d : Outline.Directive) (span : Span)
    (body : Check (List Entity)) (chain : Option Chain) : Check (Option Chain) :=
  match k with
  | .elseIf => continueElseIf d span body chain
  | .otherwise => continueOtherwise d span body chain
  | .when => continueWhen d span body chain
  | .case => continueCase false d span body chain
  | .fallCase => continueCase true d span body chain
  | .default => continueDefault d span body chain
  | .fallDefault => continueFallDefault d span body chain

def closeChain (s : Siblings) : Check Siblings := do
  match s.chain with
  | none => return s
  | some (.conditional condition body elseIfs otherwise span) =>
    return ⟨.conditional condition body elseIfs otherwise span :: s.done, none⟩
  | some (.choice value cases default span) =>
    if cases.isEmpty && default.isNone then
      warning .directiveNoCases span "`@match` has no `@when` or `@default` cases"
    return ⟨.choice value cases default span :: s.done, none⟩
  | some (.switch value cases span) =>
    if cases.isEmpty then
      warning .directiveNoCases span "`@switch` has no `@case` or `@default` cases"
    return ⟨.switch value cases span :: s.done, none⟩

end Check

end ComponentCompiler.Template
