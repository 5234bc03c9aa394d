import ComponentCompiler.Program.Basic
import ComponentCompiler.Program.Listener
import ComponentCompiler.Text.Writer

/-!
# Writing statements

`Stmt.steps` gives the lines of a statement and how they are indented.
-/

namespace ComponentCompiler.Program

open Template
open Text.Writer (Step)

abbrev Steps := List (Step Line)

namespace Line

def temp (t : Temp) : Piece := .node (.temp t)

def nodes (place : Place) : Line := [.node place.real, .fixed ", ", .node place.node]

def filler : Piece := .fixed "(___realParent, ___parent) => \x7b"

def object (entries : List (String × Line)) : Line :=
  if entries.isEmpty then [.helper .emptyObject]
  else .fixed "\x7b " ::
    join ", " (entries.map fun (key, value) => .key key :: .fixed ": " :: value) ++ [.fixed " \x7d"]

end Line

def creationLine (tag : String) (classes : List Fragment) : Line :=
  let fragments := Line.join ", " (classes.map fun f => match f with
    | .static text => [.quoted text]
    | .dynamic code | .reactive code => [.code code.text])
  if classes.isEmpty then [.helper .createElement, .fixed "(", .quoted tag, .fixed ")"]
  else
    match Liveness.combine (classes.map Fragment.liveness) with
    | .static =>
      [.helper .createElementClass, .fixed "(", .quoted tag, .fixed ", ",
        .quoted (" ".intercalate (classes.map Fragment.staticText)), .fixed ")"]
    | .dynamic =>
      [.helper .createElementClasses, .fixed "(", .quoted tag, .fixed ", ["] ++ fragments
        ++ [.fixed "])"]
    | .reactive =>
      [.helper .createElementReactiveClasses, .fixed "(", .quoted tag, .fixed ", () => ["]
        ++ fragments ++ [.fixed "])"]

def isAttributeName (name : String) : Bool := name.toList.contains '-'

def bindingValueLine (asAttribute : Bool) : BindingValue → Line
  | .empty => if asAttribute then [.quoted ""] else [.fixed "true"]
  | .static text => [.quoted text]
  | .dynamic code _ | .reactive code => [.code code.text]

def bindingLine (e : Temp) (name : String) (value : BindingValue) : Line :=
  if isAttributeName name then
    [Line.temp e, .fixed ".setAttribute(", .quoted name, .fixed ", "] ++ bindingValueLine true value
      ++ [.fixed ");"]
  else
    [Line.temp e, .fixed ".", .name name, .fixed " = "] ++ bindingValueLine false value
      ++ [.fixed ";"]

def Action.line : Action → Line
  | .createElement e tag classes =>
    [.fixed "const ", .declare e, .fixed " = "] ++ creationLine tag classes ++ [.fixed ";"]
  | .createFragment f =>
    [.fixed "const ", .declare f, .fixed " = document.createDocumentFragment();"]
  | .createText t =>
    [.fixed "const ", .declare t, .fixed " = ", .helper .createTextNode, .fixed "(\"\");"]
  | .setId e id => [Line.temp e, .fixed ".id = ", .quoted id, .fixed ";"]
  | .bind e name value => bindingLine e name value
  | .listen e listener =>
    [Line.temp e, .fixed ".addEventListener(", .quoted listener.event, .fixed ", "]
      ++ (ListenerFunction.ofHandlers listener.handlers).line
      ++ optionsLine (listenerOptions listener.handlers) ++ [.fixed ");"]
  | .bindProperty e property event signal =>
    [.helper .bindProperty, .fixed "(", Line.temp e, .fixed ", ", .quoted property, .fixed ", ",
      .quoted event, .fixed ", ", .code signal.text, .fixed ");"]
  | .checkRadio e signal =>
    [Line.temp e, .fixed ".checked = ", .callee signal, .fixed "() === ", Line.temp e,
      .fixed ".value;"]
  | .listenRadio e signal =>
    [Line.temp e, .fixed ".addEventListener(\"change\", () => \x7b if (", Line.temp e,
      .fixed ".checked) ", .callee signal, .fixed ".set(", Line.temp e, .fixed ".value); \x7d);"]
  | .listenOptions e signal =>
    [Line.temp e, .fixed ".addEventListener(\"change\", () => ", .callee signal,
      .fixed ".set(Array.from(", Line.temp e,
      .fixed ".selectedOptions, ___option => ___option.value)));"]
  | .receive e receiver => [.callee receiver, .fixed "(", Line.temp e, .fixed ");"]
  | .append node child => [.node node, .fixed ".appendChild(", Line.temp child, .fixed ");"]
  | .appendText node items =>
    [.node node, .fixed ".appendChild(", .helper .createTextNode, .fixed "(", .content items,
      .fixed "));"]
  | .setContent node items => [.node node, .fixed ".textContent = ", .content items, .fixed ";"]
  | .setData t items => [Line.temp t, .fixed ".data = ", .content items, .fixed ";"]
  | .declareSubject m value =>
    [.fixed "const ", .declare m, .fixed " = ", .code value.text, .fixed ";"]
  | .exhaustive m => [.helper .exhaustive, .fixed "(", Line.temp m, .fixed ");"]
  | .break => [.fixed "break;"]
  | .slot name place =>
    [.fixed "$slots.", .name name, .fixed "("] ++ Line.nodes place ++ [.fixed ");"]
  | .optionalSlot name place =>
    [.fixed "($slots.", .name name, .fixed " ?? ", .helper .noop, .fixed ")("] ++ Line.nodes place
      ++ [.fixed ");"]
  | .templateUse name place args =>
    [.fixed "___template_", .name name, .fixed "("] ++ Line.nodes place
      ++ args.flatMap (fun arg => [.fixed ", ", .code arg.text]) ++ [.fixed ");"]

def propLine : BindingValue → Line
  | .empty => [.helper .fakeInitial, .fixed "(true)"]
  | .static text => [.helper .fakeInitial, .fixed "(", .quoted text, .fixed ")"]
  | .dynamic code false => [.code code.text]
  | .dynamic code true => [.helper .fakeInitial, .fixed "(", .code code.text, .fixed ")"]
  | .reactive code => [.helper .fakeImmutable, .fixed "(() => ", .code code.text, .fixed ")"]

def syncLine (sync : Sync) : Line :=
  if sync.initial then [.helper .fakeMutable, .fixed "(", .code sync.code.text, .fixed ")"]
  else [.code sync.code.text]

/-- The call of a component, up to its last argument. -/
def componentLine (i : Inclusion) (place : Place) : Line :=
  [.name i.name, .fixed "("] ++ Line.nodes place ++ [.fixed ", "]
    ++ Line.object (i.props.map fun b => (b.name, propLine b.value)) ++ [.fixed ", "]
    ++ Line.object (i.syncs.map fun s => (s.name, syncLine s)) ++ [.fixed ", "]
    ++ Line.object (i.listeners.map fun l => (l.event, (ListenerFunction.ofHandlers l.handlers).line))
    ++ [.fixed ", "]

def loopLine (loop : Loop) : Line :=
  match loop.index with
  | some index =>
    [.fixed "for (const [", .name index, .fixed ", ", .code loop.pattern, .fixed "] of Array.from(",
      .code loop.collection.code.text, .fixed ").entries()) \x7b"]
  | none =>
    [.fixed "for (const ", .code loop.pattern, .fixed " of ", .code loop.collection.code.text,
      .fixed ") \x7b"]

def regionLine (place : Place) : Line :=
  if place.lone then
    [.helper .contentEffect, .fixed "(", .node place.real, .fixed ", ", Line.filler]
  else [.helper .rangeEffect, .fixed "("] ++ Line.nodes place ++ [.fixed ", ", Line.filler]

def effectSteps (body : Steps) : Steps :=
  .enter [.helper .effect, .fixed "(() => \x7b"] :: body ++ [.leave [.fixed "\x7d);"]]

def selectOptionsSteps (e : Temp) (signal : Code) : Steps :=
  effectSteps
    [.line [.fixed "const ___selected = ", .callee signal, .fixed "();"],
      .enter [.fixed "for (const ___option of Array.from(", Line.temp e, .fixed ".options)) \x7b"],
      .line [.fixed "___option.selected = ___selected.includes(___option.value);"],
      .leave [.fixed "\x7d"]]

def labelSteps : Label → Steps
  | .default => [.enter [.fixed "default: \x7b"]]
  | .values others last =>
    (others.map fun code => .line [.fixed "case ", .code code.text, .fixed ":"])
      ++ [.enter [.fixed "case ", .code last.text, .fixed ": \x7b"]]

def templateLine (name : String) (params : List String) : Line :=
  [.fixed "function ___template_", .name name, .fixed "(___realParent: Node, ___parent: Node"]
    ++ params.flatMap (fun param => [.fixed ", ", .code param]) ++ [.fixed ") \x7b"]

mutual

def Stmt.steps : Stmt → Steps
  | .act action => [.line action.line]
  | .effect action => effectSteps [.line action.line]
  | .selectOptions e signal => selectOptionsSteps e signal
  | .region place body => .enter (regionLine place) :: steps body ++ [.leave [.fixed "\x7d);"]]
  | .conditional condition body elseIfs otherwise =>
    .enter [.fixed "if (", .code condition.text, .fixed ") \x7b"] :: steps body
      ++ branchSteps elseIfs ++ otherwiseSteps otherwise ++ [.leave [.fixed "\x7d"]]
  | .loop loop body => .enter (loopLine loop) :: steps body ++ [.leave [.fixed "\x7d"]]
  | .switch subject clauses =>
    .enter [.fixed "switch (", Line.temp subject, .fixed ") \x7b"] :: clauseSteps clauses
      ++ [.leave [.fixed "\x7d"]]
  | .fallbackSlot name place body =>
    .enter [.fixed "($slots.", .name name, .fixed " ?? (", Line.filler] :: steps body
      ++ [.leave (.fixed "\x7d))(" :: Line.nodes place ++ [.fixed ");"])]
  | .component inclusion place fillings =>
    match fillings with
    | [] => [.line (componentLine inclusion place ++ [.helper .emptyObject, .fixed ");"])]
    | fillings =>
      .enter (componentLine inclusion place ++ [.fixed "\x7b"]) :: fillingSteps fillings
        ++ [.leave [.fixed "\x7d);"]]
  | .template name params body =>
    .enter (templateLine name params) :: steps body ++ [.leave [.fixed "\x7d"]]

def steps : List Stmt → Steps
  | [] => []
  | statement :: statements => statement.steps ++ steps statements

def branchSteps : List Branch → Steps
  | [] => []
  | .mk condition body :: branches =>
    .leave [.fixed "\x7d else if (", .code condition.text, .fixed ") \x7b"] :: .indent :: steps body
      ++ branchSteps branches

def otherwiseSteps : Option (List Stmt) → Steps
  | none => []
  | some body => .leave [.fixed "\x7d else \x7b"] :: .indent :: steps body

def clauseSteps : List Clause → Steps
  | [] => []
  | .mk label body :: clauses =>
    labelSteps label ++ steps body ++ [.leave [.fixed "\x7d"]] ++ clauseSteps clauses

def fillingSteps : List Filling → Steps
  | [] => []
  | .mk slot body :: fillings =>
    .enter [.key slot, .fixed ": ", Line.filler] :: steps body ++ [.leave [.fixed "\x7d,"]]
      ++ fillingSteps fillings

end

end ComponentCompiler.Program
