import ComponentCompiler.Contract
import ComponentCompiler.Program.Basic

/-!
# From entities to statements

Every entity is put at a `Place`. Two or more nodes that go into an element are gathered in a fragment
first; a node that is all an element holds may replace its content. What depends on a reactive
expression gets a region of its own.
-/

namespace ComponentCompiler.Program

open Template

inductive LoweringError where
  | unknownSlot (name : String) (span : Span)
  | requiredSlotFallback (name : String) (span : Span)
  | duplicateDefault (span : Span)
  | misplacedInsertion (span : Span)
  deriving DecidableEq

namespace LoweringError

def span : LoweringError → Span
  | .unknownSlot _ s | .requiredSlotFallback _ s | .duplicateDefault s | .misplacedInsertion s => s

def message : LoweringError → String
  | .unknownSlot name _ => s!"slot `{name}` is not declared by the component"
  | .requiredSlotFallback name _ => s!"required slot `{name}` cannot have a fallback"
  | .duplicateDefault _ => "a switch has more than one default case"
  | .misplacedInsertion _ => "`@insert` outside of a component inclusion"

end LoweringError

abbrev Lowering := Except LoweringError

/-- Whether the entity is shown where it stands; local templates are not. -/
def isRendered : Entity → Bool
  | .template .. => false
  | _ => true

def renderedCount (entities : List Entity) : Nat := entities.countP isRendered

/-- Puts `count` entities at a place; `body` puts each of them at the place it is given. -/
def gather (place : Place) (path : Path) (count : Nat) (body : Place → Lowering (List Stmt)) :
    Lowering (List Stmt) :=
  if place.isReal && 2 ≤ count then do
    let fragment : Temp := ⟨.fragment, path⟩
    let statements ← body ⟨place.real, .temp fragment, false⟩
    return .act (.createFragment fragment) :: statements ++ [.act (.append place.real fragment)]
  else body (if count = 1 then place else place.notLone)

/-- Content that depends on a reactive expression is put into a region. -/
def regional (reactive : Bool) (place : Place) (body : Place → Lowering (List Stmt)) :
    Lowering (List Stmt) :=
  if reactive then do
    let statements ← body .scope
    return [.region place statements]
  else body place

def following (liveness : Liveness) (action : Action) : Stmt :=
  if liveness = .reactive then .effect action else .act action

def syncStatements (e : Temp) (kind : SyncKind) (signal : Code) : List Stmt :=
  match kind with
  | .text => [.act (.bindProperty e "value" "input" signal)]
  | .checkbox => [.act (.bindProperty e "checked" "change" signal)]
  | .radio => [.effect (.checkRadio e signal), .act (.listenRadio e signal)]
  | .select true => [.selectOptions e signal, .act (.listenOptions e signal)]
  | .select false => [.act (.bindProperty e "value" "change" signal)]

def openingStatements (e : Temp) (tag : Tag) : List Stmt :=
  .act (.createElement e tag.name tag.classes)
    :: (tag.id.toList.map fun id => .act (.setId e id))
    ++ (tag.bindings.map fun b => following b.value.liveness (.bind e b.name b.value))
    ++ (tag.listeners.map fun l => .act (.listen e l))

def closingStatements (e : Temp) (tag : Tag) (sync : List Stmt) (place : Place) : List Stmt :=
  sync ++ (tag.receivers.map fun r => .act (.receive e r.code)) ++ [.act (.append place.node e)]

def elementStatements (e : Temp) (tag : Tag) (sync : List Stmt) (place : Place)
    (body : List Stmt) : List Stmt :=
  openingStatements e tag ++ body ++ closingStatements e tag sync place

def textStatements (path : Path) (place : Place) (items : List Fragment) : List Stmt :=
  let liveness := Liveness.combine (items.map Fragment.liveness)
  let text : Temp := ⟨.text, path⟩
  if place.lone && place.isReal then [following liveness (.setContent place.real items)]
  else if liveness = .reactive then
    [.act (.createText text), .effect (.setData text items), .act (.append place.node text)]
  else [.act (.appendText place.node items)]

def conditionalReactive (condition : Expr) (elseIfs : List ElseIf) : Bool :=
  condition.reactive || elseIfs.any (·.condition.reactive)

def switchReactive (value : Expr) (cases : List SwitchCase) : Bool :=
  value.reactive || cases.any fun c => (c.value.map (·.reactive)).getD false

def extraDefaults (cases : List SwitchCase) : List SwitchCase :=
  (cases.filter (·.isDefault)).drop 1

/-- A fallthrough case adds to what the case before has shown, so no case is alone. -/
def switchPlace (place : Place) (cases : List SwitchCase) : Place :=
  if cases.any (·.fallsThrough) then place.notLone else place

/-- The values that lead to a match case, none when there are no patterns. -/
def matchLabel? (patterns : List Code) : Option Label :=
  patterns.getLast?.map fun last => .values patterns.dropLast last

def switchLabel : Option Expr → Label
  | some value => .values [] value.code
  | none => .default

def exhaustiveClause (m : Temp) : Clause := .mk .default [.act (.exhaustive m)]

def switchStatements (m : Temp) (value : Code) (clauses : List Clause) : List Stmt :=
  [.act (.declareSubject m value), .switch m clauses]

variable (slots : SlotTable)

def slotStatements (name : String) (span : Span) (place : Place)
    (body : Option (Lowering (List Stmt))) : Lowering (List Stmt) :=
  match slots.find? name with
  | none => .error (.unknownSlot name span)
  | some decl =>
    match decl.optional, body with
    | false, some _ => .error (.requiredSlotFallback name span)
    | false, none => .ok [.act (.slot name place)]
    | true, none => .ok [.act (.optionalSlot name place)]
    | true, some body => do return [.fallbackSlot name place (← body)]

mutual

def lowerEntity (place : Place) (path : Path) : Entity → Lowering (List Stmt)
  | .tag tag body => do
    let e : Temp := ⟨.element, path⟩
    let body ← gather (.element e) path (renderedCount body) fun p => lowerFrom p path 0 body
    return elementStatements e tag [] place body
  | .synced kind sync tag body => do
    let e : Temp := ⟨.element, path⟩
    let body ← gather (.element e) path (renderedCount body) fun p => lowerFrom p path 0 body
    return elementStatements e tag (syncStatements e kind sync.code) place body
  | .text items _ => return textStatements path place items
  | .component inclusion insertions => do
    let fillings ← lowerInsertions path 0 insertions
    return [.component inclusion place fillings]
  | .conditional condition body elseIfs otherwise _ =>
    regional (conditionalReactive condition elseIfs) place fun place => do
      let first := path ++ [0]
      let statements ← gather place first (renderedCount body) fun p => lowerFrom p first 0 body
      let branches ← lowerElseIfs place path 1 elseIfs
      let last ← lowerOptional place (path ++ [elseIfs.length + 1]) otherwise
      return [.conditional condition.code statements branches last]
  | .each loop body _ =>
    regional loop.collection.reactive place fun place => do
      let statements ← gather place.notLone path (renderedCount body) fun p =>
        lowerFrom p path 0 body
      return [.loop loop statements]
  | .choice value cases default _ =>
    regional value.reactive place fun place => do
      let m : Temp := ⟨.subject, path⟩
      let clauses ← lowerMatchCases place path 0 cases
      let last ← lowerOptional place (path ++ [cases.length]) default
      let last := match last with
        | some body => .mk .default (body ++ [.act .break])
        | none => exhaustiveClause m
      return switchStatements m value.code (clauses ++ [last])
  | .switch value cases _ =>
    regional (switchReactive value cases) place fun place => do
      match extraDefaults cases with
      | extra :: _ => throw (.duplicateDefault extra.span)
      | [] =>
        let m : Temp := ⟨.subject, path⟩
        let hasDefault := cases.any (·.isDefault)
        let clauses ← lowerSwitchCases (switchPlace place cases) hasDefault path 0 cases
        return switchStatements m value.code
          (clauses ++ if hasDefault then [] else [exhaustiveClause m])
  | .slot name fallback span =>
    slotStatements slots name span place (lowerFallback path fallback)
  | .insertion insertion => throw (.misplacedInsertion insertion.span)
  | .template .. => return []
  | .templateUse name args _ => return [.act (.templateUse name place args)]

def lowerFrom (place : Place) (path : Path) (i : Nat) : List Entity → Lowering (List Stmt)
  | [] => return []
  | entity :: entities => do
    let first ← lowerEntity place (path ++ [i]) entity
    let rest ← lowerFrom place path (i + 1) entities
    return first ++ rest

def lowerOptional (place : Place) (path : Path) :
    Option (List Entity) → Lowering (Option (List Stmt))
  | none => return none
  | some body => do
    return some (← gather place path (renderedCount body) fun p => lowerFrom p path 0 body)

def lowerElseIfs (place : Place) (path : Path) (i : Nat) : List ElseIf → Lowering (List Branch)
  | [] => return []
  | .mk condition body :: elseIfs => do
    let path' := path ++ [i]
    let body ← gather place path' (renderedCount body) fun p => lowerFrom p path' 0 body
    let rest ← lowerElseIfs place path (i + 1) elseIfs
    return .mk condition.code body :: rest

/-- A case without patterns is never reached and left out. -/
def lowerMatchCases (place : Place) (path : Path) (i : Nat) :
    List MatchCase → Lowering (List Clause)
  | [] => return []
  | .mk patterns body _ :: cases =>
    match matchLabel? patterns with
    | none => lowerMatchCases place path (i + 1) cases
    | some label => do
      let path' := path ++ [i]
      let body ← gather place path' (renderedCount body) fun p => lowerFrom p path' 0 body
      let rest ← lowerMatchCases place path (i + 1) cases
      return .mk label (body ++ [.act .break]) :: rest

/-- The last case never falls into the clause for unexpected values. -/
def lowerSwitchCases (place : Place) (hasDefault : Bool) (path : Path)
    (i : Nat) : List SwitchCase → Lowering (List Clause)
  | [] => return []
  | .mk value body fallsThrough _ :: cases => do
    let path' := path ++ [i]
    let body ← gather place path' (renderedCount body) fun p => lowerFrom p path' 0 body
    let rest ← lowerSwitchCases place hasDefault path (i + 1) cases
    let stops := !fallsThrough || (cases.isEmpty && !hasDefault)
    return .mk (switchLabel value) (body ++ if stops then [.act .break] else []) :: rest

def lowerFallback (path : Path) : Option (List Entity) → Option (Lowering (List Stmt))
  | none => none
  | some body =>
    some (gather .scope path (renderedCount body) fun p => lowerFrom p path 0 body)

def lowerInsertions (path : Path) (i : Nat) : List Insertion → Lowering (List Filling)
  | [] => return []
  | .mk slot body _ :: insertions => do
    let path' := path ++ [i]
    let body ← gather .scope path' (renderedCount body) fun p => lowerFrom p path' 0 body
    let rest ← lowerInsertions path (i + 1) insertions
    return .mk slot body :: rest

end

def lowerList (place : Place) (path : Path) (entities : List Entity) : Lowering (List Stmt) :=
  gather place path (renderedCount entities) fun p => lowerFrom slots p path 0 entities

def lowerTemplates (i : Nat) : List Entity → Lowering (List Stmt)
  | [] => return []
  | .template name params body _ :: entities => do
    let body ← lowerList slots .scope [i] body
    let rest ← lowerTemplates (i + 1) entities
    return .template name params body :: rest
  | _ :: entities => lowerTemplates (i + 1) entities

def ofEntities (entities : List Entity) : Lowering (List Stmt) := do
  let templates ← lowerTemplates slots 0 entities
  let body ← lowerList slots .scope [] entities
  return templates ++ body

end ComponentCompiler.Program
