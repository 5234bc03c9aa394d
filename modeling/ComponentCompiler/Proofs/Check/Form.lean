import ComponentCompiler.Proofs.Check.Step

/-!
# Forms

A form is a line with everything on it read and sorted, and the forms below it.
-/

namespace ComponentCompiler.Template

/-- The line of a tag or component, its parts sorted by kind. -/
structure Head where
  name : String
  ids : List String := []
  classes : List Fragment := []
  bindings : List Binding := []
  listeners : List Listener := []
  syncs : List Sync := []
  receivers : List Receiver := []
  deriving DecidableEq

inductive Form where
  | tag (head : Head) (children : List Form)
  | component (head : Head) (children : List Form)
  | text (items : List Fragment)
  | directive (keyword : Keyword) (children : List Form)

namespace Form

def isInsertion : Form → Bool
  | .directive (.insertion _) _ => true
  | _ => false

/-- A fragment in front of others; fixed text joins fixed text. -/
def before : Fragment → List Fragment → List Fragment
  | .static a, .static b :: rest => .static (a ++ b) :: rest
  | f, rest => f :: rest

def coalesce (items : List Fragment) : List Fragment := items.foldr before []

/-- A line of text in front of others; it joins a text that it stands before. -/
def textBefore (items : List Fragment) : List Form → List Form
  | .text more :: rest => .text (coalesce (items ++ .static "\n" :: more)) :: rest
  | rest => .text (coalesce items) :: rest

/-- Lines of text that follow each other are one text with line feeds in it. Lines without items do not
count. -/
def joinText : List Form → List Form
  | [] => []
  | .text items :: rest => if items.isEmpty then joinText rest else textBefore items (joinText rest)
  | f :: rest => f :: joinText rest

/-- The content of a component: insertions first, and one more for what is in none. -/
def slotted (forms : List Form) : List Form :=
  forms.filter isInsertion ++
    match forms.filter (!·.isInsertion) with
    | [] => []
    | others => [.directive (.insertion defaultSlot) others]

end Form

namespace Outline

/-- The line of a header whose events count as `event` has them. -/
def Header.head? (event : String × Handler → String × Handler) (h : Header) : Option Head :=
  (h.attributes.mapM Attribute.read?).map fun read =>
    { name := h.name
      ids := h.shorthands.filterMap Shorthand.id?
      classes := h.shorthands.filterMap Shorthand.class?
      bindings := read.filterMap Attribute.binding?
      listeners := Listener.group ((read.filterMap Attribute.event?).map event)
      syncs := read.filterMap Attribute.sync?
      receivers := read.filterMap Attribute.receiver? }

mutual

def Item.form? : Item → Option Form
  | .tag header children _ => do
    return .tag (← header.head? id) (Form.joinText (← formList? children))
  | .component header children _ => do
    return .component (← header.head? Check.forComponent) (Form.slotted (Form.joinText (← formList? children)))
  | .text items _ => some (.text items)
  | .directive d children _ => do
    return .directive (← d.read?) (Form.joinText (← formList? children))

def formList? : List Item → Option (List Form)
  | [] => some []
  | i :: items => do return (← i.form?) :: (← formList? items)

end

/-- The forms of a list of siblings, nothing if a line cannot be read. -/
def forms? (items : List Item) : Option (List Form) := (formList? items).map Form.joinText

end Outline

def Tag.head (tag : Tag) (syncs : List Sync) : Head :=
  { name := tag.name, ids := tag.id.toList, classes := tag.classes, bindings := tag.bindings,
    listeners := tag.listeners, syncs, receivers := tag.receivers }

def Inclusion.head (i : Inclusion) : Head :=
  { name := i.name, bindings := i.props, listeners := i.listeners, syncs := i.syncs }

mutual

def Entity.forms : Entity → List Form
  | .tag tag body => [.tag (tag.head []) (formsOf body)]
  | .synced _ sync tag body => [.tag (tag.head [sync]) (formsOf body)]
  | .text items _ => [.text items]
  | .component inclusion insertions => [.component inclusion.head (insertionForms insertions)]
  | .conditional condition body elseIfs otherwise _ =>
    .directive (.conditional condition) (formsOf body) :: (elseIfForms elseIfs ++ lastForms .otherwise otherwise)
  | .each loop body _ => [.directive (.each loop) (formsOf body)]
  | .choice value cases default _ =>
    .directive (.choice value) [] :: (matchForms cases ++ lastForms (.default false) default)
  | .switch value cases _ => .directive (.switch value) [] :: switchForms cases
  | .slot name fallback _ => [.directive (.slot name) (fallbackForms fallback)]
  | .insertion insertion => [insertion.form]
  | .template name params body _ => [.directive (.template name params) (formsOf body)]
  | .templateUse name args _ => [.directive (.templateUse name args) []]

def formsOf : List Entity → List Form
  | [] => []
  | e :: es => e.forms ++ formsOf es

def ElseIf.form : ElseIf → Form
  | .mk condition body => .directive (.elseIf condition) (formsOf body)

def elseIfForms : List ElseIf → List Form
  | [] => []
  | branch :: rest => branch.form :: elseIfForms rest

def MatchCase.form : MatchCase → Form
  | .mk patterns body _ => .directive (.when patterns) (formsOf body)

def matchForms : List MatchCase → List Form
  | [] => []
  | branch :: rest => branch.form :: matchForms rest

def SwitchCase.form : SwitchCase → Form
  | .mk (some value) body falls _ => .directive (.case falls value) (formsOf body)
  | .mk none body falls _ => .directive (.default falls) (formsOf body)

def switchForms : List SwitchCase → List Form
  | [] => []
  | branch :: rest => branch.form :: switchForms rest

def Insertion.form : Insertion → Form
  | .mk slot body _ => .directive (.insertion slot) (formsOf body)

def insertionForms : List Insertion → List Form
  | [] => []
  | insertion :: rest => insertion.form :: insertionForms rest

def lastForms (keyword : Keyword) : Option (List Entity) → List Form
  | none => []
  | some body => [.directive keyword (formsOf body)]

def fallbackForms : Option (List Entity) → List Form
  | none => []
  | some body => formsOf body

end

end ComponentCompiler.Template
