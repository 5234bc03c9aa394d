import ComponentCompiler.Proofs.Check.Conservation
import ComponentCompiler.Program.Module

/-!
# What programs are made of

The pieces that forms bring into a program, and what the lines of a program hold if these do.
-/

namespace ComponentCompiler

open Program (Piece)

namespace Template

def Fragment.pieces : Fragment → List Piece
  | .static _ => []
  | .dynamic code | .reactive code => [.code code.text]

def BindingValue.pieces : BindingValue → List Piece
  | .empty | .static _ => []
  | .dynamic code _ | .reactive code => [.code code.text]

def Listener.pieces (l : Listener) : List Piece := l.handlers.map fun h => .code h.code.text

def Head.pieces (h : Head) : List Piece :=
  .name h.name :: h.classes.flatMap Fragment.pieces
    ++ h.bindings.flatMap (fun b => .name b.name :: b.value.pieces)
    ++ h.listeners.flatMap Listener.pieces
    ++ h.syncs.map (fun s => .code s.code.text)
    ++ h.receivers.map fun r => .code r.code.text

def Keyword.pieces : Keyword → List Piece
  | .conditional e | .elseIf e | .choice e | .switch e | .case _ e => [.code e.code.text]
  | .otherwise | .default _ => []
  | .when patterns => patterns.map fun c => .code c.text
  | .each loop => .code loop.pattern :: .code loop.collection.code.text :: loop.index.toList.map .name
  | .slot name | .insertion name => [.name name]
  | .template name params => .name name :: params.map .code
  | .templateUse name args => .name name :: args.map fun c => .code c.text

mutual

def Form.pieces : Form → List Piece
  | .tag head children | .component head children => head.pieces ++ piecesOf children
  | .text items => [.content items]
  | .directive keyword children => keyword.pieces ++ piecesOf children

def piecesOf : List Form → List Piece
  | [] => []
  | f :: forms => f.pieces ++ piecesOf forms

end

def Head.values (h : Head) : List Piece :=
  h.classes.flatMap Fragment.pieces ++ h.bindings.flatMap (fun b => b.value.pieces)
    ++ h.listeners.flatMap Listener.pieces
    ++ h.syncs.map (fun s => .code s.code.text)
    ++ h.receivers.map fun r => .code r.code.text

/-- The names of an element's properties; other attributes are set by a quoted name. -/
def Head.properties (h : Head) : List Piece :=
  (h.bindings.filter fun b => !Program.isAttributeName b.name).map fun b => .name b.name

mutual

def Form.parts : Form → List Piece
  | .tag head children => head.properties ++ head.values ++ partsOf children
  | .component head children => .name head.name :: head.values ++ partsOf children
  | .text items => [.content items]
  | .directive keyword children => keyword.pieces ++ partsOf children

def partsOf : List Form → List Piece
  | [] => []
  | f :: forms => f.parts ++ partsOf forms

end

theorem partsOf_append (a b : List Form) : partsOf (a ++ b) = partsOf a ++ partsOf b := by
  induction a with
  | nil => rfl
  | cons f a ih => simp [partsOf, ih]

theorem Head.values_subset (h : Head) : h.values ⊆ h.pieces := by
  intro p mem
  simp only [Head.values, Head.pieces, List.mem_append, List.mem_cons, List.mem_flatMap] at mem ⊢
  grind

theorem Head.properties_subset (h : Head) : h.properties ⊆ h.pieces := by
  intro p mem
  obtain ⟨b, among, rfl⟩ := List.mem_map.1 mem
  have bound : Piece.name b.name ∈ h.bindings.flatMap fun b => .name b.name :: b.value.pieces :=
    List.mem_flatMap.2 ⟨b, (List.mem_filter.1 among).1, List.mem_cons_self⟩
  simp only [Head.pieces, List.mem_append]
  exact .inl (.inl (.inl (.inr bound)))

mutual

theorem Form.parts_subset (f : Form) : f.parts ⊆ f.pieces := by
  match f with
  | .tag head children =>
    have named := List.append_subset.2 ⟨head.properties_subset, head.values_subset⟩
    exact List.append_subset.2 ⟨fun p mem => List.mem_append_left _ (named mem),
      fun p mem => List.mem_append_right _ (partsOf_subset children mem)⟩
  | .component head children =>
    have named : Piece.name head.name ∈ head.pieces := List.mem_cons_self
    exact List.append_subset.2 ⟨fun p mem => List.mem_append_left _
        (List.cons_subset.2 ⟨named, head.values_subset⟩ mem),
      fun p mem => List.mem_append_right _ (partsOf_subset children mem)⟩
  | .text items => exact List.Subset.refl _
  | .directive keyword children =>
    exact List.append_subset.2 ⟨List.subset_append_left _ _,
      fun p mem => List.mem_append_right _ (partsOf_subset children mem)⟩

theorem partsOf_subset (forms : List Form) : partsOf forms ⊆ piecesOf forms := by
  match forms with
  | [] => exact List.Subset.refl _
  | f :: forms =>
    exact List.append_subset.2 ⟨fun p mem => List.mem_append_left _ (f.parts_subset mem),
      fun p mem => List.mem_append_right _ (partsOf_subset forms mem)⟩

end

end Template

namespace Program

open Template

/-- The texts that are the same in every program: those of the component and its state, of calls and declarations, of
listeners, of inputs, of slots and templates, and of branches and loops. -/
@[simp] def fixedTexts : List (List String) :=
  [["const ___Component: ___ComponentDefinition<", "Component", "\x7b\x7d",
      "> = (___realParent, ___parent, $props, $syncs, $events, $slots) => \x7b", "\x7d;",
        "export default ___Component;",
      "const ctx = createCtx($props, $syncs, $events);", "create($props, $syncs, $events);", "const \x7b ",
      " \x7d = create($props, $syncs, $events);"],
    ["const ", " = ", ";", ", ", "(", ")", ");", "));", ": ", "\x7b ", " \x7d", ".", "true", "(true)", "();", "(\"\");",
      ", [", ", () => [", "])", "(() => ", "(() => \x7b", "\x7d);", "(___realParent, ___parent) => \x7b",
      " = document.createDocumentFragment();", ".appendChild(", ".textContent = ", ".data = ",
        ".id = ", ".setAttribute("],
    [".addEventListener(", "$event => ", "$event => \x7b ", " ", "$event.preventDefault();",
      "$event.stopPropagation();",
      "($event);", ", \x7b ", "once", "capture", "passive", ": true"],
    [".checked = ", "() === ", ".value;", ".addEventListener(\"change\", () => \x7b if (", ".checked) ", ".set(",
      ".value); \x7d);", ".addEventListener(\"change\", () => ", ".set(Array.from(",
      ".selectedOptions, ___option => ___option.value)));", "const ___selected = ",
        "for (const ___option of Array.from(",
      ".options)) \x7b", "___option.selected = ___selected.includes(___option.value);"],
    ["$slots.", "($slots.", " ?? ", " ?? (", ")(", "\x7d))(", "\x7b", "\x7d,", "___template_", "function ___template_",
      "(___realParent: Node, ___parent: Node"],
    ["if (", ") \x7b", "\x7d else if (", "\x7d else \x7b", "\x7d", "switch (", "case ", ":", ": \x7b", "default: \x7b",
      "break;", "for (const ", "for (const [", " of ", "] of Array.from(", ").entries()) \x7b"]]

@[simp] def isFixed (text : String) : Bool := fixedTexts.any (·.contains text)

structure Standard where
  Fixed : String → Prop := fun _ => True
  Name : String → Prop
  Code : String → Prop
  Content : List Fragment → Prop

/-- Nothing is asked that a text which is the same in every program does not fulfil. -/
class Standard.Admits (S : Standard) : Prop where
  fixed : ∀ text, isFixed text = true → S.Fixed text

@[simp] def Piece.Meets (S : Standard) : Piece → Prop
  | .fixed text => S.Fixed text
  | .name text => S.Name text
  | .code text => S.Code text
  | .callee c => S.Code c.text
  | .content items => S.Content items
  | _ => True

def Each (S : Standard) (pieces : List Piece) : Prop := ∀ p ∈ pieces, p.Meets S

@[simp] def Node.temps : Node → List Temp
  | .temp t => [t]
  | _ => []

def Place.temps (place : Place) : List Temp := place.real.temps ++ place.node.temps

@[simp] def Piece.declared : Piece → List Temp
  | .declare t => [t]
  | _ => []

@[simp] def Piece.referred : Piece → List Temp
  | .node n => n.temps
  | _ => []

/-- The piece declares no constant and refers to none but those in `needed`. -/
@[simp] def Piece.Fits (S : Standard) (needed : List Temp) (p : Piece) : Prop :=
  p.Meets S ∧ p.declared = [] ∧ p.referred ⊆ needed

def Line.Fits (S : Standard) (needed : List Temp) (line : Line) : Prop := ∀ p ∈ line, p.Fits S needed

section

variable {S : Standard} {α : Type} {p : Piece} {a b : List Piece} {needed : List Temp}

@[simp] theorem each_nil : Each S [] := by
  intro p mem
  cases mem

@[simp] theorem each_cons : Each S (p :: a) ↔ p.Meets S ∧ Each S a := List.forall_mem_cons

@[simp] theorem each_append : Each S (a ++ b) ↔ Each S a ∧ Each S b := List.forall_mem_append

@[simp] theorem each_map {f : α → Piece} {xs : List α} :
    Each S (xs.map f) ↔ ∀ x ∈ xs, (f x).Meets S := List.forall_mem_map

@[simp] theorem each_flatMap {f : α → List Piece} {xs : List α} : Each S (xs.flatMap f) ↔ ∀ x ∈ xs, Each S (f x) :=
  List.forall_mem_flatMap

@[simp] theorem Standard.fixed [S.Admits] {text} (own : isFixed text = true) : S.Fixed text := Admits.fixed text own

namespace Line

@[simp] theorem fits_nil : Fits S needed [] := by
  intro p mem
  cases mem

@[simp] theorem fits_cons : Fits S needed (p :: a) ↔ p.Fits S needed ∧ Fits S needed a := List.forall_mem_cons

@[simp] theorem fits_append : Fits S needed (a ++ b) ↔ Fits S needed a ∧ Fits S needed b := List.forall_mem_append

@[simp] theorem fits_flatMap {f : α → Line} {xs : List α} :
    Fits S needed (xs.flatMap f) ↔ ∀ x ∈ xs, Fits S needed (f x) :=
  List.forall_mem_flatMap

@[simp] theorem temp_eq (t : Temp) : temp t = .node (.temp t) := rfl

@[simp] theorem fits_nodes [S.Admits] {place} : (nodes place).Fits S needed ↔ place.temps ⊆ needed := by
  simp [nodes, Place.temps]

theorem Fits.each {line} (h : Fits S needed line) : Each S line := fun p mem => (h p mem).1

end Line

end

def linePieces (steps : Steps) : List Piece :=
  steps.flatMap fun
    | .line line | .enter line | .leave line | .push line => line
    | _ => []

@[simp] theorem linePieces_append (s t : Steps) :
    linePieces (s ++ t) = linePieces s ++ linePieces t := List.flatMap_append

section

variable {S : Standard}

theorem each_values {h : Head} : Each S h.values ↔
    (∀ f ∈ h.classes, Each S f.pieces) ∧ (∀ b ∈ h.bindings, Each S b.value.pieces) ∧
      (∀ l ∈ h.listeners, Each S l.pieces) ∧ (∀ s ∈ h.syncs, S.Code s.code.text) ∧
      ∀ r ∈ h.receivers, S.Code r.code.text := by
  simp [Head.values]

theorem each_properties {h : Head} :
    Each S h.properties ↔ ∀ b ∈ h.bindings, isAttributeName b.name = false → S.Name b.name := by
  simp [Head.properties]

theorem each_partsOf_cons {f forms} : Each S (partsOf (f :: forms)) ↔ Each S f.parts ∧ Each S (partsOf forms) := by
  rw [partsOf, each_append]

theorem each_partsOf_append {a b} : Each S (partsOf (a ++ b)) ↔ Each S (partsOf a) ∧ Each S (partsOf b) := by
  rw [partsOf_append, each_append]

end

section

variable {S : Standard} [S.Admits] {needed : List Temp}

theorem fits_join {separator lines} (own : isFixed separator = true) (each : ∀ l ∈ lines, Line.Fits S needed l) :
    (Line.join separator lines).Fits S needed := by
  induction lines with
  | nil => exact Line.fits_nil
  | cons line lines ih =>
    obtain ⟨here, others⟩ := List.forall_mem_cons.1 each
    cases lines with
    | nil => exact here
    | cons next lines =>
      have between : (Piece.fixed separator).Fits S needed := ⟨Standard.fixed own, rfl, List.nil_subset _⟩
      exact Line.fits_append.2 ⟨here, Line.fits_cons.2 ⟨between, ih others⟩⟩

theorem fits_join_map {α : Type} {separator} {f : α → Line} {xs : List α} (own : isFixed separator = true)
    (each : ∀ x ∈ xs, (f x).Fits S needed) : (Line.join separator (xs.map f)).Fits S needed :=
  fits_join own (List.forall_mem_map.2 each)

theorem fits_object {entries} (each : ∀ e ∈ entries, Line.Fits S needed e.2) : (Line.object entries).Fits S needed := by
  have members : (Line.join ", " (entries.map fun e => .key e.1 :: .fixed ": " :: e.2)).Fits S needed := by
    refine fits_join_map (by decide) fun e member => ?_
    simp [each e member]
  unfold Line.object
  split
  · simp
  · simpa using members

theorem creationLine_fits {tag classes} (meets : ∀ f ∈ classes, Each S f.pieces) :
    (creationLine tag classes).Fits S needed := by
  unfold creationLine
  dsimp only
  split
  · simp
  split
  · simp
  all_goals
    refine Line.fits_append.2 ⟨Line.fits_append.2 ⟨by simp, fits_join_map (by decide) fun f member => ?_⟩, by simp⟩
    cases f with
    | static text => simp
    | dynamic code | reactive code => simpa [Fragment.pieces] using meets _ member

theorem bindingLine_fits {e name value} (own : e ∈ needed) (named : isAttributeName name = false → S.Name name)
    (coded : Each S value.pieces) : (bindingLine e name value).Fits S needed := by
  have values (asAttribute : Bool) : (bindingValueLine asAttribute value).Fits S needed := by
    cases value with
    | empty => cases asAttribute <;> simp [bindingValueLine]
    | static text => simp [bindingValueLine]
    | dynamic code initial | reactive code => simpa [bindingValueLine, BindingValue.pieces] using coded
  unfold bindingLine
  split
  · simp [own, values]
  · rename_i property
    have kept := named (by simpa using property)
    simp [own, kept, values]

theorem listenerFunction_fits {l : Listener} (meets : Each S l.pieces) :
    (ListenerFunction.ofHandlers l.handlers).line.Fits S needed := by
  have coded : ∀ h ∈ l.handlers, S.Code h.code.text := each_map.1 meets
  have dispatched : (ListenerFunction.dispatcher (l.handlers.flatMap handlerSteps)).line.Fits S needed := by
    have calls : (Line.join " " ((l.handlers.flatMap handlerSteps).map ListenerStep.line)).Fits S needed := by
      refine fits_join_map (by decide) fun step member => ?_
      obtain ⟨h, inside, among⟩ := List.mem_flatMap.1 member
      have cases : step = .preventDefault ∨ step = .stopPropagation ∨ step = .call h.code ∨
          step = .evaluate h.code := by
        unfold handlerSteps at among
        grind
      rcases cases with rfl | rfl | rfl | rfl <;> simp [ListenerStep.line, coded h inside]
    simpa [ListenerFunction.line] using calls
  unfold ListenerFunction.ofHandlers
  split
  · rename_i h alone
    rw [alone] at coded dispatched
    have kept := coded h List.mem_cons_self
    split
    · simpa using dispatched
    · split <;> simp [ListenerFunction.line, kept]
  · exact dispatched

theorem optionsLine_fits (handlers : List Handler) : (optionsLine (listenerOptions handlers)).Fits S needed := by
  have each :
      (Line.join ", " ((listenerOptions handlers).map fun m => [.fixed m.text, .fixed ": true"])).Fits S needed := by
    refine fits_join_map (by decide) fun m mem => ?_
    have option : m = .once ∨ m = .capture ∨ m = .passive := by
      simpa [optionModifiers] using (List.mem_filter.1 mem).1
    rcases option with rfl | rfl | rfl <;> simp [EventModifier.text]
  unfold optionsLine
  split
  · simp
  · simpa using each

theorem propLine_fits {value} (coded : Each S value.pieces) : (propLine value).Fits S needed := by
  match value, coded with
  | .empty, _ | .static _, _ => simp [propLine]
  | .dynamic _ false, coded | .dynamic _ true, coded | .reactive _, coded =>
    have kept := (each_cons.1 coded).1
    simpa [propLine] using kept

theorem syncLine_fits {sync} (coded : S.Code sync.code.text) : (syncLine sync).Fits S needed := by
  unfold syncLine
  split <;> simp [coded]

theorem componentLine_fits {i place} (known : place.temps ⊆ needed) (named : S.Name i.name)
    (meets : Each S i.head.values) :
    (componentLine i place).Fits S needed := by
  obtain ⟨-, props, listeners, syncs, -⟩ := each_values.1 meets
  have props : (Line.object (i.props.map fun b => (b.name, propLine b.value))).Fits S needed := by
    refine fits_object fun e mem => ?_
    obtain ⟨b, member, rfl⟩ := List.mem_map.1 mem
    exact propLine_fits (props b member)
  have syncs : (Line.object (i.syncs.map fun s => (s.name, syncLine s))).Fits S needed := by
    refine fits_object fun e mem => ?_
    obtain ⟨s, member, rfl⟩ := List.mem_map.1 mem
    exact syncLine_fits (syncs s member)
  have listeners : (Line.object (i.listeners.map fun l =>
      (l.event, (ListenerFunction.ofHandlers l.handlers).line))).Fits S needed := by
    refine fits_object fun e mem => ?_
    obtain ⟨l, member, rfl⟩ := List.mem_map.1 mem
    exact listenerFunction_fits (listeners l member)
  simp [componentLine, known, named, props, syncs, listeners]

theorem loopLine_fits {loop} (meets : Each S (Keyword.each loop).pieces) : (loopLine loop).Fits S needed := by
  obtain ⟨pattern, rest⟩ := each_cons.1 meets
  obtain ⟨collection, index⟩ := each_cons.1 rest
  unfold loopLine
  split
  · rename_i name given
    have named : S.Name name := each_map.1 index name (by simp [given])
    simp_all
  · simp_all

theorem regionLine_fits (place : Place) : (regionLine place).Fits S place.temps := by
  unfold regionLine
  split <;> simp [Line.filler, Place.temps]

theorem templateLine_fits {name params} (named : S.Name name) (coded : ∀ param ∈ params, S.Code param) :
    (templateLine name params).Fits S needed := by
  simpa [templateLine, named] using coded

end

def createdNames : Option Creation → List String
  | some (.members names) => names
  | _ => []

end Program

end ComponentCompiler
