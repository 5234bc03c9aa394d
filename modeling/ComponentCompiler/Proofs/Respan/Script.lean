import ComponentCompiler.Proofs.Respan.Commutes
import ComponentCompiler.Proofs.Script.Spans
import ComponentCompiler.Script.Inspect

/-!
# Inspection and positions

Main statement: `contractOf_respan`.
-/

namespace ComponentCompiler

variable (f : Span → Span)

def SlotDecl.respan (d : SlotDecl) : SlotDecl := { d with span := f d.span }

def SlotTable.respan (table : SlotTable) : SlotTable := table.map (SlotDecl.respan f)

def Contract.respan (c : Contract) : Contract := { c with slots := c.slots.map (SlotTable.respan f) }

namespace Script

mutual

def TypeNode.respan : TypeNode → TypeNode
  | .literal members s => .literal (respanMembers members) (f s)
  | .other s => .other (f s)

def TypeMember.respan : TypeMember → TypeMember
  | .property name optional type s => .property name optional (respanType type) (f s)
  | .other s => .other (f s)

def respanType : Option TypeNode → Option TypeNode
  | none => none
  | some type => some type.respan

def respanMembers : List TypeMember → List TypeMember
  | [] => []
  | member :: members => member.respan :: respanMembers members

end

def ObjectMember.respan (m : ObjectMember) : ObjectMember := { m with span := f m.span }

def Returned.respan (r : Returned) : Returned :=
  ⟨r.object.map (·.map (ObjectMember.respan f)), f r.span⟩

def Body.respan (b : Body) : Body := ⟨f b.span, b.result.map (Returned.respan f)⟩

def Declaration.respan : Declaration → Declaration
  | .typeAlias name nameSpan type => .typeAlias name (f nameSpan) (type.respan f)
  | .interface name nameSpan => .interface name (f nameSpan)
  | .function name nameSpan body => .function name (f nameSpan) (body.map (Body.respan f))
  | .other => .other

def Item.respan (i : Item) : Item := { i with declaration := i.declaration.respan f }

namespace Inspect

def moved (earlier : Log) (f : Span → Span) (x : Finding) : Finding :=
  ⟨x.contract.respan f, earlier ++ x.log.respan f⟩

section

variable {earlier : Log} {f : Span → Span}

theorem error_respan (rule : Rule) (span : Span) (headline : String) :
    Commutes (moved earlier f) id (error rule span headline) (error rule (f span) headline) := by
  refine .modify fun x => ?_
  simp only [moved, Log.respan_append, ← List.append_assoc]
  rfl

theorem warning_respan (rule : Rule) (span : Span) (headline : String) :
    Commutes (moved earlier f) id (warning rule span headline) (warning rule (f span) headline) := by
  refine .modify fun x => ?_
  simp only [moved, Log.respan_append, ← List.append_assoc]
  rfl

theorem amend_respan {g h : Contract → Contract} (apart : ∀ c, h (c.respan f) = (g c).respan f) :
    Commutes (moved earlier f) id (amend g) (amend h) :=
  .modify fun x => congrArg (Finding.mk · _) (apart x.contract)

theorem any_respan (table : SlotTable) (name : String) :
    (SlotTable.respan f table).any (·.name = name) = table.any (·.name = name) := by
  rw [SlotTable.respan, List.any_map]
  rfl

theorem members_respan (found : SlotTable) (list : List TypeMember) :
    Commutes (moved earlier f) (SlotTable.respan f) (members found list)
      (members (SlotTable.respan f found) (respanMembers f list)) := by
  induction list generalizing found with
  | nil => exact .pure found
  | cons member rest ih =>
    cases member with
    | other span => exact (error_respan _ _ _).bind fun _ => ih found
    | property name optional type span =>
      cases name with
      | none => exact (error_respan _ _ _).bind fun _ => ih found
      | some name =>
        rw [members, respanMembers, TypeMember.respan, members, any_respan]
        refine .ite ((error_respan _ _ _).bind fun _ => ih found) ?_
        have next := ih (found ++ [⟨name, optional, span⟩])
        rw [SlotTable.respan, List.map_append] at next
        exact next

theorem enter_respan (part : Part) (found : SlotTable) :
    Commutes (moved earlier f) id (enter part found) (enter part (SlotTable.respan f found)) := by
  have names : (SlotTable.respan f found).map (·.name) = found.map (·.name) := by
    rw [SlotTable.respan, List.map_map]
    rfl
  cases part <;> refine amend_respan fun c => ?_
  all_goals
    simp only [names]
    rfl

theorem inspectPart_respan (part : Part) (name : String) (optional : Bool) (type : Option TypeNode) (span : Span) :
    Commutes (moved earlier f) id (inspectPart part name optional type span)
      (inspectPart part name optional (respanType f type) (f span)) := by
  unfold inspectPart
  refine .whenever (warning_respan _ _ _) ?_
  match type with
  | none => exact error_respan _ _ _
  | some (.other _) => exact error_respan _ _ _
  | some (.literal body _) => exact (members_respan [] body).bind fun found => enter_respan part found

theorem inspectParts_respan (seen : List Part) (parts : List TypeMember) :
    Commutes (moved earlier f) id (inspectParts seen parts) (inspectParts seen (respanMembers f parts)) := by
  induction parts generalizing seen with
  | nil => exact .pure ()
  | cons member rest ih =>
    cases member with
    | other span => exact (error_respan _ _ _).bind fun _ => ih seen
    | property name optional type span =>
      cases name with
      | none => exact (error_respan _ _ _).bind fun _ => ih seen
      | some name =>
        rw [inspectParts, respanMembers, TypeMember.respan, inspectParts]
        cases Part.ofName? name with
        | none => exact (error_respan _ _ _).bind fun _ => ih seen
        | some part =>
          refine .ite ((error_respan _ _ _).bind fun _ => ih seen) ?_
          exact (inspectPart_respan part name optional type span).bind fun _ => ih _

theorem inspectComponent_respan (nameSpan : Span) (type : TypeNode) (exported : Bool) :
    Commutes (moved earlier f) id (inspectComponent nameSpan type exported)
      (inspectComponent (f nameSpan) (type.respan f) exported) := by
  refine .get fun x => ?_
  refine .ite (error_respan _ _ _) ?_
  refine .bind (amend_respan fun _ => rfl) fun _ => ?_
  refine .whenever (warning_respan _ _ _) ?_
  cases type with
  | literal parts _ => exact inspectParts_respan [] parts
  | other span => exact error_respan _ _ _

theorem returnedNames_respan (found : List String) (list : List ObjectMember) :
    Commutes (moved earlier f) id (returnedNames found list)
      (returnedNames found (list.map (ObjectMember.respan f))) := by
  induction list generalizing found with
  | nil => exact .pure found
  | cons member rest ih =>
    obtain ⟨name, span⟩ := member
    cases name with
    | none => exact (error_respan _ _ _).bind fun _ => ih found
    | some name => exact ih _

theorem createdNames_respan (nameSpan : Span) (body : Option Body) :
    Commutes (moved earlier f) id (createdNames nameSpan body)
      (createdNames (f nameSpan) (body.map (Body.respan f))) := by
  have refused : ∀ (rule : Rule) (span : Span) (headline : String), Commutes (moved earlier f) id
      (do error rule span headline; return ([] : List String)) (do error rule (f span) headline; return []) :=
    fun _ _ _ => (error_respan _ _ _).bind fun _ => .pure []
  match body with
  | none => exact refused _ _ _
  | some ⟨span, none⟩ => exact refused _ _ _
  | some ⟨_, some ⟨none, span⟩⟩ => exact refused _ _ _
  | some ⟨_, some ⟨some object, _⟩⟩ => exact returnedNames_respan [] object

theorem inspectCreate_respan (name : String) (nameSpan : Span) (body : Option Body) (exported : Bool) :
    Commutes (moved earlier f) id (inspectCreate name nameSpan body exported)
      (inspectCreate name (f nameSpan) (body.map (Body.respan f)) exported) := by
  refine .get fun x => ?_
  refine .ite (error_respan _ _ _) ?_
  refine .whenever (warning_respan _ _ _) ?_
  refine .ite (amend_respan fun _ => rfl) ?_
  exact (createdNames_respan nameSpan body).bind fun names => amend_respan fun _ => rfl

theorem inspectItem_respan (item : Item) :
    Commutes (moved earlier f) id (inspectItem item) (inspectItem (item.respan f)) := by
  obtain ⟨declaration, exported⟩ := item
  cases declaration with
  | typeAlias name nameSpan type =>
    exact .ite (inspectComponent_respan nameSpan type exported) (.pure ())
  | interface name nameSpan => exact .ite (error_respan _ _ _) (.pure ())
  | function name nameSpan body =>
    exact .ite (inspectCreate_respan name nameSpan body exported) (.pure ())
  | other => exact .pure ()

theorem inspectItems_respan (items : List Item) :
    Commutes (moved earlier f) id (inspectItems items) (inspectItems (items.map (Item.respan f))) := by
  induction items with
  | nil => exact .pure ()
  | cons item rest ih => exact (inspectItem_respan item).bind fun _ => ih

end

end Inspect

theorem contractOf_respan (items : List Item) (earlier : Log) (f : Span → Span) :
    contractOf (items.map (Item.respan f)) earlier =
      ((contractOf items []).1.respan f, earlier ++ (contractOf items []).2.respan f) := by
  have commutes : Commutes (Inspect.moved earlier f) id _ _ := Inspect.inspectItems_respan items
  have ran := commutes {}
  have start : Inspect.moved earlier f {} = { log := earlier } := by
    simp [Inspect.moved, Log.respan, Contract.respan]
  rw [start] at ran
  unfold contractOf
  rw [ran]
  rfl

theorem Contract.respan_id (c : Contract) : c.respan id = c := by
  obtain ⟨_, _, _, _, slots, _⟩ := c
  cases slots with
  | none => rfl
  | some table =>
    have same : SlotTable.respan id table = table := List.map_id table
    simp [Contract.respan, same]

section

variable {f : Span → Span}

mutual

theorem TypeNode.respan_fixed (type : TypeNode) (fixed : ∀ s ∈ type.spans, f s = s) : type.respan f = type := by
  match type with
  | .literal members s =>
    obtain ⟨here, inner⟩ := List.forall_mem_cons.1 fixed
    rw [TypeNode.respan, here, respanMembers_fixed members inner]
  | .other s => exact congrArg TypeNode.other (fixed s (List.mem_singleton.2 rfl))

theorem TypeMember.respan_fixed (member : TypeMember) (fixed : ∀ s ∈ member.spans, f s = s) :
    member.respan f = member := by
  match member with
  | .property name optional type s =>
    obtain ⟨here, inner⟩ := List.forall_mem_cons.1 fixed
    rw [TypeMember.respan, here, respanType_fixed type inner]
  | .other s => exact congrArg TypeMember.other (fixed s (List.mem_singleton.2 rfl))

theorem respanType_fixed (type : Option TypeNode) (fixed : ∀ s ∈ typeSpans type, f s = s) :
    respanType f type = type := by
  match type with
  | none => rfl
  | some type => exact congrArg some (TypeNode.respan_fixed type fixed)

theorem respanMembers_fixed (members : List TypeMember) (fixed : ∀ s ∈ memberSpans members, f s = s) :
    respanMembers f members = members := by
  match members with
  | [] => rfl
  | member :: members =>
    obtain ⟨first, others⟩ := List.forall_mem_append.1 fixed
    rw [respanMembers, TypeMember.respan_fixed member first, respanMembers_fixed members others]

end

theorem Returned.respan_fixed (r : Returned) (fixed : ∀ s ∈ spans r, f s = s) : r.respan f = r := by
  obtain ⟨object, s⟩ := r
  obtain ⟨here, inner⟩ := List.forall_mem_cons.1 fixed
  cases object with
  | none => exact congrArg (Returned.mk none) here
  | some object =>
    have members : object.map (ObjectMember.respan f) = object := by
      refine (List.map_congr_left fun m mem => congrArg (ObjectMember.mk m.name) (inner _ ?_)).trans
        (List.map_id object)
      simpa [spans] using ⟨m, mem, rfl⟩
    simp only [Returned.respan, Option.map_some, members]
    exact congrArg (Returned.mk _) here

theorem Body.respan_fixed (b : Body) (fixed : ∀ s ∈ spans b, f s = s) : b.respan f = b := by
  obtain ⟨s, result⟩ := b
  obtain ⟨here, inner⟩ := List.forall_mem_cons.1 fixed
  cases result with
  | none => exact congrArg (Body.mk · none) here
  | some r =>
    have returned := r.respan_fixed (f := f) (by simpa [spans] using inner)
    simp only [Body.respan, Option.map_some, returned]
    exact congrArg (Body.mk · _) here

theorem Item.respan_fixed (i : Item) (fixed : ∀ s ∈ spans i, f s = s) : i.respan f = i := by
  obtain ⟨declaration, exported⟩ := i
  suffices declaration.respan f = declaration from congrArg (Item.mk · exported) this
  cases declaration with
  | typeAlias name nameSpan type =>
    obtain ⟨here, inner⟩ := List.forall_mem_cons.1 fixed
    rw [Declaration.respan, here, type.respan_fixed inner]
  | interface name nameSpan => exact congrArg (Declaration.interface name) (fixed _ (List.mem_singleton.2 rfl))
  | function name nameSpan body =>
    obtain ⟨here, inner⟩ := List.forall_mem_cons.1 fixed
    cases body with
    | none => exact congrArg (Declaration.function name · none) here
    | some b =>
      have body := b.respan_fixed (f := f) (by simpa [spans] using inner)
      rw [Declaration.respan, here, Option.map_some, body]
  | other => rfl

theorem map_respan_fixed {items : List Item} (fixed : ∀ s ∈ spans items, f s = s) :
    items.map (Item.respan f) = items := by
  refine (List.map_congr_left fun i mem => ?_).trans (List.map_id items)
  exact i.respan_fixed fun s here => fixed s (List.mem_flatMap.2 ⟨i, mem, here⟩)

end

theorem contractOf_earlier (items : List Item) (earlier : Log) :
    contractOf items earlier = ((contractOf items []).1, earlier ++ (contractOf items []).2) := by
  have moved := contractOf_respan items earlier id
  rwa [map_respan_fixed (f := id) fun _ _ => rfl, Contract.respan_id, Log.respan_id] at moved

theorem inspect_earlier (text : String) (base : Nat) (earlier : Log) :
    inspect text base earlier = ((inspect text base []).1, earlier ++ (inspect text base []).2) := by
  unfold inspect
  split
  · exact contractOf_earlier _ earlier
  · rfl

end Script

end ComponentCompiler
