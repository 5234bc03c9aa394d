import ComponentCompiler.Proofs.Respan.Outline
import ComponentCompiler.Proofs.Respan.Script
import ComponentCompiler.Template.Check.Outline

/-!
# Checking and positions

A check carries spans along and never decides by them: `check_respan`.
-/

namespace ComponentCompiler.Template

/-! ### Entities -/

section

variable (f : Span → Span)

def BindingValue.respan : BindingValue → BindingValue
  | .empty => .empty
  | .static text => .static text
  | .dynamic code initial => .dynamic (code.respan f) initial
  | .reactive code => .reactive (code.respan f)

def Binding.respan (b : Binding) : Binding := ⟨b.name, b.value.respan f, f b.span⟩

def Handler.respan (h : Handler) : Handler := ⟨h.code.respan f, h.modifiers, f h.span⟩

def Listener.respan (l : Listener) : Listener := ⟨l.event, l.handlers.map (Handler.respan f)⟩

def Sync.respan (s : Sync) : Sync := ⟨s.name, s.code.respan f, s.initial, f s.span⟩

def Receiver.respan (r : Receiver) : Receiver := ⟨r.code.respan f, f r.span⟩

def Tag.respan (t : Tag) : Tag :=
  ⟨t.name, t.id, t.classes.map (Fragment.respan f), t.bindings.map (Binding.respan f),
    t.listeners.map (Listener.respan f), t.receivers.map (Receiver.respan f), f t.span⟩

def Inclusion.respan (i : Inclusion) : Inclusion :=
  ⟨i.name, i.props.map (Binding.respan f), i.syncs.map (Sync.respan f), i.listeners.map (Listener.respan f), f i.span⟩

def Expr.respan (e : Expr) : Expr := ⟨e.code.respan f, e.reactive⟩

def Loop.respan (l : Loop) : Loop := ⟨l.pattern, l.index, l.collection.respan f⟩

mutual

def Entity.respan : Entity → Entity
  | .tag tag body => .tag (tag.respan f) (respanList body)
  | .synced kind sync tag body => .synced kind (sync.respan f) (tag.respan f) (respanList body)
  | .text items s => .text (items.map (Fragment.respan f)) (f s)
  | .component i insertions => .component (i.respan f) (respanInsertions insertions)
  | .conditional condition body elseIfs otherwise s =>
    .conditional (condition.respan f) (respanList body) (respanElseIfs elseIfs) (respanOptional otherwise) (f s)
  | .each loop body s => .each (loop.respan f) (respanList body) (f s)
  | .choice value cases default s =>
    .choice (value.respan f) (respanMatchCases cases) (respanOptional default) (f s)
  | .switch value cases s => .switch (value.respan f) (respanSwitchCases cases) (f s)
  | .slot name fallback s => .slot name (respanOptional fallback) (f s)
  | .insertion i => .insertion i.respan
  | .template name params body s => .template name params (respanList body) (f s)
  | .templateUse name args s => .templateUse name (args.map (Code.respan f)) (f s)

def respanList : List Entity → List Entity
  | [] => []
  | e :: es => e.respan :: respanList es

def respanOptional : Option (List Entity) → Option (List Entity)
  | none => none
  | some es => some (respanList es)

def ElseIf.respan : ElseIf → ElseIf
  | .mk condition body => .mk (condition.respan f) (respanList body)

def respanElseIfs : List ElseIf → List ElseIf
  | [] => []
  | e :: es => e.respan :: respanElseIfs es

def MatchCase.respan : MatchCase → MatchCase
  | .mk patterns body s => .mk (patterns.map (Code.respan f)) (respanList body) (f s)

def respanMatchCases : List MatchCase → List MatchCase
  | [] => []
  | c :: cs => c.respan :: respanMatchCases cs

def SwitchCase.respan : SwitchCase → SwitchCase
  | .mk value body falls s => .mk (value.map (Expr.respan f)) (respanList body) falls (f s)

def respanSwitchCases : List SwitchCase → List SwitchCase
  | [] => []
  | c :: cs => c.respan :: respanSwitchCases cs

def Insertion.respan : Insertion → Insertion
  | .mk slot body s => .mk slot (respanList body) (f s)

def respanInsertions : List Insertion → List Insertion
  | [] => []
  | i :: is => i.respan :: respanInsertions is

end

theorem eq_map_of_cons {F : List α → List β} {φ : α → β} (nil : F [] = []) (cons : ∀ a as, F (a :: as) = φ a :: F as)
    (as : List α) : F as = as.map φ := by
  induction as with
  | nil => exact nil
  | cons a as ih => rw [cons, ih, List.map_cons]

theorem respanList_eq_map (es : List Entity) : respanList f es = es.map (Entity.respan f) :=
  eq_map_of_cons rfl (fun _ _ => rfl) es

theorem respanOptional_eq_map (es : Option (List Entity)) : respanOptional f es = es.map (respanList f) := by
  cases es <;> rfl

theorem respanElseIfs_eq_map (es : List ElseIf) : respanElseIfs f es = es.map (ElseIf.respan f) :=
  eq_map_of_cons rfl (fun _ _ => rfl) es

theorem respanMatchCases_eq_map (cs : List MatchCase) : respanMatchCases f cs = cs.map (MatchCase.respan f) :=
  eq_map_of_cons rfl (fun _ _ => rfl) cs

theorem respanSwitchCases_eq_map (cs : List SwitchCase) : respanSwitchCases f cs = cs.map (SwitchCase.respan f) :=
  eq_map_of_cons rfl (fun _ _ => rfl) cs

theorem respanInsertions_eq_map (is : List Insertion) : respanInsertions f is = is.map (Insertion.respan f) :=
  eq_map_of_cons rfl (fun _ _ => rfl) is

@[simp] theorem Entity.span_respan (e : Entity) : (e.respan f).span = f e.span := by
  cases e with
  | insertion i => cases i; rfl
  | _ => rfl

end

/-! ### Progress -/

section

variable (f : Span → Span)

def Attribute.respan : Attribute → Attribute
  | .binding b => .binding (b.respan f)
  | .event name h => .event name (h.respan f)
  | .sync s => .sync (s.respan f)
  | .receiver r => .receiver (r.respan f)

def TagDraft.respan (d : TagDraft) : TagDraft :=
  ⟨d.tag.respan f, d.syncs.map (Sync.respan f), d.failed⟩

def Chain.respan : Chain → Chain
  | .conditional condition body elseIfs otherwise s =>
    .conditional (condition.respan f) (respanList f body) (respanElseIfs f elseIfs) (respanOptional f otherwise) (f s)
  | .choice value cases default s =>
    .choice (value.respan f) (respanMatchCases f cases) (respanOptional f default) (f s)
  | .switch value cases s => .switch (value.respan f) (respanSwitchCases f cases) (f s)

def Siblings.respan (s : Siblings) : Siblings :=
  ⟨respanList f s.done, s.chain.map (Chain.respan f)⟩

end

/-- The change of the spans that a rule's diagnostics have: `g` where they point into the script, to a slot. -/
def atRule (f g : Span → Span) : Rule → Span → Span
  | .slotRequiredUnused => g
  | _ => f

def relocate (f g : Span → Span) (d : Diagnostic) : Diagnostic := d.respan (atRule f g d.rule)

def Progress.respan (f g : Span → Span) (p : Progress) : Progress :=
  { p with log := p.log.map (relocate f g), includes := p.includes.map fun i => (i.1, f i.2) }

namespace Check

abbrev Respans (f g : Span → Span) (φ : α → β) (m : Check α) (n : Check β) : Prop :=
  Commutes (Progress.respan f g) φ m n

section

variable {f g : Span → Span}

theorem report_respan (d : Diagnostic) : Respans f g id (report d) (report (relocate f g d)) := by
  refine .modify fun p => ?_
  simp [Progress.respan]

theorem error_respan {rule} (span : Span) (headline : String) (notes : List String) :
    Respans f g id (error rule span headline notes) (error rule (atRule f g rule span) headline notes) :=
  report_respan (.errorAt rule span headline notes)

theorem warning_respan {rule} (span : Span) (headline : String) :
    Respans f g id (warning rule span headline) (warning rule (atRule f g rule span) headline) :=
  report_respan (.warningAt rule span headline)

theorem refused_respan {φ : α → β} {rule headline notes} (span : Span) (a : α) :
    Respans f g φ (do error rule span headline notes; return a)
      (do error rule (atRule f g rule span) headline notes; return φ a) :=
  (error_respan span headline notes).bind fun _ => .pure a

/-! ### Attributes -/

theorem modifiers_respan (a : Outline.Attribute) (accepted : List String) (given : List (String × Span)) :
    Respans f g id (modifiers a accepted given)
      (modifiers (a.respan f) accepted (given.map fun m => (m.1, f m.2))) := by
  induction given generalizing accepted with
  | nil => exact .pure accepted
  | cons m rest ih =>
    refine .ite ?_ (.ite (ih _) ?_)
    · exact (warning_respan m.2 _).bind fun _ => ih accepted
    · exact (warning_respan m.2 _).bind fun _ => ih accepted

theorem requireCode_respan (a : Outline.Attribute) :
    Respans f g (Option.map (Code.respan f)) (requireCode a) (requireCode (a.respan f)) := by
  obtain ⟨sigil, name, given, value, span⟩ := a
  match value with
  | some (.code code) => exact .pure (some code)
  | some (.text _ s) => exact refused_respan s none
  | none => exact refused_respan span none

theorem find?_initial (given : List (String × Span)) (span : Span) :
    (((given.map fun m => (m.1, f m.2)).find? fun m => m.1 = "initial").map (·.2)).getD (f span) =
      f (((given.find? fun m => m.1 = "initial").map (·.2)).getD span) := by
  rw [List.find?_map]
  have same : ((fun m : String × Span => decide (m.1 = "initial")) ∘ fun m : String × Span => (m.1, f m.2)) =
      fun m => decide (m.1 = "initial") := rfl
  rw [same]
  cases given.find? fun m => m.1 = "initial" <;> rfl

theorem plainValue_respan (a : Outline.Attribute) (initial : Bool) :
    Respans f g (BindingValue.respan f) (plainValue a initial) (plainValue (a.respan f) initial) := by
  obtain ⟨sigil, name, given, value, span⟩ := a
  have moved := find?_initial (f := f) given span
  match value with
  | some (.code code) => exact .pure (BindingValue.dynamic code initial)
  | some (.text text _) =>
    simp only [plainValue, Outline.Attribute.respan, moved]
    exact .whenever (warning_respan _ _) (.pure (BindingValue.static text))
  | none =>
    simp only [plainValue, Outline.Attribute.respan, moved]
    exact .whenever (warning_respan _ _) (.pure BindingValue.empty)

theorem checkAttribute_respan (a : Outline.Attribute) :
    Respans f g (Option.map (Attribute.respan f)) (checkAttribute a) (checkAttribute (a.respan f)) := by
  refine (modifiers_respan a [] a.modifiers).bind fun accepted => ?_
  have coded : ∀ {make make' : Code → Attribute} (_ : ∀ code, make' (code.respan f) = (make code).respan f),
      Respans f g (Option.map (Attribute.respan f))
        (do let code ← requireCode a; return code.map make)
        (do let code ← requireCode (a.respan f); return code.map make') := by
    intro make make' same
    refine (requireCode_respan a).bind fun code => .result ?_
    cases code with
    | none => rfl
    | some code => exact congrArg some (same code)
  obtain ⟨sigil, name, given, value, span⟩ := a
  cases sigil with
  | plain =>
    exact (plainValue_respan _ _).bind fun value =>
      .pure (some (Attribute.binding ⟨name, value, span⟩))
  | reactive => exact coded fun _ => rfl
  | event => exact coded fun _ => rfl
  | sync => exact coded fun _ => rfl
  | receiver kind =>
    refine .ite (coded fun _ => rfl) ?_
    exact refused_respan span none

/-! ### Tags -/

theorem addShorthand_respan (d : TagDraft) (s : Outline.Shorthand) :
    Respans f g (TagDraft.respan f) (addShorthand d s) (addShorthand (d.respan f) (s.respan f)) := by
  cases s with
  | id name span =>
    refine .ite ?_ (.pure { d with tag := { d.tag with id := some name } })
    exact refused_respan span { d with failed := true }
  | className fragment span =>
    refine .result ?_
    simp [TagDraft.respan, Tag.respan]

theorem binding?_respan (t : Tag) (name : String) :
    (t.respan f).binding? name = (t.binding? name).map (Binding.respan f) := by
  unfold Tag.binding? Tag.respan
  rw [List.find?_map]
  rfl

theorem addBinding_respan (d : TagDraft) (b : Binding) :
    Respans f g (TagDraft.respan f) (addBinding d b) (addBinding (d.respan f) (b.respan f)) := by
  have known : ((d.respan f).tag.binding? (b.respan f).name).isSome = (d.tag.binding? b.name).isSome := by
    rw [show (d.respan f).tag = d.tag.respan f from rfl, binding?_respan]
    simp [Binding.respan]
  have added : Respans f g (TagDraft.respan f)
      (pure { d with tag := { d.tag with bindings := d.tag.bindings ++ [b] } })
      (pure { d.respan f with
        tag := { (d.respan f).tag with bindings := (d.respan f).tag.bindings ++ [b.respan f] } }) := by
    refine .result ?_
    simp [TagDraft.respan, Tag.respan]
  unfold addBinding
  rw [known]
  refine .ite (refused_respan b.span { d with failed := true }) ?_
  refine .ite (refused_respan b.span { d with failed := true }) ?_
  obtain ⟨name, value, span⟩ := b
  match value with
  | .dynamic code true => exact (warning_respan span _).bind fun _ => added
  | .dynamic code false | .empty | .static _ | .reactive _ => exact added

theorem listener_add_respan (listeners : List Listener) (event : String) (h : Handler) :
    Listener.add (listeners.map (Listener.respan f)) event (h.respan f) =
      (Listener.add listeners event h).map (Listener.respan f) := by
  unfold Listener.add
  have known : (listeners.map (Listener.respan f)).any (·.event = event) = listeners.any (·.event = event) := by
    rw [List.any_map]
    rfl
  rw [known]
  split
  · rw [List.map_map, List.map_map]
    refine List.map_congr_left fun l _ => ?_
    by_cases same : l.event = event <;> simp [Listener.respan, same]
  · simp [Listener.respan]

theorem addAttribute_respan (d : TagDraft) (a : Outline.Attribute) :
    Respans f g (TagDraft.respan f) (addAttribute d a) (addAttribute (d.respan f) (a.respan f)) := by
  refine (checkAttribute_respan a).bind fun checked => ?_
  match checked with
  | none => exact .pure { d with failed := true }
  | some (.binding b) => exact addBinding_respan d b
  | some (.event name h) =>
    refine .result ?_
    simp [TagDraft.respan, Tag.respan, listener_add_respan]
  | some (.sync s) =>
    refine .result ?_
    simp [TagDraft.respan]
  | some (.receiver r) =>
    refine .result ?_
    simp [TagDraft.respan, Tag.respan]

/-! ### Synced elements -/

theorem inputKind_respan (tag : Tag) : Respans f g id (inputKind tag) (inputKind (tag.respan f)) := by
  unfold inputKind
  rw [binding?_respan]
  cases tag.binding? "type" with
  | none => exact .pure _
  | some b =>
    obtain ⟨name, value, span⟩ := b
    cases value with
    | static type =>
      refine .ite (.pure _) (.ite (.pure _) (.ite (.pure _) ?_))
      exact refused_respan span none
    | empty | dynamic _ _ | reactive _ => exact refused_respan span none

theorem syncKind_respan (tag : Tag) (sync : Sync) :
    Respans f g id (syncKind tag sync) (syncKind (tag.respan f) (sync.respan f)) := by
  refine .ite (.pure _) (.ite (.pure _) (.ite (inputKind_respan tag) ?_))
  exact refused_respan sync.span none

theorem selectKind_respan (tag : Tag) : Respans f g id (selectKind tag) (selectKind (tag.respan f)) := by
  unfold selectKind
  rw [binding?_respan]
  cases tag.binding? "multiple" with
  | none => exact .pure _
  | some b =>
    obtain ⟨name, value, span⟩ := b
    cases value with
    | empty | static _ => exact .pure _
    | dynamic _ _ | reactive _ => exact refused_respan span none

theorem soleSync_respan (tag : Tag) (sync : Sync) :
    Respans f g id (soleSync tag sync) (soleSync (tag.respan f) (sync.respan f)) := by
  refine .ite (refused_respan sync.span none) ?_
  refine .ite (refused_respan sync.span none) ?_
  refine (syncKind_respan tag sync).bind fun kind => ?_
  cases kind with
  | none => exact .pure none
  | some kind =>
    have inert : (fun b : Binding => !b.value.isInert) ∘ Binding.respan f = fun b => !b.value.isInert := by
      funext b
      obtain ⟨name, value, span⟩ := b
      cases value <;> rfl
    dsimp only [id]
    rw [binding?_respan, Option.filter_map, inert]
    cases (tag.binding? (syncTarget kind).1).filter fun b => !b.value.isInert with
    | some b => exact refused_respan b.span none
    | none =>
      cases kind with
      | select multiple => exact selectKind_respan tag
      | text | checkbox | radio => exact .pure _

theorem extraSyncs_respan (syncs : List Sync) :
    Respans f g id (extraSyncs syncs) (extraSyncs (syncs.map (Sync.respan f))) := by
  induction syncs with
  | nil => exact .pure ()
  | cons s rest ih => exact (error_respan s.span _ _).bind fun _ => ih

theorem synced_respan (tag : Tag) (body : List Entity) (syncs : List Sync) :
    Respans f g (Option.map (Entity.respan f)) (synced tag body syncs)
      (synced (tag.respan f) (respanList f body) (syncs.map (Sync.respan f))) := by
  match syncs with
  | [] => exact .pure (some (Entity.tag tag body))
  | [sync] =>
    refine (soleSync_respan tag sync).bind fun kind => .result ?_
    cases kind <;> rfl
  | _ :: s :: rest => exact (extraSyncs_respan (s :: rest)).bind fun _ => .pure none

@[simp] theorem respanList_isEmpty (es : List Entity) : (respanList f es).isEmpty = es.isEmpty := by
  cases es <;> rfl

theorem checkTag_respan (header : Outline.Header) (span : Span) {body body'}
    (content : Respans f g (respanList f) body body') :
    Respans f g (Option.map (Entity.respan f)) (checkTag header span body)
      (checkTag (header.respan f) (f span) body') := by
  refine .bind (.foldlM addShorthand_respan _ header.shorthands) fun draft => ?_
  refine .bind (.foldlM addAttribute_respan draft header.attributes) fun draft => ?_
  refine content.bind fun es => ?_
  rw [respanList_isEmpty]
  refine .whenever (warning_respan span _) ?_
  refine (synced_respan draft.tag es draft.syncs).bind fun entity => .result ?_
  exact (apply_ite (Option.map (Entity.respan f)) _ none entity).symm

/-! ### Component uses -/

theorem passing?_respan (i : Inclusion) (name : String) : (i.respan f).passing? name = i.passing? name := by
  unfold Inclusion.passing? Inclusion.respan
  rw [List.any_map, List.any_map, List.any_map]
  rfl

theorem passable_respan (i : Inclusion) (name : String) (span : Span) (kind : Passing) :
    Respans f g id (passable i name span kind) (passable (i.respan f) name (f span) kind) := by
  unfold passable
  rw [passing?_respan]
  cases i.passing? name with
  | none => exact .pure true
  | some previous =>
    refine .ite (refused_respan span false) ?_
    exact .ite (refused_respan span false) (.pure true)

theorem ignoreListenerModifiers_respan (span : Span) (given : List EventModifier) :
    Respans f g id (ignoreListenerModifiers span given) (ignoreListenerModifiers (f span) given) := by
  induction given with
  | nil => exact .pure ()
  | cons m rest ih => exact .whenever (warning_respan span _) ih

theorem pass_respan (i : Inclusion) (a : Attribute) :
    Respans f g (Inclusion.respan f) (pass i a) (pass (i.respan f) (a.respan f)) := by
  cases a with
  | binding b =>
    refine (passable_respan i b.name b.span .prop).bind fun fine => ?_
    refine .ite (.result ?_) (.pure i)
    simp [Inclusion.respan]
  | sync s =>
    refine (passable_respan i s.name s.span .sync).bind fun fine => ?_
    refine .ite (.result ?_) (.pure i)
    simp [Inclusion.respan]
  | event name h =>
    refine (passable_respan i name h.span .event).bind fun fine => ?_
    refine .ite ?_ (.pure i)
    refine (ignoreListenerModifiers_respan h.span h.modifiers).bind fun _ => .result ?_
    have added := listener_add_respan (f := f) i.listeners name
      { h with modifiers := h.modifiers.filter (· = .handler) }
    exact congrArg (Inclusion.mk _ _ _ · _) added
  | receiver r => exact .pure i

theorem passAttribute_respan (i : Inclusion) (a : Outline.Attribute) :
    Respans f g (Inclusion.respan f) (passAttribute i a) (passAttribute (i.respan f) (a.respan f)) := by
  have checking := checkAttribute_respan (f := f) (g := g) a
  obtain ⟨sigil, name, given, value, span⟩ := a
  cases sigil with
  | receiver kind => exact refused_respan span i
  | _ =>
    refine checking.bind fun checked => ?_
    cases checked with
    | none => exact .pure i
    | some a => exact pass_respan i a

theorem refuseShorthands_respan (name : String) (shorthands : List Outline.Shorthand) :
    Respans f g id (refuseShorthands name shorthands)
      (refuseShorthands name (shorthands.map (Outline.Shorthand.respan f))) := by
  induction shorthands with
  | nil => exact .pure ()
  | cons s rest ih =>
    have moved : (s.respan f).span = f s.span := by cases s <;> rfl
    rw [List.map_cons, refuseShorthands, refuseShorthands, moved]
    exact (error_respan s.span _ _).bind fun _ => ih

@[simp] theorem slot_respan (i : Insertion) : (i.respan f).slot = i.slot := by cases i; rfl

@[simp] theorem any_slot_respan (insertions : List Insertion) (name : String) :
    (respanInsertions f insertions).any (·.slot = name) = insertions.any (·.slot = name) := by
  rw [respanInsertions_eq_map, List.any_map]
  exact congrArg (insertions.any ·) (funext fun i => by simp)

theorem respanInsertions_append (a b : List Insertion) :
    respanInsertions f (a ++ b) = respanInsertions f a ++ respanInsertions f b := by
  simp [respanInsertions_eq_map]

theorem respanList_append (a b : List Entity) : respanList f (a ++ b) = respanList f a ++ respanList f b := by
  simp [respanList_eq_map]

theorem sortContent_respan (insertions : List Insertion) (rest es : List Entity) :
    Respans f g (Prod.map (respanInsertions f) (respanList f)) (sortContent insertions rest es)
      (sortContent (respanInsertions f insertions) (respanList f rest) (respanList f es)) := by
  induction es generalizing insertions rest with
  | nil => exact .pure (insertions, rest)
  | cons e es ih =>
    have other := ih insertions (rest ++ [e])
    rw [respanList_append] at other
    cases e with
    | insertion i =>
      obtain ⟨slot, body, span⟩ := i
      simp only [sortContent, respanList, Entity.respan, Insertion.respan, any_slot_respan]
      refine .ite ((error_respan span _ _).bind fun _ => ih insertions rest) ?_
      have next := ih (insertions ++ [.mk slot body span]) rest
      rwa [respanInsertions_append] at next
    | _ => exact other

variable (joins : ∀ s t : Span, f (s.merge t) = (f s).merge (f t))

include joins

theorem foldl_merge_respan (first : Span) (es : List Entity) :
    (respanList f es).foldl (fun s e => s.merge e.span) (f first) = f (es.foldl (fun s e => s.merge e.span) first) := by
  induction es generalizing first with
  | nil => rfl
  | cons e es ih =>
    rw [respanList, List.foldl_cons, List.foldl_cons, Entity.span_respan, ← joins]
    exact ih _

theorem groupInsertions_respan (es : List Entity) :
    Respans f g (respanInsertions f) (groupInsertions es) (groupInsertions (respanList f es)) := by
  refine (sortContent_respan [] [] es).bind fun sorted => ?_
  obtain ⟨insertions, rest⟩ := sorted
  cases rest with
  | nil => exact .pure insertions
  | cons first others =>
    dsimp only [Prod.map, respanList]
    rw [Entity.span_respan, foldl_merge_respan joins, any_slot_respan]
    refine .ite (refused_respan _ insertions) (.result ?_)
    rw [respanInsertions_append]
    rfl

theorem checkInclusion_respan (header : Outline.Header) (span : Span) {body body'}
    (content : Respans f g (respanList f) body body') :
    Respans f g (Entity.respan f) (checkInclusion header span body)
      (checkInclusion (header.respan f) (f span) body') := by
  refine (refuseShorthands_respan header.name header.shorthands).bind fun _ => ?_
  refine .bind (.foldlM passAttribute_respan _ header.attributes) fun inclusion => ?_
  refine content.bind fun es => ?_
  exact (groupInsertions_respan joins es).bind fun insertions =>
    .pure (Entity.component inclusion insertions)

omit joins

/-! ### Chains -/

theorem refuseArgument_respan (d : Outline.Directive) :
    Respans f g id (refuseArgument d) (refuseArgument (d.respan f)) := by
  obtain ⟨name, nameSpan, argument⟩ := d
  cases argument with
  | none => exact .pure ()
  | some argument => exact error_respan argument.span _ _

theorem expr_respan (text : List Char) (span : Span) :
    Argument.expr text (f span) = (Argument.expr text span).respan f := by
  unfold Argument.expr
  split <;> rfl

theorem codes_respan (pieces : List Argument.Piece) (span : Span) :
    Argument.codes pieces (f span) = (Argument.codes pieces span).map (Code.respan f) := by
  rw [Argument.codes, Argument.codes, List.map_map]
  rfl

theorem loop_respan (text : List Char) (span : Span) :
    Argument.loop text (f span) = (Argument.loop text span).map (Loop.respan f) := by
  unfold Argument.loop
  cases Argument.splitAtOf? {} ' ' text with
  | none => rfl
  | some parts =>
    obtain ⟨before, collection⟩ := parts
    dsimp only
    split
    · rfl
    · rw [expr_respan]
      cases Argument.loopNames before <;> rfl

theorem filter_argument_respan (d : Outline.Directive) :
    ((d.respan f).argument.filter fun a => !a.text.isEmpty) =
      (d.argument.filter fun a => !a.text.isEmpty).map (Code.respan f) :=
  Option.filter_map

theorem requireExpr_respan (d : Outline.Directive) :
    Respans f g (Expr.respan f) (requireExpr d) (requireExpr (d.respan f)) := by
  unfold requireExpr
  rw [filter_argument_respan]
  cases d.argument.filter fun a => !a.text.isEmpty with
  | none => exact refused_respan d.nameSpan _
  | some argument => exact .result (expr_respan argument.text.toList argument.span)

theorem patterns_respan (d : Outline.Directive) :
    Respans f g (List.map (Code.respan f)) (patterns d) (patterns (d.respan f)) := by
  obtain ⟨name, nameSpan, argument⟩ := d
  cases argument with
  | none => exact refused_respan nameSpan []
  | some argument =>
    have given := codes_respan (f := f) (Argument.split argument.text.toList ',') argument.span
    have blank : (Argument.codes (Argument.split argument.text.toList ',') (f argument.span)).isEmpty =
        (Argument.codes (Argument.split argument.text.toList ',') argument.span).isEmpty := by
      rw [given, List.isEmpty_map]
    simp only [patterns, Outline.Directive.respan, Option.map_some, Code.respan, blank]
    exact .whenever (error_respan argument.span _ _) (.result given)

theorem unpreceded_respan {φ : α → β} {opener} (d : Outline.Directive) (a : α) :
    Respans f g φ (do unpreceded d opener; return a) (do unpreceded (d.respan f) opener; return φ a) :=
  refused_respan d.nameSpan a

@[simp] theorem any_isDefault_respan (cases : List SwitchCase) :
    (respanSwitchCases f cases).any (·.isDefault) = cases.any (·.isDefault) := by
  rw [respanSwitchCases_eq_map, List.any_map]
  refine congrArg (cases.any ·) (funext fun c => ?_)
  obtain ⟨value, body, falls, span⟩ := c
  cases value <;> rfl

section

variable {body body' : Check (List Entity)} (content : Respans f g (respanList f) body body')

/-- What a continuation makes of a chain, with its body and with the changed one. -/
abbrev Continues (f g : Span → Span) (body body' : Check (List Entity))
    (step : Outline.Directive → Span → Check (List Entity) → Option Chain → Check (Option Chain)) : Prop :=
  ∀ d span chain, Respans f g (Option.map (Chain.respan f)) (step d span body chain)
    (step (d.respan f) (f span) body' (chain.map (Chain.respan f)))

include content joins

theorem continueElseIf_respan : Continues f g body body' continueElseIf := by
  intro d span chain
  match chain with
  | some (.conditional condition first elseIfs none start) =>
    refine (requireExpr_respan d).bind fun next => ?_
    refine content.bind fun es => .result ?_
    simp [Chain.respan, respanElseIfs_eq_map, ElseIf.respan, respanOptional, joins]
  | some (.conditional _ _ _ (some _) _) => exact refused_respan span _
  | some (.choice ..) | some (.switch ..) | none => exact unpreceded_respan d _

theorem continueOtherwise_respan : Continues f g body body' continueOtherwise := by
  intro d span chain
  match chain with
  | some (.conditional condition first elseIfs none start) =>
    refine (refuseArgument_respan d).bind fun _ => ?_
    refine content.bind fun es => .result ?_
    rw [Option.map_some, Chain.respan, joins]
    rfl
  | some (.conditional _ _ _ (some _) _) => exact refused_respan span _
  | some (.choice ..) | some (.switch ..) | none => exact unpreceded_respan d _

theorem continueWhen_respan : Continues f g body body' continueWhen := by
  intro d span chain
  match chain with
  | some (.choice value cases none start) =>
    refine (patterns_respan d).bind fun given => ?_
    refine content.bind fun es => .result ?_
    simp [Chain.respan, respanMatchCases_eq_map, MatchCase.respan, respanOptional, joins]
  | some (.choice _ _ (some _) _) => exact refused_respan span _
  | some (.conditional ..) | some (.switch ..) | none => exact unpreceded_respan d _

theorem continueCase_respan (falls : Bool) : Continues f g body body' (continueCase falls) := by
  intro d span chain
  match chain with
  | some (.switch value cases start) =>
    refine (requireExpr_respan d).bind fun next => ?_
    refine content.bind fun es => .result ?_
    simp [Chain.respan, respanSwitchCases_eq_map, SwitchCase.respan, joins]
  | some (.conditional ..) | some (.choice ..) | none => exact unpreceded_respan d _

theorem switchDefault_respan (falls : Bool) (span : Span) (value : Expr) (cases : List SwitchCase) (start : Span) :
    Respans f g (Option.map (Chain.respan f)) (switchDefault falls span body value cases start)
      (switchDefault falls (f span) body' (value.respan f) (respanSwitchCases f cases) (f start)) := by
  simp only [switchDefault, any_isDefault_respan]
  refine .ite (refused_respan span _) ?_
  refine content.bind fun es => .result ?_
  simp [Chain.respan, respanSwitchCases_eq_map, SwitchCase.respan, joins]

theorem continueDefault_respan : Continues f g body body' continueDefault := by
  intro d span chain
  have refused := refuseArgument_respan (f := f) (g := g) d
  match chain with
  | some (.choice value cases none start) =>
    refine refused.bind fun _ => content.bind fun es => .result ?_
    rw [Option.map_some, Chain.respan, joins]
    rfl
  | some (.choice _ _ (some _) _) => exact refused.bind fun _ => refused_respan span _
  | some (.switch value cases start) =>
    exact refused.bind fun _ => switchDefault_respan joins content false span value cases start
  | some (.conditional ..) | none => exact refused.bind fun _ => unpreceded_respan d _

theorem continueFallDefault_respan : Continues f g body body' continueFallDefault := by
  intro d span chain
  have refused := refuseArgument_respan (f := f) (g := g) d
  match chain with
  | some (.switch value cases start) =>
    exact refused.bind fun _ => switchDefault_respan joins content true span value cases start
  | some (.conditional ..) | some (.choice ..) | none => exact refused.bind fun _ => unpreceded_respan d _

theorem continueChain_respan (k : Continuation) : Continues f g body body' (continueChain k) := by
  cases k with
  | elseIf => exact continueElseIf_respan joins content
  | otherwise => exact continueOtherwise_respan joins content
  | when => exact continueWhen_respan joins content
  | case => exact continueCase_respan joins content false
  | fallCase => exact continueCase_respan joins content true
  | default => exact continueDefault_respan joins content
  | fallDefault => exact continueFallDefault_respan joins content

end

theorem closeChain_respan (s : Siblings) :
    Respans f g (Siblings.respan f) (closeChain s) (closeChain (s.respan f)) := by
  obtain ⟨done, chain⟩ := s
  match chain with
  | none => exact .pure _
  | some (.conditional ..) => exact .pure _
  | some (.choice value cases default span) =>
    have bare : ((respanMatchCases f cases).isEmpty && (respanOptional f default).isNone) =
        (cases.isEmpty && default.isNone) := by
      rw [respanMatchCases_eq_map, respanOptional_eq_map, List.isEmpty_map, Option.isNone_map]
    simp only [closeChain, Siblings.respan, Option.map_some, Chain.respan, bare]
    exact .whenever (warning_respan span _) (.pure _)
  | some (.switch value cases span) =>
    have bare : (respanSwitchCases f cases).isEmpty = cases.isEmpty := by
      rw [respanSwitchCases_eq_map, List.isEmpty_map]
    simp only [closeChain, Siblings.respan, Option.map_some, Chain.respan, bare]
    exact .whenever (warning_respan span _) (.pure _)

/-! ### Text -/

theorem append_respan (items : List Fragment) (item : Fragment) :
    Fragment.append (items.map (Fragment.respan f)) (item.respan f) =
      (Fragment.append items item).map (Fragment.respan f) := by
  unfold Fragment.append
  rw [List.getLast?_map]
  cases items.getLast? with
  | none => cases item <;> simp [Fragment.respan]
  | some last => cases last <;> cases item <;> simp [Fragment.respan, List.map_dropLast]

theorem appendAll_respan (items more : List Fragment) :
    Fragment.appendAll (items.map (Fragment.respan f)) (more.map (Fragment.respan f)) =
      (Fragment.appendAll items more).map (Fragment.respan f) := by
  unfold Fragment.appendAll
  induction more generalizing items with
  | nil => rfl
  | cons item more ih => rw [List.map_cons, List.foldl_cons, List.foldl_cons, append_respan, ih]

include joins in
theorem pushText_respan (s : Siblings) (items : List Fragment) (span : Span) :
    (s.respan f).pushText (items.map (Fragment.respan f)) (f span) = (s.pushText items span).respan f := by
  obtain ⟨done, chain⟩ := s
  simp only [Siblings.pushText, List.isEmpty_map]
  split
  · rfl
  · cases done with
    | nil => simp [Siblings.respan, respanList, Entity.respan, ← appendAll_respan]
    | cons e done =>
      cases e with
      | text before start =>
        have joined := append_respan (f := f) before (.static "\n")
        simp only [Siblings.respan, respanList, Entity.respan, ← joins, ← appendAll_respan, ← joined]
        rfl
      | _ => simp [Siblings.respan, respanList, Entity.respan, ← appendAll_respan]

theorem push?_respan (s : Siblings) (e : Option Entity) :
    (s.respan f).push? (e.map (Entity.respan f)) = (s.push? e).respan f := by
  cases e <;> rfl

/-! ### Directives that stand on their own -/

theorem slotName_respan (d : Outline.Directive) :
    Respans f g id (slotName d) (slotName (d.respan f)) := by
  unfold slotName
  rw [filter_argument_respan]
  cases d.argument.filter fun a => !a.text.isEmpty with
  | none => exact .pure _
  | some argument =>
    exact .ite (.pure _) (refused_respan argument.span none)

theorem find?_respan (table : SlotTable) (name : String) :
    (SlotTable.respan g table).find? name = (table.find? name).map (SlotDecl.respan g) :=
  List.find?_map ..

theorem useSlot_respan (slots : Option SlotTable) (name : String) (fallback : Option (List Entity)) (span : Span) :
    Respans f g (Option.map (Entity.respan f)) (useSlot slots name fallback span)
      (useSlot (slots.map (SlotTable.respan g)) name (respanOptional f fallback) (f span)) := by
  cases slots with
  | none => exact refused_respan span none
  | some table =>
    simp only [useSlot, Option.map_some, find?_respan]
    cases table.find? name with
    | none => exact refused_respan span none
    | some decl =>
      simp only [Option.map_some, SlotDecl.respan, respanOptional_eq_map, Option.isSome_map]
      refine .whenever (error_respan span _ _) ?_
      refine .bind (.modify fun p => rfl) fun _ => .result ?_
      rw [Option.map_some, Entity.respan, respanOptional_eq_map]

theorem templateName_respan (argument : Code) :
    Respans f g id (templateName argument) (templateName (argument.respan f)) := by
  simp only [templateName, Code.respan]
  cases Argument.split argument.text.toList ',' with
  | nil => exact .pure none
  | cons first rest =>
    exact .ite (.pure _) (refused_respan argument.span none)

section

variable {body body' : Check (List Entity)} (content : Respans f g (respanList f) body body')
  (slots : Option SlotTable) (scope : Scope) (d : Outline.Directive) (span : Span)

theorem checkInclude_respan :
    Respans f g (Option.map (Entity.respan f)) (checkInclude d span) (checkInclude (d.respan f) (f span)) := by
  obtain ⟨name, nameSpan, argument⟩ := d
  cases argument with
  | none => exact refused_respan nameSpan none
  | some argument =>
    refine (templateName_respan argument).bind fun named => ?_
    cases named with
    | none => exact .pure none
    | some named =>
      refine .bind (.modify fun p => ?_) fun _ => .result ?_
      · simp [Progress.respan]
      · rw [Option.map_some, Entity.respan, ← codes_respan]
        rfl

include content

theorem checkEach_respan : Respans f g (Option.map (Entity.respan f)) (checkEach d span body)
      (checkEach (d.respan f) (f span) body') := by
  obtain ⟨name, nameSpan, argument⟩ := d
  cases argument with
  | none => exact refused_respan nameSpan none
  | some argument =>
    simp only [checkEach, Outline.Directive.respan, Option.map_some, Code.respan, loop_respan]
    cases Argument.loop argument.text.toList argument.span with
    | error e => exact refused_respan argument.span none
    | ok loop => exact content.bind fun es => .pure _

theorem checkSlot_respan (hasBody : Bool) :
    Respans f g (Option.map (Entity.respan f)) (checkSlot slots d span hasBody body)
      (checkSlot (slots.map (SlotTable.respan g)) (d.respan f) (f span) hasBody body') := by
  refine (slotName_respan d).bind fun name => ?_
  cases name with
  | none => exact .pure none
  | some name =>
    have fallback : Respans f g (respanOptional f) (some <$> body) (some <$> body') :=
      .map content fun _ => rfl
    cases hasBody with
    | false => exact useSlot_respan slots name none span
    | true => exact fallback.bind fun es => useSlot_respan slots name es span

theorem checkInsertion_respan : Respans f g (Option.map (Entity.respan f)) (checkInsertion scope d span body)
      (checkInsertion scope (d.respan f) (f span) body') := by
  refine .ite (refused_respan span none) ?_
  refine (slotName_respan d).bind fun name => ?_
  cases name with
  | none => exact .pure none
  | some name => exact content.bind fun es => .pure _

theorem checkTemplate_respan : Respans f g (Option.map (Entity.respan f)) (checkTemplate scope d span body)
      (checkTemplate scope (d.respan f) (f span) body') := by
  refine .ite (refused_respan span none) ?_
  obtain ⟨name, nameSpan, argument⟩ := d
  cases argument with
  | none => exact refused_respan nameSpan none
  | some argument =>
    refine (templateName_respan argument).bind fun named => ?_
    cases named with
    | none => exact .pure none
    | some named =>
      refine .get fun p => ?_
      refine .ite (refused_respan span none) ?_
      refine .bind (.modify fun p => rfl) fun _ => ?_
      refine content.bind fun es => ?_
      rw [respanList_isEmpty]
      exact .whenever (warning_respan span _) (.pure _)

theorem checkDirective_respan (hasBody : Bool) (s : Siblings) :
    Respans f g (Siblings.respan f) (checkDirective slots scope d span hasBody body s)
      (checkDirective (slots.map (SlotTable.respan g)) scope (d.respan f) (f span) hasBody body' (s.respan f)) := by
  refine .ite ((requireExpr_respan d).bind fun _ => content.bind fun _ => .pure _) ?_
  refine .ite ((requireExpr_respan d).bind fun _ => .pure _) ?_
  refine .ite ((requireExpr_respan d).bind fun _ => .pure _) ?_
  have pushed : ∀ {m n : Check (Option Entity)}, Respans f g (Option.map (Entity.respan f)) m n →
      Respans f g (Siblings.respan f) (do return s.push? (← m)) (do return (s.respan f).push? (← n)) :=
    fun inner => inner.bind fun e => .result (push?_respan s e)
  refine .ite (pushed (checkEach_respan content d span)) ?_
  refine .ite (pushed (checkSlot_respan content slots d span hasBody)) ?_
  refine .ite (pushed (checkInsertion_respan content scope d span)) ?_
  refine .ite (pushed (checkTemplate_respan content scope d span)) ?_
  refine .ite (pushed (checkInclude_respan d span)) ?_
  exact refused_respan d.nameSpan s

end

/-! ### The walk -/

mutual

theorem item_respan (joins : ∀ s t : Span, f (s.merge t) = (f s).merge (f t)) (slots : Option SlotTable)
    (scope : Scope) (i : Outline.Item) (s : Siblings) :
    Respans f g (Siblings.respan f) (item slots scope i s)
      (item (slots.map (SlotTable.respan g)) scope (i.respan f) (s.respan f)) := by
  match i with
  | .text items span =>
    rw [Outline.Item.respan, item, item]
    exact (closeChain_respan s).bind fun s => .result (pushText_respan joins s items span)
  | .tag header children span =>
    have content := siblings_respan joins slots .nested children {}
    rw [Outline.Item.respan, item, item]
    refine (closeChain_respan s).bind fun s => ?_
    exact (checkTag_respan header span content).bind fun e => .result (push?_respan s e)
  | .component header children span =>
    have content := siblings_respan joins slots .component children {}
    rw [Outline.Item.respan, item, item]
    refine (closeChain_respan s).bind fun s => ?_
    exact (checkInclusion_respan joins header span content).bind fun e => .pure (s.push e)
  | .directive d children span =>
    have content := siblings_respan joins slots .nested children {}
    have bare : (Outline.respanItems f children).isEmpty = children.isEmpty := by
      cases children <;> rfl
    have named : (d.respan f).name = d.name := rfl
    rw [Outline.Item.respan, item, item, bare, named]
    cases Continuation.ofName? d.name with
    | some k =>
      refine (continueChain_respan joins content k d span s.chain).bind fun chain => ?_
      exact .pure (Siblings.mk s.done chain)
    | none =>
      refine (closeChain_respan s).bind fun s => ?_
      exact checkDirective_respan content slots scope d span _ s

theorem siblings_respan (joins : ∀ s t : Span, f (s.merge t) = (f s).merge (f t)) (slots : Option SlotTable)
    (scope : Scope) (items : List Outline.Item) (s : Siblings) :
    Respans f g (respanList f) (siblings slots scope items s)
      (siblings (slots.map (SlotTable.respan g)) scope (Outline.respanItems f items) (s.respan f)) := by
  match items with
  | [] =>
    rw [Outline.respanItems, siblings, siblings]
    refine (closeChain_respan s).bind fun s => .result ?_
    rw [Siblings.respan, respanList_eq_map, respanList_eq_map, List.map_reverse]
  | i :: items =>
    rw [Outline.respanItems, siblings, siblings]
    exact (item_respan joins slots scope i s).bind fun s => siblings_respan joins slots scope items s

end

/-! ### The rules of the whole template -/

theorem checkIncludes_respan (templates : List String) (includes : List (String × Span)) :
    Respans f g id (checkIncludes templates includes)
      (checkIncludes templates (includes.map fun i => (i.1, f i.2))) := by
  induction includes with
  | nil => exact .pure ()
  | cons i rest ih => exact .whenever (error_respan i.2 _ _) ih

theorem checkSlotUses_respan (used : List String) (table : SlotTable) :
    Respans f g id (checkSlotUses used table) (checkSlotUses used (SlotTable.respan g table)) := by
  induction table with
  | nil => exact .pure ()
  | cons decl rest ih => exact .whenever (error_respan decl.span _ _) ih

theorem checkWhole_respan (slots : Option SlotTable) :
    Respans f g id (checkWhole slots) (checkWhole (slots.map (SlotTable.respan g))) := by
  have declared : (slots.map (SlotTable.respan g)).getD [] = SlotTable.respan g (slots.getD []) := by
    cases slots <;> rfl
  unfold checkWhole
  rw [declared]
  refine .get fun p => ?_
  exact (checkIncludes_respan p.templates p.includes).bind fun _ => checkSlotUses_respan p.usedSlots _

theorem errorCount_relocate (log : Log) : Log.errorCount (log.map (relocate f g)) = log.errorCount := by
  unfold Log.errorCount
  rw [List.countP_map]
  rfl

end

end Check

theorem check_respan {f g : Span → Span} (joins : ∀ s t : Span, f (s.merge t) = (f s).merge (f t))
    (items : List Outline.Item) (slots : Option SlotTable) (region : Span) :
    check (Outline.respanItems f items) (slots.map (SlotTable.respan g)) (f region) [] =
      ((check items slots region []).1.map (respanList f), (check items slots region []).2.map (relocate f g)) := by
  have run : Check.Respans f g (respanList f)
      (do
        let entities ← Check.siblings slots .root items {}
        Check.checkWhole slots
        return entities)
      (do
        let entities ← Check.siblings (slots.map (SlotTable.respan g)) .root (Outline.respanItems f items) {}
        Check.checkWhole (slots.map (SlotTable.respan g))
        return entities) :=
    (Check.siblings_respan joins slots .root items {}).bind fun entities =>
      (Check.checkWhole_respan slots).bind fun _ => .pure entities
  have ran := run {}
  have start : Progress.respan f g {} = {} := rfl
  rw [start] at ran
  unfold check
  dsimp only
  rw [ran]
  generalize StateT.run _ _ = result
  obtain ⟨entities, p⟩ := result
  simp only [Progress.respan, Check.errorCount_relocate, Check.respanList_isEmpty]
  split
  · rfl
  · split
    · rw [List.map_append]
      rfl
    · rfl

end ComponentCompiler.Template
