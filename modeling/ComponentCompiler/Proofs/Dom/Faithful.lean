import ComponentCompiler.Proofs.Dom.Control
import ComponentCompiler.Proofs.Program.Accepted

/-!
# Fragments and replaced content change nothing that is shown
-/

namespace ComponentCompiler.Program

open Template

namespace Dom

/-- Text that may be all an element holds, perhaps by the choice of directives. -/
inductive LoneText : Entity → Prop where
  | text {items span} : LoneText (.text items span)
  | first {e condition body elseIfs otherwise span} (one : body = [e]) (alone : LoneText e) :
      LoneText (.conditional condition body elseIfs otherwise span)
  | elseIf {e branch condition body elseIfs otherwise span} (among : branch ∈ elseIfs) (one : branch.body = [e])
      (alone : LoneText e) : LoneText (.conditional condition body elseIfs otherwise span)
  | otherwise {e last condition body elseIfs otherwise span} (among : last ∈ otherwise) (one : last = [e])
      (alone : LoneText e) : LoneText (.conditional condition body elseIfs otherwise span)
  | matchCase {e case value cases default span} (among : case ∈ cases) (one : case.body = [e]) (alone : LoneText e) :
      LoneText (.choice value cases default span)
  | default {e last value cases default span} (among : last ∈ default) (one : last = [e]) (alone : LoneText e) :
      LoneText (.choice value cases default span)
  | switchCase {e case value cases span} (steady : cases.any (·.fallsThrough) = false) (among : case ∈ cases)
      (one : case.body = [e]) (alone : LoneText e) : LoneText (.switch value cases span)

def LoneTexts (body : List Entity) : Prop := ∃ e, body = [e] ∧ LoneText e

/-- Elements, text and directives, none of them reactive but for the attributes of elements. Text has some fixed
part, so it is never empty. Every element and its content satisfy `own`. -/
inductive Plain (own : Tag → List Entity → Prop) : Entity → Prop where
  | tag {tag body} (here : own tag body) (content : ∀ e ∈ body, Plain own e) : Plain own (.tag tag body)
  | text {items text span} (still : Liveness.combine (items.map Fragment.liveness) ≠ .reactive)
      (fixed : .static text ∈ items) (solid : text ≠ "") : Plain own (.text items span)
  | conditional {condition body elseIfs otherwise span} (still : conditionalReactive condition elseIfs = false)
      (first : ∀ e ∈ body, Plain own e) (others : ∀ b ∈ elseIfs, ∀ e ∈ b.body, Plain own e)
      (last : ∀ body ∈ otherwise, ∀ e ∈ body, Plain own e) :
      Plain own (.conditional condition body elseIfs otherwise span)
  | each {loop body span} (still : loop.collection.reactive = false) (content : ∀ e ∈ body, Plain own e) :
      Plain own (.each loop body span)
  | choice {value cases default span} (still : value.reactive = false)
      (content : ∀ c ∈ cases, ∀ e ∈ c.body, Plain own e) (last : ∀ body ∈ default, ∀ e ∈ body, Plain own e) :
      Plain own (.choice value cases default span)
  | switch {value cases span} (still : switchReactive value cases = false)
      (content : ∀ c ∈ cases, ∀ e ∈ c.body, Plain own e) : Plain own (.switch value cases span)

/-- An element that is given all its content as a property does not hold one text only. -/
def KeepsContent (tag : Tag) (body : List Entity) : Prop :=
  (∃ b ∈ tag.bindings, b.name = contentProperty) → ¬ LoneTexts body

theorem Plain.isRendered {own : Tag → List Entity → Prop} {e} (h : Plain own e) : isRendered e = true := by
  cases h <;> rfl

theorem renderedCount_plain {own : Tag → List Entity → Prop} {es} (plain : ∀ e ∈ es, Plain own e) :
    renderedCount es = es.length :=
  List.countP_eq_length.2 fun e among => (plain e among).isRendered

variable {σ ν : Type} {I : Interpretation σ ν}

theorem boundTrees_eq_nil {tag body} (keeps : KeepsContent tag body) (alone : LoneTexts body) (w : σ) :
    boundTrees I w tag.bindings = [] := by
  have other : ∀ b ∈ tag.bindings, b.name ≠ contentProperty := fun b among same => keeps ⟨b, among, same⟩ alone
  unfold boundTrees
  generalize tag.bindings = bindings at other
  induction bindings with
  | nil => rfl
  | cons b bindings ih =>
    rw [List.foldl_cons, if_neg (other b List.mem_cons_self)]
    exact ih fun b among => other b (List.mem_cons_of_mem _ among)

theorem text_ne_empty {items text} (fixed : .static text ∈ items) (solid : text ≠ "") (w : σ) :
    I.text items w ≠ "" := by
  intro none
  have flat : (I.text items w).toList = (items.map (I.fragmentText w)).flatMap String.toList := by
    simp [Interpretation.text, String.toList_join]
  rw [none] at flat
  have nothing : ∀ s ∈ items.map (I.fragmentText w), s.toList = [] := List.flatMap_eq_nil_iff.1 flat.symm
  have here := nothing text (List.mem_map.2 ⟨_, fixed, rfl⟩)
  exact solid (String.toList_eq_nil_iff.1 here)

/-- The constants of an entity, of a list with its fragment, and of the items of a list. -/
def OfEntity (path : Path) (t : Temp) : Prop := path <+: t.path

def OfList (path : Path) (t : Temp) : Prop := path <+: t.path ∧ t ≠ ⟨.element, path⟩

def OfItems (path : Path) (t : Temp) : Prop := path <+: t.path ∧ t.path ≠ path

theorem OfItems.list {path t} (h : OfItems path t) : OfList path t :=
  ⟨h.1, fun same => h.2 (by rw [same])⟩

theorem OfList.entity {path t} (h : OfList path t) : OfEntity path t := h.1

theorem OfEntity.items {path i t} (h : OfEntity (path ++ [i]) t) : OfItems path t := by
  obtain ⟨rest, same⟩ := h
  refine ⟨⟨i :: rest, by rw [← same]; simp⟩, fun own => ?_⟩
  have := congrArg List.length (same.trans own)
  simp at this

theorem OfEntity.branch {path i t} (h : OfEntity (path ++ [i]) t) : OfEntity path t :=
  h.items.list.entity

theorem Outside.mono {W W' : Temp → Prop} {node} (outside : Outside W node) (fewer : ∀ t, W' t → W t) :
    Outside W' node :=
  fun t same inside => outside t same (fewer t inside)

theorem outside_own (kind : TempKind) (path : Path) : Outside (OfItems path) (.temp ⟨kind, path⟩) := by
  rintro t same ⟨-, other⟩
  cases same
  exact other rfl

theorem outside_element (path : Path) : Outside (OfList path) (.temp ⟨.element, path⟩) := by
  rintro t same ⟨-, other⟩
  cases same
  exact other rfl

section

variable {W : Temp → Prop} {reactive : Bool} {place inner : Place} {alone : Prop} {s : List Stmt}
  {r : σ → List Tree × σ}

theorem Outside.still (put : inner = regionPlace reactive place) (still : reactive = false)
    (outside : Outside W place.node) : Outside W inner.node := by
  subst still put
  exact outside

theorem Realises.still (put : inner = regionPlace reactive place) (still : reactive = false)
    (h : Realises I W inner alone s r) : Realises I W place alone (regionStatements reactive place s) r := by
  subst still put
  exact h

end

theorem textStatements_realises {path place items text span}
    (still : Liveness.combine (items.map Fragment.liveness) ≠ .reactive) (fixed : .static text ∈ items)
    (solid : text ≠ "") (W : Temp → Prop) :
    Realises I W place (LoneText (.text items span)) (textStatements path place items)
      (meaning I (.text items span)) := by
  unfold textStatements following
  simp only [still, if_false]
  split
  · rename_i alone
    rw [Bool.and_eq_true] at alone
    exact Realises.setContent alone.2 alone.1 .text (text_ne_empty fixed solid)
  · exact Realises.appendText items

theorem gatherStatements_realises {place inner path body s}
    (put : inner = gatherPlace place path (renderedCount body)) (count : renderedCount body = body.length)
    (outside : Outside (OfList path) place.node)
    (content : Outside (OfItems path) inner.node → (inner.lone = true → body.length ≤ 1) →
      Realises I (OfItems path) inner (LoneTexts body) s (meanings I body)) :
    Realises I (OfList path) place (LoneTexts body) (gatherStatements place path (renderedCount body) s)
      (meanings I body) := by
  unfold gatherPlace at put
  unfold gatherStatements
  rw [count] at put ⊢
  split at put
  · rename_i wide
    subst put
    rw [if_pos wide]
    rw [Bool.and_eq_true] at wide
    have own : ¬ OfItems path ⟨.fragment, path⟩ := fun inside => inside.2 rfl
    exact Realises.gathered wide.1 (content (outside_own _ _) nofun) own ⟨List.prefix_refl _, nofun⟩
      (fun _ => OfItems.list) outside
  · rename_i narrow
    rw [if_neg narrow]
    have items := outside.mono fun _ => OfItems.list
    split at put <;> subst put
    · rename_i one
      exact (content items fun _ => Nat.le_of_eq one).mono (fun _ => OfItems.list) fun _ => id
    · exact ((content items nofun).mono (fun _ => OfItems.list) fun _ => id).at rfl nofun

theorem Realises.items {place path i e es s t}
    (first : Realises I (OfEntity (path ++ [i])) place (LoneText e) s (meaning I e))
    (rest : Realises I (OfItems path) place (LoneTexts es) t (meanings I es))
    (outside : Outside (OfItems path) place.node) (few : place.lone = true → (e :: es).length ≤ 1) :
    Realises I (OfItems path) place (LoneTexts (e :: es)) (s ++ t) (meanings I (e :: es)) := by
  have last : place.lone = true → es = [] := fun lone => List.length_eq_zero_iff.1 (by have := few lone; simp_all)
  refine Realises.append (first.mono (fun _ => OfEntity.items) fun lone one => ?_) rest outside fun lone many => ?_
  · exact ⟨e, by rw [last lone], one⟩
  · obtain ⟨e', same, -⟩ := many
    rw [last lone] at same
    cases same

theorem switchPlace_realises {place path t value cases span clauses} {alone : Prop} {hasDefault}
    (outside : Outside (OfEntity path) place.node)
    (content : ((switchPlace place cases).lone = true → cases.any (·.fallsThrough) = false) →
      Outside (OfEntity path) (switchPlace place cases).node →
      Switching I (OfEntity path) (switchPlace place cases) alone hasDefault clauses cases) :
    Realises I (OfEntity path) place alone (switchStatements t value.code (clauses ++ ending hasDefault t))
      (meaning I (.switch value cases span)) := by
  have steady : (switchPlace place cases).lone = true →
      cases.any (·.fallsThrough) = false ∧ switchPlace place cases = place := by
    unfold switchPlace
    cases cases.any (·.fallsThrough) <;> simp [Place.notLone]
  have node : (switchPlace place cases).node = place.node := by
    unfold switchPlace
    split <;> rfl
  have here := content (fun lone => (steady lone).1) (by rw [node]; exact outside)
  exact (Realises.switch here (fun lone => (steady lone).1) (by rw [node]; exact outside)).at node
    fun lone => ⟨(steady lone).2, id⟩

end Dom

section

open Dom

variable {σ ν : Type} {I : Interpretation σ ν} {slots : SlotTable}

mutual

theorem Lowers.realises {place path e s} (h : Lowers slots place path e s)
    (plain : Plain KeepsContent e) (outside : Outside (OfEntity path) place.node) :
    Realises I (OfEntity path) place (LoneText e) s (meaning I e) := by
  match h with
  | .tag content =>
    cases plain with
    | tag keeps inner =>
      have body := content.realises inner (outside_element _)
      exact Realises.element body (fun inside => inside.2 rfl) (List.prefix_refl _) (fun _ => OfList.entity) outside
        (boundTrees_eq_nil keeps)
  | .text =>
    cases plain with
    | text still fixed solid => exact textStatements_realises still fixed solid _
  | .conditional put content others final =>
    cases plain with
    | conditional still first rest last =>
      have here := Outside.still put still outside
      have body := content.realises first (here.mono fun _ inside => inside.entity.branch)
      refine Realises.still put still (Realises.conditional (body.mono ?_ ?_) (others.realises rest here ?_)
        (final.realises last here ?_ ?_))
      · exact fun _ inside => inside.entity.branch
      · exact fun _ ⟨e, one, alone⟩ => .first one alone
      · exact fun b among ⟨e, one, alone⟩ => .elseIf among one alone
      · exact fun _ => OfEntity.branch
      · exact fun body among ⟨e, one, alone⟩ => .otherwise among one alone
  | .each put content =>
    cases plain with
    | each still items =>
      have here := Outside.still put still outside
      have body := content.realises items (here.mono fun _ => OfList.entity)
      exact Realises.still put still (Realises.loop (body.mono (fun _ => OfList.entity) fun _ => id) here)
  | .choice put content final =>
    cases plain with
    | choice still items last =>
      have here := Outside.still put still outside
      refine Realises.still put still
        (Realises.choice (content.realises items here ?_) (final.realises last here ?_ ?_))
      · exact fun c among ⟨e, one, alone⟩ => .matchCase among one alone
      · exact fun _ => OfEntity.branch
      · exact fun body among ⟨e, one, alone⟩ => .default among one alone
  | .switch put sole content =>
    cases plain with
    | switch still items =>
      have here := Outside.still put still outside
      refine Realises.still put still (switchPlace_realises here fun steady here => ?_)
      exact content.realises items here fun lone c among ⟨e, one, alone⟩ => .switchCase (steady lone) among one alone
  | .synced _ | .component _ | .requiredSlot _ _ | .optionalSlot _ _ | .fallbackSlot _ _ _ | .template | .templateUse =>
    cases plain

theorem LowersList.realises {place path es s} (h : LowersList slots place path es s)
    (plain : ∀ e ∈ es, Plain KeepsContent e)
    (outside : Outside (OfList path) place.node) : Realises I (OfList path) place (LoneTexts es) s (meanings I es) := by
  match h with
  | .gathered put content =>
    exact gatherStatements_realises put (renderedCount_plain plain) outside fun items few =>
      content.realises plain items few

theorem LowersFrom.realises {place path i es s} (h : LowersFrom slots place path i es s)
    (plain : ∀ e ∈ es, Plain KeepsContent e)
    (outside : Outside (OfItems path) place.node) (few : place.lone = true → es.length ≤ 1) :
    Realises I (OfItems path) place (LoneTexts es) s (meanings I es) := by
  match h with
  | .nil => exact Realises.nil
  | .cons head tail =>
    have first := head.realises (plain _ List.mem_cons_self) (outside.mono fun _ => OfEntity.items)
    have rest := tail.realises (fun e among => plain e (List.mem_cons_of_mem _ among)) outside
      fun lone => Nat.le_of_succ_le (few lone)
    exact Realises.items first rest outside few

theorem LowersOptional.realises {place path body s} {W : Temp → Prop} {alone : Prop}
    (h : LowersOptional slots place path body s)
    (plain : ∀ es ∈ body, ∀ e ∈ es, Plain KeepsContent e) (outside : Outside W place.node)
    (wider : ∀ t, OfEntity path t → W t) (one : ∀ es ∈ body, LoneTexts es → alone) :
    Otherwise I W place alone s body := by
  match h with
  | .none => exact .none
  | .some content =>
    have inner := content.realises (plain _ rfl) (outside.mono fun t inside => wider t inside.entity)
    exact .some (inner.mono (fun t inside => wider t inside.entity) fun _ => one _ rfl)

theorem LowersElseIfs.realises {place path i elseIfs branches} {alone : Prop}
    (h : LowersElseIfs slots place path i elseIfs branches)
    (plain : ∀ b ∈ elseIfs, ∀ e ∈ b.body, Plain KeepsContent e) (outside : Outside (OfEntity path) place.node)
    (one : ∀ b ∈ elseIfs, LoneTexts b.body → alone) : Branching I (OfEntity path) place alone branches elseIfs := by
  match h with
  | .nil => exact .nil
  | .cons head tail =>
    have body := head.realises (plain _ List.mem_cons_self) (outside.mono fun _ inside => inside.entity.branch)
    have rest := tail.realises (fun b among => plain b (List.mem_cons_of_mem _ among)) outside
      fun b among => one b (List.mem_cons_of_mem _ among)
    exact .cons (body.mono (fun _ inside => inside.entity.branch) fun _ => one _ List.mem_cons_self) rest

theorem LowersMatchCases.realises {place path i cases clauses} {alone : Prop}
    (h : LowersMatchCases slots place path i cases clauses)
    (plain : ∀ c ∈ cases, ∀ e ∈ c.body, Plain KeepsContent e) (outside : Outside (OfEntity path) place.node)
    (one : ∀ c ∈ cases, LoneTexts c.body → alone) : Matching I (OfEntity path) place alone clauses cases := by
  match h with
  | .nil => exact .nil
  | .skip unlabelled tail =>
    exact .skip unlabelled (tail.realises (fun c among => plain c (List.mem_cons_of_mem _ among)) outside
      fun c among => one c (List.mem_cons_of_mem _ among))
  | .cons labelled head tail =>
    have body := head.realises (plain _ List.mem_cons_self) (outside.mono fun _ inside => inside.entity.branch)
    have rest := tail.realises (fun c among => plain c (List.mem_cons_of_mem _ among)) outside
      fun c among => one c (List.mem_cons_of_mem _ among)
    exact .cons labelled (body.mono (fun _ inside => inside.entity.branch) fun _ => one _ List.mem_cons_self) rest

theorem LowersSwitchCases.realises {place hasDefault path i cases clauses} {alone : Prop}
    (h : LowersSwitchCases slots place hasDefault path i cases clauses)
    (plain : ∀ c ∈ cases, ∀ e ∈ c.body, Plain KeepsContent e) (outside : Outside (OfEntity path) place.node)
    (one : place.lone = true → ∀ c ∈ cases, LoneTexts c.body → alone) :
    Switching I (OfEntity path) place alone hasDefault clauses cases := by
  match h with
  | .nil => exact .nil
  | .cons head tail =>
    have body := head.realises (plain _ List.mem_cons_self) (outside.mono fun _ inside => inside.entity.branch)
    have rest := tail.realises (fun c among => plain c (List.mem_cons_of_mem _ among)) outside
      fun lone c among => one lone c (List.mem_cons_of_mem _ among)
    exact .cons (body.mono (fun _ inside => inside.entity.branch) fun lone => one lone _ List.mem_cons_self) rest

end

end

end ComponentCompiler.Program
