import ComponentCompiler.Proofs.Check.Form
import ComponentCompiler.Proofs.Outline.Lines

/-!
# Nothing is lost

At every point of the walk the forms of the items so far are those of the entities so far and of the open chain.
-/

namespace ComponentCompiler.Template

namespace Form

theorem foldr_before (f : Fragment) (items rest : List Fragment) :
    (before f items).foldr before rest = before f (items.foldr before rest) := by
  cases f with
  | static a =>
    cases items with
    | nil => rfl
    | cons g items =>
      cases g with
      | static b =>
        simp only [before, List.foldr_cons]
        generalize items.foldr before rest = others
        cases others with
        | nil => rfl
        | cons h others => cases h <;> simp [String.append_assoc]
      | dynamic code | reactive code => rfl
  | dynamic code | reactive code => rfl

theorem coalesce_append (a b : List Fragment) : coalesce (a ++ b) = a.foldr before (coalesce b) :=
  List.foldr_append

theorem foldr_coalesce (items rest : List Fragment) :
    (coalesce items).foldr before rest = items.foldr before rest := by
  induction items with
  | nil => rfl
  | cons f items ih =>
    calc (coalesce (f :: items)).foldr before rest = (before f (coalesce items)).foldr before rest := rfl
      _ = before f ((coalesce items).foldr before rest) := foldr_before f _ rest
      _ = (f :: items).foldr before rest := by rw [ih, List.foldr_cons]

theorem coalesce_coalesce_append (a b : List Fragment) : coalesce (coalesce a ++ b) = coalesce (a ++ b) := by
  rw [coalesce_append, coalesce_append, foldr_coalesce]

@[simp] theorem coalesce_coalesce (items : List Fragment) : coalesce (coalesce items) = coalesce items :=
  foldr_coalesce items []

theorem coalesce_append_cons_coalesce (a b : List Fragment) (f : Fragment) :
    coalesce (a ++ f :: coalesce b) = coalesce (a ++ f :: b) := by
  rw [List.append_cons, coalesce_append, coalesce_coalesce, ← coalesce_append, ← List.append_cons]

theorem append_cons {items} (some : items ≠ []) (f g : Fragment) :
    Fragment.append (f :: items) g = f :: Fragment.append items g := by
  obtain ⟨h, items, rfl⟩ := List.exists_cons_of_ne_nil some
  unfold Fragment.append
  rw [List.getLast?_cons_cons]
  split <;> simp

theorem append_before (f g : Fragment) (items : List Fragment) :
    Fragment.append (before f items) g = before f (Fragment.append items g) := by
  -- Only a last fragment can be joined with `g`, and only a first one with `f`.
  cases items with
  | nil => cases f <;> cases g <;> rfl
  | cons h items =>
    by_cases last : items = []
    · subst last
      cases f <;> cases h <;> cases g <;> simp [before, Fragment.append, String.append_assoc]
    · have apart : Fragment.append (f :: h :: items) g = f :: h :: Fragment.append items g := by
        rw [append_cons (List.cons_ne_nil _ _), append_cons last]
      rw [append_cons last]
      cases f with
      | static a =>
        cases h with
        | static b => exact append_cons last _ g
        | dynamic code | reactive code => exact apart
      | dynamic code | reactive code => exact apart

theorem append_coalesce (items : List Fragment) (f : Fragment) :
    Fragment.append (coalesce items) f = coalesce (items ++ [f]) := by
  induction items with
  | nil => cases f <;> rfl
  | cons g items ih =>
    calc Fragment.append (coalesce (g :: items)) f = Fragment.append (before g (coalesce items)) f := rfl
      _ = before g (Fragment.append (coalesce items) f) := append_before g f _
      _ = coalesce (g :: items ++ [f]) := by rw [ih]; rfl

theorem appendAll_coalesce (items more : List Fragment) :
    Fragment.appendAll (coalesce items) more = coalesce (items ++ more) := by
  induction more generalizing items with
  | nil => rw [List.append_nil]; rfl
  | cons f more ih =>
    calc Fragment.appendAll (coalesce items) (f :: more)
        = Fragment.appendAll (Fragment.append (coalesce items) f) more := rfl
      _ = coalesce (items ++ f :: more) := by rw [append_coalesce, ih, List.append_assoc]; rfl

def isText : Form → Bool
  | .text _ => true
  | _ => false

def addText (items : List Fragment) : List Form → List Form
  | [] => [.text (coalesce items)]
  | [.text before] => [.text (coalesce (before ++ .static "\n" :: items))]
  | f :: rest => f :: addText items rest

theorem addText_cons {f rest} (items : List Fragment) (h : f.isText = false ∨ rest ≠ []) :
    addText items (f :: rest) = f :: addText items rest := by
  cases rest with
  | nil =>
    cases f with
    | text before => simp [isText] at h
    | _ => rfl
  | cons g rest => cases f <;> rfl

theorem addText_append_text (items before : List Fragment) (forms : List Form) :
    addText items (forms ++ [.text before]) = forms ++ [.text (coalesce (before ++ .static "\n" :: items))] := by
  induction forms with
  | nil => rfl
  | cons f forms ih => rw [List.cons_append, addText_cons items (.inr (by simp)), ih, List.cons_append]

theorem addText_of_last {forms} (last : ∀ f ∈ forms.getLast?, f.isText = false) (items : List Fragment) :
    addText items forms = forms ++ [.text (coalesce items)] := by
  induction forms with
  | nil => rfl
  | cons f forms ih =>
    cases forms with
    | nil => exact addText_cons items (.inl (last f rfl))
    | cons g forms =>
      rw [List.getLast?_cons_cons] at last
      rw [addText_cons items (.inr (List.cons_ne_nil _ _)), ih last]
      rfl

theorem joinText_cons_other {f} (other : f.isText = false) (forms : List Form) :
    joinText (f :: forms) = f :: joinText forms := by
  cases f with
  | text items => cases other
  | _ => rfl

theorem textBefore_other {f} (other : f.isText = false) (items : List Fragment) (rest : List Form) :
    textBefore items (f :: rest) = .text (coalesce items) :: f :: rest := by
  cases f with
  | text before => cases other
  | _ => rfl

theorem textBefore_addText (items more : List Fragment) (forms : List Form) :
    textBefore items (addText more forms) = addText more (textBefore items forms) := by
  cases forms with
  | nil => simp only [addText, textBefore, coalesce_append_cons_coalesce, coalesce_coalesce_append]
  | cons f rest =>
    cases f with
    | text before =>
      cases rest with
      | nil =>
        simp only [addText, textBefore, coalesce_append_cons_coalesce, coalesce_coalesce_append, List.append_assoc,
          List.cons_append]
      | cons g rest =>
        rw [addText_cons more (.inr (List.cons_ne_nil _ _))]
        exact (addText_cons more (.inr (List.cons_ne_nil _ _))).symm
    | _ =>
      rw [addText_cons more (.inl rfl), textBefore_other rfl, textBefore_other rfl,
        addText_cons more (.inr (List.cons_ne_nil _ _)), addText_cons more (.inl rfl)]

theorem joinText_append_text {items} (some : items.isEmpty = false) (forms : List Form) :
    joinText (forms ++ [.text items]) = addText items (joinText forms) := by
  induction forms with
  | nil => simp [joinText, some, textBefore, addText]
  | cons f forms ih =>
    cases f with
    | text before =>
      rw [List.cons_append, joinText, joinText, ih]
      split
      · rfl
      · exact textBefore_addText _ _ _
    | _ =>
      rw [List.cons_append, joinText_cons_other rfl, ih, joinText_cons_other rfl, addText_cons items (.inl rfl)]

theorem textBefore_append_other {f} (other : f.isText = false) (items : List Fragment) (forms : List Form) :
    textBefore items (forms ++ [f]) = textBefore items forms ++ [f] := by
  cases forms with
  | nil => exact textBefore_other other items []
  | cons g forms => cases g <;> rfl

theorem joinText_append_other {f} (other : f.isText = false) (forms : List Form) :
    joinText (forms ++ [f]) = joinText forms ++ [f] := by
  induction forms with
  | nil => exact joinText_cons_other other []
  | cons g forms ih =>
    cases g with
    | text items =>
      rw [List.cons_append, joinText, joinText, ih]
      split
      · rfl
      · exact textBefore_append_other other _ _
    | _ => rw [List.cons_append, joinText_cons_other rfl, ih, joinText_cons_other rfl]; rfl

theorem joinText_append_empty (forms : List Form) : joinText (forms ++ [.text []]) = joinText forms := by
  induction forms with
  | nil => rfl
  | cons f forms ih =>
    cases f with
    | text items => rw [List.cons_append, joinText, joinText, ih]
    | _ => rw [List.cons_append, joinText_cons_other rfl, ih, joinText_cons_other rfl]

theorem coalesce_of_mem_textBefore {items line forms} (later : ∀ {more}, .text more ∈ forms → coalesce more = more)
    (mem : .text items ∈ textBefore line forms) : coalesce items = items := by
  unfold textBefore at mem
  split at mem
  · rcases List.mem_cons.1 mem with same | mem
    · cases same
      exact coalesce_coalesce _
    · exact later (List.mem_cons_of_mem _ mem)
  · rcases List.mem_cons.1 mem with same | mem
    · cases same
      exact coalesce_coalesce _
    · exact later mem

theorem coalesce_of_mem_joinText {items} (forms : List Form) (mem : .text items ∈ joinText forms) :
    coalesce items = items := by
  induction forms generalizing items with
  | nil => cases mem
  | cons f forms ih =>
    cases f with
    | text line =>
      rw [joinText] at mem
      split at mem
      · exact ih mem
      · exact coalesce_of_mem_textBefore ih mem
    | _ =>
      rw [joinText_cons_other rfl] at mem
      rcases List.mem_cons.1 mem with same | mem
      · cases same
      · exact ih mem

end Form

theorem formsOf_append (a b : List Entity) : formsOf (a ++ b) = formsOf a ++ formsOf b := by
  induction a with
  | nil => rfl
  | cons e a ih => simp [formsOf, ih]

theorem formsOf_concat (es : List Entity) (e : Entity) : formsOf (es ++ [e]) = formsOf es ++ e.forms := by
  simp [formsOf_append, formsOf]

theorem formsOf_reverse_cons (e : Entity) (done : List Entity) :
    formsOf (e :: done).reverse = formsOf done.reverse ++ e.forms := by
  rw [List.reverse_cons, formsOf_concat]

theorem elseIfForms_eq_map (branches : List ElseIf) : elseIfForms branches = branches.map ElseIf.form := by
  induction branches with
  | nil => rfl
  | cons branch branches ih => rw [elseIfForms, ih, List.map_cons]

theorem matchForms_eq_map (cases : List MatchCase) : matchForms cases = cases.map MatchCase.form := by
  induction cases with
  | nil => rfl
  | cons branch cases ih => rw [matchForms, ih, List.map_cons]

theorem switchForms_eq_map (cases : List SwitchCase) : switchForms cases = cases.map SwitchCase.form := by
  induction cases with
  | nil => rfl
  | cons branch cases ih => rw [switchForms, ih, List.map_cons]

theorem insertionForms_eq_map (insertions : List Insertion) :
    insertionForms insertions = insertions.map Insertion.form := by
  induction insertions with
  | nil => rfl
  | cons insertion insertions ih => rw [insertionForms, ih, List.map_cons]

theorem forms_ne_nil (e : Entity) : e.forms ≠ [] := by
  cases e <;> simp [Entity.forms]

structure Form.IsPlain (f : Form) : Prop where
  dark : f.isText = false
  free : f.isInsertion = false

theorem lastForms_plain {keyword} (other : ∀ slot, keyword ≠ .insertion slot) (body : Option (List Entity)) :
    ∀ f ∈ lastForms keyword body, f.IsPlain := by
  cases body with
  | none => simp [lastForms]
  | some body =>
    refine List.forall_mem_singleton.2 ⟨rfl, ?_⟩
    cases keyword with
    | insertion slot => exact absurd rfl (other slot)
    | _ => rfl

theorem forms_plain {e : Entity} (dark : ∀ items span, e ≠ .text items span) (free : e.insertion? = none) :
    ∀ f ∈ e.forms, f.IsPlain := by
  cases e with
  | text items span => exact absurd rfl (dark items span)
  | insertion i => cases free
  | conditional condition body elseIfs otherwise span =>
    refine List.forall_mem_cons.2 ⟨⟨rfl, rfl⟩, List.forall_mem_append.2 ⟨?_, lastForms_plain (by simp) _⟩⟩
    rw [elseIfForms_eq_map]
    exact List.forall_mem_map.2 fun branch _ => by cases branch; exact ⟨rfl, rfl⟩
  | choice value cases default span =>
    refine List.forall_mem_cons.2 ⟨⟨rfl, rfl⟩, List.forall_mem_append.2 ⟨?_, lastForms_plain (by simp) _⟩⟩
    rw [matchForms_eq_map]
    exact List.forall_mem_map.2 fun branch _ => by cases branch; exact ⟨rfl, rfl⟩
  | switch value cases span =>
    refine List.forall_mem_cons.2 ⟨⟨rfl, rfl⟩, ?_⟩
    rw [switchForms_eq_map]
    refine List.forall_mem_map.2 fun branch _ => ?_
    obtain ⟨_ | value, body, falls, span⟩ := branch <;> exact ⟨rfl, rfl⟩
  | _ => exact List.forall_mem_singleton.2 ⟨rfl, rfl⟩

theorem forms_dark {e : Entity} (dark : ∀ items span, e ≠ .text items span) : ∀ f ∈ e.forms, f.isText = false := by
  cases found : e.insertion? with
  | none => exact fun f mem => (forms_plain dark found f mem).dark
  | some i =>
    cases e with
    | insertion i => exact List.forall_mem_singleton.2 (by cases i; rfl)
    | _ => cases found

theorem last_dark {done} (dark : ∀ items span others, done ≠ .text items span :: others) :
    ∀ f ∈ (formsOf done.reverse).getLast?, f.isText = false := by
  cases done with
  | nil => nofun
  | cons e others =>
    intro f last
    have shown := List.getLast?_eq_some_getLast (forms_ne_nil e)
    rw [formsOf_reverse_cons, List.getLast?_append, shown, Option.some_or] at last
    cases last
    exact forms_dark (fun items span same => dark items span others (by rw [same])) _ (List.getLast_mem _)

theorem formsOf_pushText {s : Siblings} {forms} (joined : formsOf s.done.reverse = Form.joinText forms)
    (items : List Fragment) (span : Span) :
    formsOf (s.pushText items span).done.reverse = Form.joinText (forms ++ [.text items]) := by
  by_cases none : items = []
  · subst none
    exact joined.trans (Form.joinText_append_empty forms).symm
  have some : items.isEmpty = false := by simpa using none
  rw [Form.joinText_append_text some, ← joined]
  unfold Siblings.pushText
  simp only [some, Bool.false_eq_true, if_false]
  split
  · rename_i before start others done
    have kept : Form.coalesce before = before := by
      refine Form.coalesce_of_mem_joinText forms ?_
      rw [← joined, done, formsOf_reverse_cons]
      simp [Entity.forms]
    have added : Fragment.appendAll (Fragment.append before (.static "\n")) items =
        Form.coalesce (before ++ .static "\n" :: items) := by
      rw [List.append_cons, ← Form.appendAll_coalesce, ← Form.append_coalesce, kept]
    rw [done, formsOf_reverse_cons, formsOf_reverse_cons]
    simp only [Entity.forms, Form.addText_append_text, added]
  · rename_i dark
    have alone : Fragment.appendAll [] items = Form.coalesce items := Form.appendAll_coalesce [] items
    rw [Form.addText_of_last (last_dark dark), formsOf_reverse_cons, alone]
    rfl

theorem forms_free {e : Entity} (free : e.insertion? = none) : ∀ f ∈ e.forms, f.isInsertion = false := by
  cases e with
  | text items span => exact List.forall_mem_singleton.2 rfl
  | _ => exact fun f mem => (forms_plain (by simp) free f mem).free

theorem filter_insertions (es : List Entity) :
    (formsOf es).filter Form.isInsertion = (es.filterMap Entity.insertion?).map Insertion.form := by
  induction es with
  | nil => rfl
  | cons e es ih =>
    rw [formsOf, List.filter_append, ih]
    cases found : e.insertion? with
    | none =>
      have none : e.forms.filter Form.isInsertion = [] :=
        List.filter_eq_nil_iff.2 fun f mem => by simp [forms_free found f mem]
      rw [none, List.filterMap_cons_none found, List.nil_append]
    | some i =>
      cases e with
      | insertion i =>
        rw [List.filterMap_cons_some found, List.map_cons]
        cases found
        cases i
        rfl
      | _ => cases found

theorem filter_others (es : List Entity) :
    (formsOf es).filter (!·.isInsertion) = formsOf (es.filter fun e => e.insertion?.isNone) := by
  induction es with
  | nil => rfl
  | cons e es ih =>
    rw [formsOf, List.filter_append, ih]
    cases found : e.insertion? with
    | none =>
      have all : e.forms.filter (!·.isInsertion) = e.forms :=
        List.filter_eq_self.2 fun f mem => by simp [forms_free found f mem]
      rw [all, List.filter_cons_of_pos (by simp [found]), formsOf]
    | some i =>
      cases e with
      | insertion i =>
        rw [List.filter_cons_of_neg (by simp [Entity.insertion?])]
        cases i
        rfl
      | _ => cases found

theorem insertionForms_gathered (es : List Entity) :
    insertionForms (es.filterMap Entity.insertion? ++ gathered (es.filter fun e => e.insertion?.isNone)) =
      Form.slotted (formsOf es) := by
  rw [insertionForms_eq_map, List.map_append, Form.slotted, filter_insertions, filter_others]
  congr 1
  cases es.filter fun e => e.insertion?.isNone with
  | nil => rfl
  | cons first others =>
    obtain ⟨f, rest, shown⟩ := List.exists_cons_of_ne_nil (forms_ne_nil first)
    have some : formsOf (first :: others) = f :: (rest ++ formsOf others) := by rw [formsOf, shown]; rfl
    simp only [gathered, List.map_cons, List.map_nil, Insertion.form, some]

namespace Outline

/-- Nothing stands below a line that takes no block. -/
inductive Item.BlocksFit : Item → Prop where
  | tag {header children span} (below : ∀ i ∈ children, i.BlocksFit) : BlocksFit (.tag header children span)
  | component {header children span} (below : ∀ i ∈ children, i.BlocksFit) :
      BlocksFit (.component header children span)
  | text {items span} : BlocksFit (.text items span)
  | directive {d children span} (below : ∀ i ∈ children, i.BlocksFit)
      (blockless : isBlockless d.name = true → children = []) : BlocksFit (.directive d children span)

theorem Item.WellFormed.blocksFit {i : Item} (fine : i.WellFormed) : i.BlocksFit := by
  induction fine with
  | tag _ _ ih => exact .tag ih
  | component _ _ ih => exact .component ih
  | text _ => exact .text
  | directive _ _ blockless ih => exact .directive ih blockless

theorem Item.BlocksFit.children {i : Item} (fit : i.BlocksFit) : ∀ j ∈ i.children, j.BlocksFit := by
  cases fit with
  | tag below | component below | directive below => exact below
  | text => exact List.forall_mem_nil _

theorem Item.BlocksFit.blockless {d children span} (fit : (Item.directive d children span).BlocksFit)
    (alone : isBlockless d.name = true) : children = [] := by
  cases fit with
  | directive _ blockless => exact blockless alone

mutual

/-- The item without blocks below lines that take none. -/
def Item.pruned : Item → Item
  | .tag header children span => .tag header (prunedList children) span
  | .component header children span => .component header (prunedList children) span
  | .text items span => .text items span
  | .directive d children span =>
    .directive d (if isBlockless d.name then [] else prunedList children) span

def prunedList : List Item → List Item
  | [] => []
  | i :: items => i.pruned :: prunedList items

end

theorem prunedList_eq_map (items : List Item) : prunedList items = items.map Item.pruned := by
  induction items with
  | nil => rfl
  | cons i items ih => rw [prunedList, ih, List.map_cons]

theorem prunedList_eq_self {items} (same : ∀ i ∈ items, i.pruned = i) : prunedList items = items := by
  rw [prunedList_eq_map, List.map_congr_left same, List.map_id']

theorem Item.pruned_eq_self {i : Item} (fit : i.BlocksFit) : i.pruned = i := by
  induction fit with
  | tag _ ih => rw [Item.pruned, prunedList_eq_self ih]
  | component _ ih => rw [Item.pruned, prunedList_eq_self ih]
  | text => rfl
  | directive _ blockless ih =>
    rw [Item.pruned, prunedList_eq_self ih]
    split
    · rename_i alone
      rw [blockless alone]
    · rfl

mutual

theorem Item.pruned_blocksFit (i : Item) : i.pruned.BlocksFit := by
  match i with
  | .tag header children span => exact .tag (prunedList_blocksFit children)
  | .component header children span => exact .component (prunedList_blocksFit children)
  | .text items span => exact .text
  | .directive d children span =>
    unfold Item.pruned
    split
    · exact .directive (List.forall_mem_nil _) fun _ => rfl
    · rename_i taken
      exact .directive (prunedList_blocksFit children) fun alone => absurd alone taken

theorem prunedList_blocksFit (items : List Item) : ∀ i ∈ prunedList items, i.BlocksFit := by
  match items with
  | [] => exact List.forall_mem_nil _
  | i :: items => exact List.forall_mem_cons.2 ⟨i.pruned_blocksFit, prunedList_blocksFit items⟩

end

end Outline

namespace Check

theorem item_blockless (slots : Option SlotTable) (scope : Scope) {d} (alone : Outline.isBlockless d.name = true)
    (children others : List Outline.Item) (span : Span) :
    item slots scope (.directive d children span) = item slots scope (.directive d others span) := by
  have named : d.name = "match" ∨ d.name = "switch" ∨ d.name = "include" := by
    simpa [Outline.isBlockless, or_assoc] using alone
  funext s
  unfold item
  rcases named with named | named | named <;> simp [named, Continuation.ofName?, checkDirective]

mutual

theorem item_pruned (slots : Option SlotTable) (scope : Scope) (i : Outline.Item) :
    item slots scope i.pruned = item slots scope i := by
  match i with
  | .tag header children span | .component header children span =>
    funext s
    rw [Outline.Item.pruned, item, item, siblings_pruned]
  | .text items span => rfl
  | .directive d children span =>
    unfold Outline.Item.pruned
    split
    · rename_i alone
      exact item_blockless slots scope alone _ _ span
    · funext s
      have some : (Outline.prunedList children).isEmpty = children.isEmpty := by cases children <;> rfl
      rw [item, item, siblings_pruned, some]

theorem siblings_pruned (slots : Option SlotTable) (scope : Scope) (items : List Outline.Item) (s : Siblings) :
    siblings slots scope (Outline.prunedList items) s = siblings slots scope items s := by
  match items with
  | [] => rfl
  | i :: items =>
    rw [Outline.prunedList, siblings, siblings, item_pruned]
    exact congrArg _ (funext (siblings_pruned slots scope items))

end

end Check

theorem check_pruned (items : List Outline.Item) (slots : Option SlotTable) (region : Span) (log : Log) :
    check (Outline.prunedList items) slots region log = check items slots region log := by
  unfold check
  rw [Check.siblings_pruned]

namespace Outline

theorem formList?_append {items more forms others} (first : formList? items = some forms)
    (second : formList? more = some others) : formList? (items ++ more) = some (forms ++ others) := by
  induction items generalizing forms with
  | nil =>
    cases first
    exact second
  | cons i items ih =>
    obtain ⟨f, form, rest⟩ := Option.bind_eq_some_iff.1 first
    obtain ⟨fs, later, same⟩ := Option.bind_eq_some_iff.1 rest
    cases same
    simp [formList?, form, ih later]

end Outline

namespace Check

def Conserved (_ : Scope) (items : List Outline.Item) (_ : Progress) (es : List Entity) (_ : Progress) : Prop :=
  (∀ i ∈ items, i.BlocksFit) → Outline.forms? items = some (formsOf es)

theorem Conserved.formList? {scope items p q es} (h : Conserved scope items p es q)
    (fit : ∀ i ∈ items, i.BlocksFit) :
    ∃ forms, Outline.formList? items = some forms ∧ Form.joinText forms = formsOf es :=
  Option.map_eq_some_iff.1 (h fit)

theorem head?_of_readsTag {header span tag syncs} (h : ReadsTag header span tag syncs) :
    header.head? id = some (tag.head syncs) := by
  obtain ⟨id, read, whole, ids, sorted⟩ := h
  obtain ⟨rfl, rfl, -⟩ := TagDraft.mk.inj sorted
  simp [Outline.Header.head?, whole, Tag.head, ids]

theorem head?_of_readsInclusion {header span inclusion} (h : ReadsInclusion header span inclusion) :
    header.head? forComponent = some inclusion.head := by
  obtain ⟨read, whole, plain, alone, rfl⟩ := h
  simp [Outline.Header.head?, whole, Inclusion.head, plain, alone, sortedInclusion]

theorem forms_of_syncedAs {tag syncs es entity} (h : SyncedAs tag es syncs entity) :
    entity.forms = [.tag (tag.head syncs) (formsOf es)] := by
  cases h <;> rfl

theorem Conserved.directive {scope d children span keyword p q es} (h : Conserved scope children p es q)
    (read : d.read? = some keyword) (fit : (Outline.Item.directive d children span).BlocksFit) :
    (Outline.Item.directive d children span).form? = some (.directive keyword (formsOf es)) := by
  obtain ⟨forms, listed, same⟩ := h.formList? fit.children
  simp [Outline.Item.form?, read, listed, same]

theorem form?_blockless {d children span keyword} (read : d.read? = some keyword)
    (alone : Outline.isBlockless d.name = true) (fit : (Outline.Item.directive d children span).BlocksFit) :
    (Outline.Item.directive d children span).form? = some (.directive keyword []) := by
  rw [fit.blockless alone]
  simp [Outline.Item.form?, read, Outline.formList?, Form.joinText]

section

variable {es : List Entity} {e e' : Entity} {f : Form} {forms : List Form}

theorem joined_push (joined : formsOf es = Form.joinText forms) (shown : e.forms = [f]) (other : f.isText = false) :
    formsOf (es ++ [e]) = Form.joinText (forms ++ [f]) := by
  rw [formsOf_concat, shown, joined, Form.joinText_append_other other]

theorem joined_extend (joined : formsOf (es ++ [e]) = Form.joinText forms) (shown : e'.forms = e.forms ++ [f])
    (other : f.isText = false) : formsOf (es ++ [e']) = Form.joinText (forms ++ [f]) := by
  rw [formsOf_concat] at joined ⊢
  rw [shown, ← List.append_assoc, joined, Form.joinText_append_other other]

end

theorem adds_form {slots scope i es es' p q forms} (added : Adds slots scope Conserved i es p es' q) (fit : i.BlocksFit)
    (joined : formsOf es = Form.joinText forms) :
    ∃ f, i.form? = some f ∧ formsOf es' = Form.joinText (forms ++ [f]) := by
  cases added with
  | @text items span => exact ⟨.text items, rfl, formsOf_pushText joined items span⟩
  | tag read content synced =>
    obtain ⟨children, listed, same⟩ := content.formList? fit.children
    refine ⟨_, ?_, joined_push joined (forms_of_syncedAs synced) rfl⟩
    simp [Outline.Item.form?, head?_of_readsTag read, listed, same]
  | component read content =>
    obtain ⟨children, listed, same⟩ := content.formList? fit.children
    refine ⟨_, ?_, joined_push joined rfl rfl⟩
    simp [Outline.Item.form?, head?_of_readsInclusion read, listed, same, insertionForms_gathered]
  | conditional read content | each read content | insertion read _ content | template read _ _ content
  | fallbackSlot read _ _ _ content =>
    exact ⟨_, content.directive read fit, joined_push joined rfl rfl⟩
  | choice read alone | switch read alone | templateUse read alone =>
    exact ⟨_, form?_blockless read alone fit, joined_push joined rfl rfl⟩
  | slot read =>
    refine ⟨_, ?_, joined_push joined rfl rfl⟩
    simp [Outline.Item.form?, read, Outline.formList?, Form.joinText, fallbackForms]
  | elseIf read content =>
    refine ⟨_, content.directive read fit, joined_extend joined ?_ rfl⟩
    simp [Entity.forms, elseIfForms_eq_map, lastForms, ElseIf.form]
  | when read content =>
    refine ⟨_, content.directive read fit, joined_extend joined ?_ rfl⟩
    simp [Entity.forms, matchForms_eq_map, lastForms, MatchCase.form]
  | otherwise read content | choiceDefault read content =>
    refine ⟨_, content.directive read fit, joined_extend joined ?_ rfl⟩
    simp [Entity.forms, lastForms]
  | case read content | switchDefault read _ content =>
    refine ⟨_, content.directive read fit, joined_extend joined ?_ rfl⟩
    simp [Entity.forms, switchForms_eq_map, SwitchCase.form]

theorem kept_conserved (slots : Option SlotTable) : Kept slots Conserved where
  start _ _ _ := rfl
  step := by
    intro scope p before es q i es' r sofar added fit
    obtain ⟨earlier, last⟩ := List.forall_mem_append.1 fit
    obtain ⟨forms, listed, joined⟩ := sofar.formList? earlier
    obtain ⟨f, form, next⟩ := adds_form added (List.forall_mem_singleton.1 last) joined.symm
    have alone : Outline.formList? [i] = some [f] := by simp [Outline.formList?, form]
    exact Option.map_eq_some_iff.2 ⟨forms ++ [f], Outline.formList?_append listed alone, next.symm⟩

end Check

/-- An accepted outline and its entities have the same forms: the check loses, doubles and reorders nothing.
Blocks below lines that take none do not count, and no text has such blocks. -/
theorem accepted_outline_conserved {items : List Outline.Item} {slots : Option SlotTable} {region : Span}
    {log log' : Log} {es : List Entity} (accepted : check items slots region log = (some es, log')) :
    Outline.forms? (Outline.prunedList items) = some (formsOf es) ∧
      ∀ source base, Outline.parse source base = .ok items → Outline.prunedList items = items := by
  refine ⟨?_, ?_⟩
  · rw [← check_pruned] at accepted
    obtain ⟨_, conserved, -⟩ := check_kept (Check.kept_conserved slots) accepted
    exact conserved (Outline.prunedList_blocksFit items)
  · intro source base read
    exact Outline.prunedList_eq_self fun i mem =>
      Outline.Item.pruned_eq_self (Outline.parse_wellFormed read i mem).blocksFit

/-- Two lines of text below `@if` are one text, and a component below `@else` has its insertion first. -/
theorem conserved_if_else :
    let items : List Outline.Item :=
      [.directive ⟨"if", ⟨1, 3⟩, some ⟨"a", true, ⟨4, 5⟩⟩⟩
          [.text [.static "x"] ⟨7, 10⟩, .text [] ⟨11, 12⟩, .text [.static "y"] ⟨13, 16⟩] ⟨0, 6⟩,
        .directive ⟨"else", ⟨18, 22⟩, none⟩
          [.component ⟨"Box", [], []⟩
            [.tag ⟨"p", [], []⟩ [] ⟨30, 31⟩, .directive ⟨"insert", ⟨33, 39⟩, some ⟨"top", true, ⟨40, 43⟩⟩⟩ [] ⟨32, 44⟩]
            ⟨24, 27⟩] ⟨17, 22⟩]
    let entities : List Entity :=
      [.conditional ⟨⟨"a", true, ⟨4, 5⟩⟩, false⟩ [.text [.static "x\ny"] ⟨7, 16⟩] []
        (some [.component { name := "Box", span := ⟨24, 27⟩ }
          [.mk "top" [] ⟨32, 44⟩, .mk "def" [.tag { name := "p", span := ⟨30, 31⟩ } []] ⟨30, 31⟩]]) ⟨0, 22⟩]
    check items none ⟨0, 44⟩ [] = (some entities, []) ∧
      Outline.forms? (Outline.prunedList items) = some (formsOf entities) := by
  intro items entities
  have accepted : check items none ⟨0, 44⟩ [] = (some entities, []) := by rfl
  exact ⟨accepted, (accepted_outline_conserved accepted).1⟩

end ComponentCompiler.Template
