import Mathlib.Algebra.BigOperators.Group.List.Lemmas
import Mathlib.Data.List.Pairwise
import ComponentCompiler.Proofs.Check.Answers

/-!
# What components are passed

Every attribute of a component is stored once or reported once: `inclusion_partitioned`.
-/

namespace ComponentCompiler.Template

namespace Attribute

@[simp] def binding? : Attribute → Option Binding
  | .binding b => some b
  | _ => none

@[simp] def event? : Attribute → Option (String × Handler)
  | .event name handler => some (name, handler)
  | _ => none

@[simp] def sync? : Attribute → Option Sync
  | .sync s => some s
  | _ => none

@[simp] def receiver? : Attribute → Option Receiver
  | .receiver r => some r
  | _ => none

def key : Attribute → String
  | .binding b => b.name
  | .event name _ => name
  | .sync s => s.name
  | .receiver _ => ""

def isEvent (a : Attribute) : Bool := a.event?.isSome

/-- Two attributes of one component: names are used once, but for events. -/
def Shares (a b : Attribute) : Prop := a.key = b.key → a.isEvent ∧ b.isEvent

instance : Std.Symm Shares := ⟨fun _ _ h same => (h same.symm).symm⟩

instance : DecidableRel Shares := fun a b => inferInstanceAs (Decidable (a.key = b.key → a.isEvent ∧ b.isEvent))

section

variable {attributes : List Attribute}

theorem mem_bindings {b} : b ∈ attributes.filterMap binding? ↔ .binding b ∈ attributes := by
  refine List.mem_filterMap.trans ⟨?_, fun mem => ⟨_, mem, rfl⟩⟩
  rintro ⟨_ | _ | _ | _, mem, ⟨⟩⟩
  exact mem

theorem mem_syncs {s} : s ∈ attributes.filterMap sync? ↔ .sync s ∈ attributes := by
  refine List.mem_filterMap.trans ⟨?_, fun mem => ⟨_, mem, rfl⟩⟩
  rintro ⟨_ | _ | _ | _, mem, ⟨⟩⟩
  exact mem

theorem mem_events {e} : e ∈ attributes.filterMap event? ↔ .event e.1 e.2 ∈ attributes := by
  refine List.mem_filterMap.trans ⟨?_, fun mem => ⟨_, mem, rfl⟩⟩
  rintro ⟨_ | _ | _ | _, mem, ⟨⟩⟩
  exact mem

end

end Attribute

/-- One listener for each event, in the order of their first handlers. -/
def Listener.group (events : List (String × Handler)) : List Listener :=
  (events.map Prod.fst).eraseDups.map fun event =>
    ⟨event, (events.filter fun e => e.1 = event).map Prod.snd⟩

theorem Listener.group_append (events : List (String × Handler)) (name : String) (handler : Handler) :
    Listener.group (events ++ [(name, handler)]) = Listener.add (Listener.group events) name handler := by
  have found : ((Listener.group events).any fun l => l.event = name) = true ↔ name ∈ events.map Prod.fst := by
    simp [Listener.group]
  unfold Listener.add
  by_cases known : name ∈ events.map Prod.fst
  · rw [if_pos (found.mpr known)]
    have last : ([name].removeAll (events.map Prod.fst)) = [] := by simpa [List.removeAll] using known
    unfold Listener.group
    rw [List.map_append, List.map_singleton, List.eraseDups_append, last]
    simp only [List.eraseDups_nil, List.append_nil, List.map_map]
    apply List.map_congr_left
    intro event _
    by_cases same : name = event <;> simp [same, Ne.symm]
  · rw [if_neg fun seen => known (found.mp seen)]
    have last : ([name].removeAll (events.map Prod.fst)) = [name] := by simpa [List.removeAll] using known
    have none : (events.filter fun e => e.1 = name) = [] := by
      apply List.filter_eq_nil_iff.mpr
      intro e member same
      exact known (of_decide_eq_true same ▸ List.mem_map_of_mem member)
    unfold Listener.group
    rw [List.map_append, List.map_singleton, List.eraseDups_append, last, List.map_append]
    congr 1
    · apply List.map_congr_left
      intro event member
      have different : name ≠ event := fun same => known (by simpa [same] using member)
      simp [different]
    · have single : [name].eraseDups = [name] := by simp [List.eraseDups_cons]
      simp [single, none]

theorem nodup_eraseDups (names : List String) : names.eraseDups.Nodup := by
  induction names using List.reverseRecOn with
  | nil => exact List.nodup_nil
  | append_singleton names name ih =>
    rw [List.eraseDups_append]
    by_cases known : name ∈ names
    · simpa [List.removeAll, known] using ih
    · simp only [List.removeAll, List.contains_eq_mem, known, decide_false, Bool.not_false, List.filter_cons_of_pos,
        List.filter_nil, List.eraseDups_cons, List.eraseDups_nil]
      exact ih.append (List.nodup_singleton _) fun x mem last =>
        known (List.mem_singleton.1 last ▸ List.mem_eraseDups.1 mem)

theorem Listener.group_handlers (events : List (String × Handler)) :
    ((Listener.group events).flatMap (·.handlers)).length = events.length := by
  let names := events.map Prod.fst
  have counts : (Listener.group events).map (·.handlers.length) = names.eraseDups.map names.count := by
    simp [Listener.group, names, List.count, List.countP_eq_length_filter, List.filter_map,
      Function.comp_def, beq_eq_decide]
  have once : names.eraseDups.Perm names.dedup :=
    (List.perm_ext_iff_of_nodup (nodup_eraseDups names) names.nodup_dedup).2 fun name => by simp
  rw [List.length_flatMap, counts, (once.map _).sum_eq, List.sum_map_count_dedup_eq_length, List.length_map]

def Inclusion.keys (i : Inclusion) : List String :=
  i.props.map (·.name) ++ i.syncs.map (·.name) ++ i.listeners.map (·.event)

namespace Check

/-- A handler on a component: of its modifiers only `handler` counts. -/
def forComponent (event : String × Handler) : String × Handler :=
  (event.1, { event.2 with modifiers := event.2.modifiers.filter fun m => m = .handler })

def sortedInclusion (name : String) (span : Span) (read : List Attribute) : Inclusion :=
  { name
    props := read.filterMap Attribute.binding?
    syncs := read.filterMap Attribute.sync?
    listeners := Listener.group ((read.filterMap Attribute.event?).map forComponent)
    span }

def passed? (a : Outline.Attribute) : Option Attribute :=
  match a.sigil with
  | .receiver _ => none
  | _ => a.read?

theorem passed?_receiver {a next} (h : passed? a = some next) : next.receiver? = none := by
  unfold passed? Outline.Attribute.read? at h
  cases next with
  | receiver r => grind
  | binding | event | sync => rfl

def store (kept : List Attribute) (a : Attribute) : List Attribute :=
  if ∀ x ∈ kept, x.Shares a then kept ++ [a] else kept

def stored (valid : List Attribute) : List Attribute := valid.foldl store []

/-- What has been stored of valid attributes. -/
structure Keeps (valid kept : List Attribute) : Prop where
  part : kept.Sublist valid
  apart : kept.Pairwise Attribute.Shares
  first : ∀ name, kept.find? (·.key = name) = valid.find? (·.key = name)
  events : ∀ name, (∀ a ∈ kept.find? (·.key = name), a.isEvent) →
    (kept.filterMap Attribute.event?).filter (·.1 = name) = (valid.filterMap Attribute.event?).filter (·.1 = name)

section

variable {valid kept : List Attribute} {a b : Attribute} {n : String}

theorem eq_or_events (apart : kept.Pairwise Attribute.Shares) (ha : a ∈ kept) (hb : b ∈ kept) (same : a.key = b.key) :
    a = b ∨ a.isEvent ∧ b.isEvent := by
  by_cases eq : a = b
  · exact .inl eq
  · exact .inr (apart.forall ha hb eq same)

theorem found_key (found : kept.find? (·.key = n) = some a) : a ∈ kept ∧ a.key = n :=
  ⟨List.mem_of_find?_eq_some found, by simpa using List.find?_some found⟩

theorem mem_kept_iff (apart : kept.Pairwise Attribute.Shares) (other : a.isEvent = false) :
    a ∈ kept ↔ kept.find? (·.key = a.key) = some a := by
  refine ⟨fun mem => ?_, List.mem_of_find?_eq_some⟩
  cases found : kept.find? (·.key = a.key) with
  | none => exact (List.find?_eq_none.1 found a mem (by simp)).elim
  | some first =>
    obtain ⟨known, same⟩ := found_key found
    rcases eq_or_events apart known mem same with rfl | ⟨-, event⟩
    · rfl
    · rw [other] at event
      cases event

theorem Keeps.store (keeps : Keeps valid kept) (a : Attribute) : Keeps (valid ++ [a]) (store kept a) := by
  unfold Check.store
  split
  · rename_i free
    refine ⟨keeps.part.append (.refl _), ?_, fun name => ?_, fun name event => ?_⟩
    · exact List.pairwise_append.2 ⟨keeps.apart, List.pairwise_singleton _ _, by simpa using free⟩
    · rw [List.find?_append, List.find?_append, keeps.first]
    · have earlier := keeps.events name fun x found => event x (by simp [List.find?_append, Option.mem_def.1 found])
      rw [List.filterMap_append, List.filterMap_append, List.filter_append, List.filter_append, earlier]
  · rename_i blocked
    obtain ⟨x, mem, same, other⟩ : ∃ x ∈ kept, x.key = a.key ∧ ¬ (x.isEvent ∧ a.isEvent) := by
      simpa [Attribute.Shares] using blocked
    obtain ⟨first, found⟩ : ∃ first, kept.find? (·.key = a.key) = some first :=
      Option.isSome_iff_exists.1 (List.find?_isSome.2 ⟨x, mem, decide_eq_true same⟩)
    refine ⟨keeps.part.trans (List.sublist_append_left ..), keeps.apart, fun name => ?_, fun name event => ?_⟩
    · rw [List.find?_append, ← keeps.first]
      by_cases named : a.key = name
      · rw [← named, found, Option.some_or]
      · simp [named]
    · have silent : ([a].filterMap Attribute.event?).filter (·.1 = name) = [] := by
        cases a with
        | event e handler =>
          have different : e ≠ name := by
            rintro rfl
            obtain ⟨known, key⟩ := found_key found
            rcases eq_or_events keeps.apart known mem (key.trans same.symm) with rfl | both
            · exact other ⟨event _ found, rfl⟩
            · exact other ⟨both.2, rfl⟩
          simp [different]
        | binding | sync | receiver => rfl
      rw [keeps.events name event, List.filterMap_append, List.filter_append, silent, List.append_nil]

theorem keeps_stored (valid : List Attribute) : Keeps valid (stored valid) := by
  induction valid using List.reverseRecOn with
  | nil => exact ⟨.refl _, .nil, fun _ => rfl, fun _ _ => rfl⟩
  | append_singleton valid a ih =>
    rw [stored, List.foldl_append]
    exact ih.store a

theorem shares_iff (plain : ∀ a ∈ kept, a.receiver? = none) (name : String) (span : Span) :
    (∀ x ∈ kept, x.Shares a) ↔
      ((sortedInclusion name span kept).passing? a.key).all (fun kind => kind = .event && a.isEvent) = true := by
  have props : (sortedInclusion name span kept).props.any (·.name = a.key) = true ↔
      ∃ b, .binding b ∈ kept ∧ b.name = a.key := by
    simp only [sortedInclusion, List.any_eq_true, Attribute.mem_bindings, decide_eq_true_eq]
  have syncs : (sortedInclusion name span kept).syncs.any (·.name = a.key) = true ↔
      ∃ s, .sync s ∈ kept ∧ s.name = a.key := by
    simp only [sortedInclusion, List.any_eq_true, Attribute.mem_syncs, decide_eq_true_eq]
  have events : (sortedInclusion name span kept).listeners.any (·.event = a.key) = true ↔
      ∃ h, .event a.key h ∈ kept := by
    simp [sortedInclusion, Listener.group, forComponent, Attribute.mem_events, -List.mem_filterMap]
  unfold Inclusion.passing?
  split
  · rename_i any
    obtain ⟨b, mem, same⟩ := props.1 any
    exact iff_of_false (fun free => by cases (free _ mem same).1) (by simp)
  · rename_i noProp
    split
    · rename_i any
      obtain ⟨s, mem, same⟩ := syncs.1 any
      exact iff_of_false (fun free => by cases (free _ mem same).1) (by simp)
    · rename_i noSync
      have shared : (∀ x ∈ kept, x.Shares a) ↔ ∀ h, .event a.key h ∈ kept → a.isEvent := by
        refine ⟨fun free h mem => (free _ mem rfl).2, fun event x mem same => ?_⟩
        cases x with
        | binding b => exact (noProp (props.2 ⟨b, mem, same⟩)).elim
        | sync s => exact (noSync (syncs.2 ⟨s, mem, same⟩)).elim
        | event e h =>
          obtain rfl : e = a.key := same
          exact ⟨rfl, event h mem⟩
        | receiver r => cases plain _ mem
      rw [shared]
      split
      · rename_i any
        obtain ⟨h, mem⟩ := events.1 any
        exact ⟨fun event => by simp [event h mem], fun event _ _ => by simpa using event⟩
      · rename_i noEvent
        exact iff_of_true (fun h mem => (noEvent (events.2 ⟨h, mem⟩)).elim) rfl

theorem passable_answers (i : Inclusion) (name : String) (span : Span) (kind : Passing) :
    let free := (i.passing? name).all fun first => first = .event && kind = .event
    ∃ rules, Answers (passable i name span kind) free rules ∧ rules.length = if free then 0 else 1 := by
  unfold passable
  cases i.passing? name with
  | none => exact ⟨[], answers_pure _, rfl⟩
  | some first =>
    cases first <;> cases kind <;>
      first | exact ⟨_, answers_refused false, rfl⟩ | exact ⟨_, answers_pure true, rfl⟩

theorem ignoreListenerModifiers_answers (span : Span) (given : List EventModifier) :
    Answers (ignoreListenerModifiers span given) () [] := by
  induction given with
  | nil => exact answers_pure ()
  | cons m rest ih =>
    unfold ignoreListenerModifiers
    exact .warned_if ih

theorem pass_if_answers {next name span} (plain : ∀ a ∈ kept, a.receiver? = none) (a : Attribute) (at' : Span)
    (kind : Passing) (same : decide (kind = .event) = a.isEvent)
    (goes : Answers next (sortedInclusion name span (kept ++ [a])) []) :
    ∃ rules, Answers (passable (sortedInclusion name span kept) a.key at' kind >>= fun free =>
        if free = true then next else pure (sortedInclusion name span kept))
      (sortedInclusion name span (store kept a)) rules ∧ (store kept a).length + rules.length = kept.length + 1 := by
  obtain ⟨rules, answers, count⟩ := passable_answers (sortedInclusion name span kept) a.key at' kind
  rw [same] at answers count
  refine ⟨rules ++ [], answers.bind ?_, ?_⟩ <;> unfold store <;> simp only [shares_iff plain name span]
  · split
    · exact goes
    · exact answers_pure _
  · rw [List.append_nil, count]
    split <;> simp

theorem pass_answers (plain : ∀ a ∈ kept, a.receiver? = none) (alone : a.receiver? = none)
    (name : String) (span : Span) :
    ∃ rules, Answers (pass (sortedInclusion name span kept) a) (sortedInclusion name span (store kept a)) rules ∧
      (store kept a).length + rules.length = kept.length + 1 := by
  cases a with
  | binding b =>
    refine pass_if_answers plain (.binding b) b.span .prop rfl ((answers_pure _).eq ?_)
    simp [sortedInclusion, List.filterMap_cons]
  | sync s =>
    refine pass_if_answers plain (.sync s) s.span .sync rfl ((answers_pure _).eq ?_)
    simp [sortedInclusion, List.filterMap_cons]
  | event e handler =>
    refine pass_if_answers plain (.event e handler) handler.span .event rfl ?_
    refine Answers.eq ((ignoreListenerModifiers_answers ..).bind (f := fun _ => pure _) (answers_pure _)) ?_
    simp [sortedInclusion, List.filterMap_cons, Listener.group_append, forComponent]
  | receiver r => cases alone

theorem passAttribute_answers (plain : ∀ a ∈ kept, a.receiver? = none) (name : String) (span : Span)
    (a : Outline.Attribute) :
    let next := (passed? a).toList.foldl store kept
    ∃ rules, Answers (passAttribute (sortedInclusion name span kept) a) (sortedInclusion name span next) rules ∧
      next.length + rules.length = kept.length + 1 := by
  unfold passAttribute
  split
  · rename_i sort
    have none : passed? a = none := by simp only [passed?, sort]
    rw [none]
    exact ⟨_, answers_refused _, rfl⟩
  · rename_i sort
    have read : passed? a = a.read? := by
      unfold passed?
      split
      · rename_i receiver
        exact (sort _ receiver).elim
      · rfl
    cases checkAttribute_finds a with
    | found next sole answers =>
      have some : passed? a = some next := read.trans ((sole next).2 rfl)
      rw [some]
      obtain ⟨rules, passed, count⟩ := pass_answers plain (passed?_receiver some) name span
      exact ⟨rules, answers.bind passed, count⟩
    | missing fails rule _ answers =>
      have none : passed? a = none := read.trans (Option.eq_none_iff_forall_ne_some.2 fails)
      rw [none]
      exact ⟨_, answers.bind (answers_pure _), rfl⟩

theorem plain_stored {attributes : List Outline.Attribute} {a} (mem : a ∈ stored (attributes.filterMap passed?)) :
    a.receiver? = none := by
  obtain ⟨given, -, passed⟩ := List.mem_filterMap.1 ((keeps_stored _).part.subset mem)
  exact passed?_receiver passed

theorem passAll_answers (name : String) (span : Span) (attributes : List Outline.Attribute) :
    let kept := stored (attributes.filterMap passed?)
    ∃ rules, Answers (attributes.foldlM passAttribute { name, span }) (sortedInclusion name span kept) rules ∧
      kept.length + rules.length = attributes.length := by
  intro kept
  obtain ⟨_, rules, answers, rfl, count⟩ := foldlM_answers (f := passAttribute) attributes (fun before i rules =>
    i = sortedInclusion name span (stored (before.filterMap passed?)) ∧
      (stored (before.filterMap passed?)).length + rules.length = before.length)
    ⟨rfl, rfl⟩ (by
      rintro before a after _ rules - ⟨rfl, count⟩
      obtain ⟨own, answers, more⟩ :=
        passAttribute_answers (fun a mem => plain_stored mem) name span a
      have now : stored ((before ++ [a]).filterMap passed?) =
          (passed? a).toList.foldl store (stored (before.filterMap passed?)) := by
        rw [stored, List.filterMap_append, List.foldl_append]
        cases given : passed? a <;> simp [given, stored]
      refine ⟨_, own, answers, by rw [now], ?_⟩
      rw [now, List.length_append, List.length_append]
      simp only [List.length_singleton]
      omega)
  exact ⟨rules, answers, count⟩

theorem mem_group {events l} : l ∈ Listener.group events ↔
    l.event ∈ events.map Prod.fst ∧ l.handlers = (events.filter (·.1 = l.event)).map Prod.snd := by
  unfold Listener.group
  rw [List.mem_map]
  constructor
  · rintro ⟨event, mem, rfl⟩
    exact ⟨List.mem_eraseDups.1 mem, rfl⟩
  · rintro ⟨mem, handlers⟩
    exact ⟨l.event, List.mem_eraseDups.2 mem, by rw [← handlers]⟩

theorem exists_event :
    n ∈ ((kept.filterMap Attribute.event?).map forComponent).map Prod.fst ↔ ∃ h, .event n h ∈ kept := by
  rw [List.map_map, List.mem_map]
  constructor
  · rintro ⟨e, mem, rfl⟩
    exact ⟨e.2, Attribute.mem_events.1 mem⟩
  · rintro ⟨h, mem⟩
    exact ⟨(n, h), Attribute.mem_events.2 mem, rfl⟩

theorem event_first (apart : kept.Pairwise Attribute.Shares) :
    (∃ h, .event n h ∈ kept) ↔ ∃ h, kept.find? (·.key = n) = some (.event n h) := by
  refine ⟨?_, fun ⟨h, found⟩ => ⟨h, List.mem_of_find?_eq_some found⟩⟩
  rintro ⟨h, mem⟩
  cases found : kept.find? (·.key = n) with
  | none => exact (List.find?_eq_none.1 found _ mem (by simp [Attribute.key])).elim
  | some a =>
    obtain ⟨known, same⟩ := found_key found
    rcases eq_or_events apart known mem same with rfl | ⟨event, -⟩
    · exact ⟨h, rfl⟩
    · cases a with
      | event e handler => exact ⟨handler, by rw [show e = n from same]⟩
      | binding | sync | receiver => cases event

theorem nodup_names {f : Attribute → Option α} {view : α → String} (apart : kept.Pairwise Attribute.Shares)
    (named : ∀ {a x}, f a = some x → a.key = view x ∧ a.isEvent = false) : ((kept.filterMap f).map view).Nodup := by
  rw [List.Nodup, List.pairwise_map, List.pairwise_filterMap]
  refine apart.imp fun {a b} shares x hx y hy same => ?_
  have event := (shares ((named hx).1.trans (same.trans (named hy).1.symm))).1
  rw [(named hx).2] at event
  cases event

theorem length_kept (plain : ∀ a ∈ kept, a.receiver? = none) (name : String) (span : Span) :
    let i := sortedInclusion name span kept
    kept.length = i.props.length + i.syncs.length + (i.listeners.flatMap (·.handlers)).length := by
  have sorted : kept.length = (kept.filterMap Attribute.binding?).length + (kept.filterMap Attribute.sync?).length +
      (kept.filterMap Attribute.event?).length := by
    induction kept with
    | nil => rfl
    | cons a kept ih =>
      have rest := ih fun a mem => plain a (List.mem_cons_of_mem _ mem)
      cases a with
      | receiver r => cases plain _ List.mem_cons_self
      | binding | sync | event =>
        simp only [List.length_cons, List.filterMap_cons, Attribute.binding?, Attribute.sync?, Attribute.event?]
        omega
  simpa only [sortedInclusion, Listener.group_handlers, List.length_map] using sorted

end

/-- Every attribute of a component is stored once or reported once. Of each name the first valid attribute is kept, and
with an event all others of its name. -/
theorem inclusion_partitioned (header : Outline.Header) (span : Span) (body : Check (List Entity)) (p : Progress) :
    let valid := header.attributes.filterMap passed?
    let first (name : String) := valid.find? (·.key = name)
    let refused := ((refuseShorthands header.name header.shorthands).run p).2
    ∃ (i : Inclusion) (own : Log),
      (header.attributes.foldlM passAttribute { name := header.name, span }).run refused =
        (i, { refused with log := refused.log ++ own }) ∧
      (∃ insertions, ((checkInclusion header span body).run p).1 = .component i insertions) ∧
      i.keys.Nodup ∧
      (∀ b, b ∈ i.props ↔ first b.name = some (.binding b)) ∧
      (∀ s, s ∈ i.syncs ↔ first s.name = some (.sync s)) ∧
      (∀ l, l ∈ i.listeners ↔ (∃ h, first l.event = some (.event l.event h)) ∧
        l.handlers = (((valid.filterMap Attribute.event?).map forComponent).filter (·.1 = l.event)).map Prod.snd) ∧
      header.attributes.length =
        i.props.length + i.syncs.length + (i.listeners.flatMap (·.handlers)).length + own.errorCount := by
  intro valid first refused
  obtain ⟨_, ⟨own, rfl, ran⟩, count⟩ := passAll_answers header.name span header.attributes
  have keeps := keeps_stored valid
  have built : ∃ insertions, ((checkInclusion header span body).run p).1 = .component
    ((header.attributes.foldlM passAttribute { name := header.name, span }).run refused).1 insertions := ⟨_, rfl⟩
  rw [ran refused] at built
  let i := sortedInclusion header.name span (stored valid)
  have props (b : Binding) : b ∈ i.props ↔ first b.name = some (.binding b) :=
    Attribute.mem_bindings.trans ((mem_kept_iff keeps.apart rfl).trans (by rw [keeps.first]; rfl))
  have syncs (s : Sync) : s ∈ i.syncs ↔ first s.name = some (.sync s) :=
    Attribute.mem_syncs.trans ((mem_kept_iff keeps.apart rfl).trans (by rw [keeps.first]; rfl))
  have events (l : Listener) : l ∈ i.listeners ↔ (∃ h, first l.event = some (.event l.event h)) ∧
      l.handlers = (((valid.filterMap Attribute.event?).map forComponent).filter (·.1 = l.event)).map Prod.snd := by
    rw [show first l.event = _ from (keeps.first l.event).symm, ← event_first keeps.apart, ← exists_event]
    refine mem_group.trans (and_congr_right fun mem => ?_)
    obtain ⟨h, found⟩ := (event_first keeps.apart).1 (exists_event.1 mem)
    have all := congrArg (List.map forComponent) (keeps.events l.event (by rw [found]; rintro _ ⟨⟩; rfl))
    rw [List.filter_map, List.filter_map]
    exact iff_of_eq (congrArg (l.handlers = List.map Prod.snd ·) all)
  refine ⟨i, own, ran refused, built, ?_, props, syncs, events, ?_⟩
  · have listened : (i.listeners.map (·.event)).Nodup := by
      simpa [i, sortedInclusion, Listener.group, Function.comp_def] using nodup_eraseDups _
    refine List.nodup_append.2 ⟨List.nodup_append.2 ⟨?_, ?_, ?_⟩, listened, ?_⟩
    · exact nodup_names keeps.apart fun {a x} h => by cases a <;> cases h; exact ⟨rfl, rfl⟩
    · exact nodup_names keeps.apart fun {a x} h => by cases a <;> cases h; exact ⟨rfl, rfl⟩
    · simp only [List.forall_mem_map]
      intro b hb s hs same
      cases ((props b).1 hb).symm.trans (same ▸ (syncs s).1 hs)
    · simp only [List.forall_mem_append, List.forall_mem_map]
      refine ⟨fun b hb l hl same => ?_, fun s hs l hl same => ?_⟩
      · obtain ⟨h, found⟩ := ((events l).1 hl).1
        cases ((props b).1 hb).symm.trans (same ▸ found)
      · obtain ⟨h, found⟩ := ((events l).1 hl).1
        cases ((syncs s).1 hs).symm.trans (same ▸ found)
  · rw [← count, Log.length_errors, length_kept (fun a mem => plain_stored mem) header.name span]

end Check

end ComponentCompiler.Template
