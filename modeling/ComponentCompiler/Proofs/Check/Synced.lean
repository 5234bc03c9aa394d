import ComponentCompiler.Proofs.Check.Header

/-!
# Tags with syncs

Main statement: `sync_decided`.
-/

namespace ComponentCompiler.Template.Check

theorem Answers.before {m a rules} (h : Answers m a rules) :
    ∃ added : Log, added.errors = rules ∧
      ∀ {β} (f : α → Check β) p, (m >>= f).run p = (f a).run { p with log := p.log ++ added } := by
  obtain ⟨added, own, ran⟩ := h
  exact ⟨added, own, fun f p => by rw [run_bind, ran]⟩

/-- The header stands for the tag and the syncs, and breaks no rule, syncs apart. -/
structure ReadsWell (header : Outline.Header) (span : Span) (tag : Tag) (syncs : List Sync) : Prop where
  read : ReadsTag header span tag syncs
  distinct : (tag.bindings.map (·.name)).Nodup
  sole : tag.id.isSome → "id" ∉ tag.bindings.map (·.name)

theorem shorthands_answers (name : String) (span : Span) {shorthands : List Outline.Shorthand} {id : Option String}
    (sole : id.toList = shorthands.filterMap Outline.Shorthand.id?) :
    Answers (shorthands.foldlM addShorthand { tag := { name, span } })
      { tag := { name, id, classes := shorthands.filterMap Outline.Shorthand.class?, span } } [] := by
  obtain ⟨_, _, answers, rfl, rfl⟩ := foldlM_answers (f := addShorthand) shorthands (fun before d rules => rules = [] ∧
      d = { tag := { name, id := (before.filterMap Outline.Shorthand.id?).head?,
                     classes := before.filterMap Outline.Shorthand.class?, span } })
    ⟨rfl, rfl⟩ (by
      rintro before s after _ _ rfl ⟨rfl, rfl⟩
      cases s with
      | className fragment at' => exact ⟨_, _, answers_pure _, rfl, by simp⟩
      | id given at' =>
        have first : before.filterMap Outline.Shorthand.id? = [] := by
          have count := congrArg List.length sole
          simp only [List.filterMap_append, List.length_append, List.filterMap_cons, Outline.Shorthand.id?,
            List.length_cons] at count
          have bound : id.toList.length ≤ 1 := by cases id <;> simp
          exact List.length_eq_zero_iff.1 (by omega)
        rw [first, addShorthand]
        exact ⟨_, _, answers_pure _, rfl, by simp [first]⟩)
  refine answers.eq ?_
  rw [← sole]
  cases id <;> rfl

theorem addBinding_answers {d b} (sole : b.name = "id" → d.tag.id = none) (new : d.tag.binding? b.name = none) :
    Answers (addBinding d b) { d with tag := { d.tag with bindings := d.tag.bindings ++ [b] } } [] := by
  have once : ¬ (b.name = "id" && d.tag.id.isSome) = true := by
    intro twice
    obtain ⟨named, given⟩ := Bool.and_eq_true_iff.1 twice
    rw [sole (of_decide_eq_true named)] at given
    cases given
  unfold addBinding
  rw [if_neg once, if_neg (by simp [new])]
  split
  · exact answers_warning.bind (answers_pure _)
  · exact answers_pure _

theorem addAttribute_answers {tag read a next} (reads : a.read? = some next)
    (fits : ∀ b, next = .binding b → (b.name = "id" → tag.id = none) ∧
      b.name ∉ (read.filterMap Attribute.binding?).map (·.name)) :
    Answers (addAttribute (TagDraft.sorted tag read) a) (TagDraft.sorted tag (read ++ [next])) [] := by
  cases checkAttribute_finds a with
  | missing fails _ _ _ => exact (fails next reads).elim
  | found other sole answers =>
    obtain rfl := (sole next).1 reads
    cases next with
    | binding b =>
      obtain ⟨id, new⟩ := fits b rfl
      have absent : (TagDraft.sorted tag read).tag.binding? b.name = none :=
        List.find?_eq_none.2 fun c mem same => new (List.mem_map.2 ⟨c, mem, of_decide_eq_true same⟩)
      refine answers.bind ((addBinding_answers id absent).eq ?_)
      simp [TagDraft.sorted, List.filterMap_cons]
    | event name handler =>
      refine answers.bind ((answers_pure _).eq ?_)
      simp [TagDraft.sorted, List.filterMap_cons, Listener.group_append]
    | sync | receiver =>
      refine answers.bind ((answers_pure _).eq ?_)
      simp [TagDraft.sorted, List.filterMap_cons]

theorem attributes_answers (name : String) (id : Option String) (classes : List Fragment) (span : Span)
    {attributes : List Outline.Attribute} {read} (reads : attributes.mapM Outline.Attribute.read? = some read)
    (distinct : ((read.filterMap Attribute.binding?).map (·.name)).Nodup)
    (sole : id.isSome → "id" ∉ (read.filterMap Attribute.binding?).map (·.name)) :
    Answers (attributes.foldlM addAttribute { tag := { name, id, classes, span } })
      (TagDraft.sorted { name, id, classes, span } read) [] := by
  obtain ⟨_, _, answers, rfl, all, whole, rfl⟩ := foldlM_answers (f := addAttribute) attributes (fun before d rules =>
      rules = [] ∧ ∃ r, before.mapM Outline.Attribute.read? = some r ∧
        d = TagDraft.sorted { name, id, classes, span } r)
    ⟨rfl, [], rfl, rfl⟩ (by
      rintro before a after _ _ rfl ⟨rfl, r, whole, rfl⟩
      obtain ⟨next, rest, one, rfl⟩ : ∃ next rest, a.read? = some next ∧ read = r ++ next :: rest := by
        simp only [List.mapM_append, whole, List.mapM_cons, Option.bind_eq_bind, Option.bind_some, Option.pure_def,
          Option.bind_eq_some_iff, Option.some.injEq] at reads
        obtain ⟨_, ⟨next, one, rest, -, rfl⟩, rfl⟩ := reads
        exact ⟨next, rest, one, rfl⟩
      refine ⟨_, [], addAttribute_answers one fun b same => ?_, rfl, r ++ [next], by simp [whole, one], rfl⟩
      subst same
      simp only [List.filterMap_append, List.filterMap_cons, Attribute.binding?, List.map_append, List.map_cons]
        at distinct sole
      refine ⟨fun named => ?_, fun mem => ?_⟩
      · cases id with
        | none => rfl
        | some _ => exact (sole rfl (by simp [named])).elim
      · exact (List.nodup_append.1 distinct).2.2 _ mem _ List.mem_cons_self rfl)
  obtain rfl := Option.some.inj (whole.symm.trans reads)
  exact answers

theorem extraSyncs_answers (syncs : List Sync) : Answers (extraSyncs syncs) () (syncs.map fun _ => .syncMultiple) := by
  induction syncs with
  | nil => exact answers_pure ()
  | cons s rest ih => exact answers_error.bind ih

theorem synced_answers (tag : Tag) (es : List Entity) {syncs} (given : syncs ≠ []) :
    ∃ r rules, Answers (synced tag es syncs) r rules ∧
      (∀ e, r = some e ↔ ∃ sync kind, syncs = [sync] ∧ SyncsAs tag sync kind ∧ e = .synced kind sync tag es) ∧
      (r.isSome → rules = []) ∧ (r = none → ∃ rule ∈ rules, rule ∈ syncRules) := by
  rcases syncs with _ | ⟨sync, _ | ⟨second, rest⟩⟩
  · exact (given rfl).elim
  · cases soleSync_finds tag sync with
    | found kind sole answers =>
      refine ⟨_, _, answers.bind (answers_pure _), fun e => ?_, fun _ => rfl, by simp⟩
      simp [sole, eq_comm]
    | missing fails rule known answers =>
      exact ⟨_, _, answers.bind (answers_pure _), fun e => by simp [fails], by simp, fun _ => ⟨rule, by simp, known⟩⟩
  · refine ⟨_, _, (extraSyncs_answers (second :: rest)).bind (answers_pure _), fun e => by simp, by simp, fun _ => ?_⟩
    exact ⟨.syncMultiple, by simp, by decide⟩

/-- A tag with syncs whose header is otherwise valid becomes an element exactly if it has one sync that is legal, of the
kind that its name and type tell and with all its attributes and children. If not, its own log `own` has an error about
syncs. -/
theorem sync_decided {header : Outline.Header} {span : Span} {tag : Tag} {syncs : List Sync}
    (valid : ReadsWell header span tag syncs) (given : syncs ≠ []) (body : Check (List Entity)) (p : Progress) :
    let ran := (checkTag header span body).run p
    ∃ warned own : Log, warned.errors = [] ∧
      let content := body.run { p with log := p.log ++ warned }
      ran.2 = { content.2 with log := content.2.log ++ own } ∧
      (∀ e, ran.1 = some e ↔
        ∃ sync kind, syncs = [sync] ∧ SyncsAs tag sync kind ∧ e = .synced kind sync tag content.1) ∧
      (ran.1.isSome → own.errors = []) ∧
      (ran.1 = none → ∃ rule ∈ own.errors, rule ∈ syncRules) := by
  obtain ⟨⟨id, read, reads, ids, same⟩, distinct, sole⟩ := valid
  have bindings : tag.bindings = read.filterMap Attribute.binding? := congrArg (·.tag.bindings) same
  have ident : tag.id = id := congrArg (·.tag.id) same
  obtain ⟨warned, none, ran⟩ := (shorthands_answers header.name span ids).before
  obtain ⟨more, none', ran'⟩ := (attributes_answers header.name id
    (header.shorthands.filterMap Outline.Shorthand.class?) span reads (bindings ▸ distinct)
      (ident ▸ bindings ▸ sole)).before
  let content := body.run { p with log := p.log ++ (warned ++ more) }
  obtain ⟨r, rules, answers, decides, clean, fails⟩ := synced_answers tag content.1 given
  obtain ⟨m, shape, own, rfl, ends⟩ :
      ∃ m, (checkTag header span body).run p = m.run content.2 ∧ Answers m r rules := by
    rw [checkTag, ran, ran', run_bind, List.append_assoc, ← same]
    have ends := answers.bind (answers_pure r)
    rw [List.append_nil] at ends
    exact ⟨_, rfl, .warned_if ends⟩
  refine ⟨warned ++ more, own, by simp [none, none'], ?_⟩
  rw [shape, ends]
  exact ⟨rfl, decides, clean, fails⟩

theorem checkbox_synced :
    let code : Code := ⟨"on", true, ⟨0, 0⟩⟩
    let attributes : List Outline.Attribute :=
      [⟨.plain, "type", [], some (.text "checkbox" ⟨0, 0⟩), ⟨0, 0⟩⟩,
        ⟨.sync, "sync", [], some (.code code), ⟨0, 0⟩⟩]
    let tag : Tag := { name := "input", bindings := [⟨"type", .static "checkbox", ⟨0, 0⟩⟩], span := ⟨0, 0⟩ }
    ((checkTag ⟨"input", [], attributes⟩ ⟨0, 0⟩ (pure [])).run {}).1 =
      some (.synced .checkbox ⟨"sync", code, false, ⟨0, 0⟩⟩ tag []) := by
  intro code attributes tag
  have valid : ReadsWell ⟨"input", [], attributes⟩ ⟨0, 0⟩ tag [⟨"sync", code, false, ⟨0, 0⟩⟩] :=
    ⟨⟨none, _, rfl, rfl, rfl⟩, by decide, by decide⟩
  obtain ⟨_, _, _, _, decides, _⟩ := sync_decided valid (by decide) (pure []) {}
  exact (decides _).2 ⟨_, .checkbox, rfl, ⟨rfl, rfl, by decide, by decide, by simp⟩, rfl⟩

end ComponentCompiler.Template.Check
