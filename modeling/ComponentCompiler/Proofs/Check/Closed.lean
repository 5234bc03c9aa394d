import ComponentCompiler.Proofs.Check.Step
import ComponentCompiler.Proofs.Program.Lowering

/-!
# Accepted templates are closed

`Accounts` says that the notes of the check tell which slots and local templates occur in the entities, and that every
entity is `Allowed` where it stands.
-/

namespace ComponentCompiler.Template

open Program (violation?)

def ElseIf.body : ElseIf → List Entity
  | .mk _ body => body

def MatchCase.body : MatchCase → List Entity
  | .mk _ body _ => body

def SwitchCase.body : SwitchCase → List Entity
  | .mk _ body _ _ => body

def Insertion.body : Insertion → List Entity
  | .mk _ body _ => body

def Entity.content : Entity → List Entity
  | .tag _ body | .synced _ _ _ body | .each _ body _ | .template _ _ body _ => body
  | .component _ insertions => insertions.flatMap Insertion.body
  | .conditional _ body elseIfs otherwise _ => body ++ elseIfs.flatMap ElseIf.body ++ otherwise.getD []
  | .choice _ cases default _ => cases.flatMap MatchCase.body ++ default.getD []
  | .switch _ cases _ => cases.flatMap SwitchCase.body
  | .slot _ fallback _ => fallback.getD []
  | .insertion i => i.body
  | .text .. | .templateUse .. => []

/-- The entity is one of the list, or stands somewhere below one of them. -/
inductive Occurs (x : Entity) : List Entity → Prop where
  | here {es : List Entity} (mem : x ∈ es) : Occurs x es
  | inside {es : List Entity} {e : Entity} (mem : e ∈ es) (below : Occurs x e.content) : Occurs x es

section

variable {x e : Entity} {a b es : List Entity}

theorem occurs_iff : Occurs x es ↔ x ∈ es ∨ ∃ e ∈ es, Occurs x e.content := by
  constructor
  · intro occurs
    cases occurs with
    | here mem => exact .inl mem
    | inside mem below => exact .inr ⟨_, mem, below⟩
  · rintro (mem | ⟨e, mem, below⟩)
    · exact .here mem
    · exact .inside mem below

@[simp] theorem occurs_nil : ¬ Occurs x [] := by
  rw [occurs_iff]
  simp

theorem occurs_singleton : Occurs x [e] ↔ x = e ∨ Occurs x e.content := by
  rw [occurs_iff]
  simp

@[simp] theorem occurs_append : Occurs x (a ++ b) ↔ Occurs x a ∨ Occurs x b := by
  rw [@occurs_iff x (a ++ b), @occurs_iff x a, @occurs_iff x b]
  simp only [List.mem_append]
  grind

theorem occurs_cons : Occurs x (e :: es) ↔ x = e ∨ Occurs x e.content ∨ Occurs x es := by
  rw [← List.singleton_append, occurs_append, occurs_singleton, or_assoc]

theorem occurs_flatMap {α : Type} {f : α → List Entity} {xs : List α} :
    Occurs x (xs.flatMap f) ↔ ∃ y ∈ xs, Occurs x (f y) := by
  induction xs with
  | nil => simp
  | cons y ys ih => simp [List.flatMap_cons, ih]

theorem Entity.eq_of_insertion? {i} (found : e.insertion? = some i) : e = .insertion i := by
  cases e with
  | insertion j =>
    cases found
    rfl
  | _ => cases found

theorem body_gathered (es : List Entity) : (gathered es).flatMap Insertion.body = es := by
  cases es <;> simp [gathered, Insertion.body]

theorem occurs_grouped :
    Occurs x ((es.filterMap Entity.insertion? ++ gathered (es.filter fun e => e.insertion?.isNone)).flatMap
      Insertion.body) ↔
      x ∈ es ∧ x.insertion? = none ∨ ∃ e ∈ es, Occurs x e.content := by
  have outside {e : Entity} (mem : e ∈ es) (other : e.insertion? = none) : e ∈ es.filter fun e => e.insertion?.isNone :=
    List.mem_filter.2 ⟨mem, by rw [other]; rfl⟩
  rw [List.flatMap_append, occurs_append, body_gathered, occurs_flatMap]
  constructor
  · rintro (⟨i, mem, below⟩ | rest)
    · obtain ⟨e, among, found⟩ := List.mem_filterMap.1 mem
      obtain rfl := Entity.eq_of_insertion? found
      exact .inr ⟨_, among, below⟩
    · cases rest with
      | here mem => exact .inl ⟨(List.mem_filter.1 mem).1, by simpa using (List.mem_filter.1 mem).2⟩
      | inside mem below => exact .inr ⟨_, (List.mem_filter.1 mem).1, below⟩
  · rintro (⟨mem, other⟩ | ⟨e, mem, below⟩)
    · exact .inr (.here (outside mem other))
    · cases found : e.insertion? with
      | none => exact .inr (.inside (outside mem found) below)
      | some i =>
        obtain rfl := Entity.eq_of_insertion? found
        exact .inl ⟨i, List.mem_filterMap.2 ⟨_, mem, rfl⟩, below⟩

theorem occurs_inserted (other : x.insertion? = none) :
    Occurs x ((es.filterMap Entity.insertion? ++ gathered (es.filter fun e => e.insertion?.isNone)).flatMap
      Insertion.body) ↔
      Occurs x es := by
  rw [occurs_grouped, occurs_iff]
  simp [other]

end

def Entity.template? : Entity → Option String
  | .template name .. => some name
  | _ => none

def Entity.isUnnoted : Entity → Bool
  | .slot .. | .template .. | .templateUse .. => false
  | _ => true

/-- What may stand in a scope: local templates at the top, insertions right below a component, and nothing that breaks a
rule. -/
structure Allowed (table : SlotTable) (scope : Scope) (e : Entity) : Prop where
  template : scope ≠ .root → e.template? = none
  insertion : scope ≠ .component → e.insertion? = none
  sound : e.insertion? = none → violation? table e = none

theorem Allowed.of {table scope} {e : Entity} (template : e.template? = none) (insertion : e.insertion? = none)
    (sound : violation? table e = none) : Allowed table scope e :=
      ⟨fun _ => template, fun _ => insertion, fun _ => sound⟩

structure Accounts (table : SlotTable) (scope : Scope) (p : Progress) (es : List Entity) (q : Progress) : Prop where
  slots : ∀ name, name ∈ q.usedSlots ↔ name ∈ p.usedSlots ∨ ∃ fallback span, Occurs (.slot name fallback span) es
  uses : ∀ name span, (name, span) ∈ q.includes ↔ (name, span) ∈ p.includes ∨ ∃ args,
    Occurs (.templateUse name args span) es
  templates : q.templates = p.templates ++ es.filterMap Entity.template?
  distinct : p.templates.Nodup → q.templates.Nodup
  allowed : ∀ e ∈ es, Allowed table scope e
  nested : ∀ e ∈ es, ∀ x, Occurs x e.content → Allowed table .nested x

section

variable {table : SlotTable} {scope inner : Scope} {p q r : Progress} {a b es : List Entity} {e e' : Entity}

theorem Accounts.nil : Accounts table scope p [] p where
  slots := by simp
  uses := by simp
  templates := by simp
  distinct := id
  allowed := by simp
  nested := by simp

theorem Accounts.append (first : Accounts table scope p a q) (second : Accounts table scope q b r) :
    Accounts table scope p (a ++ b) r where
  slots := by
    intro name
    rw [second.slots, first.slots]
    simp only [occurs_append]
    grind
  uses := by
    intro name span
    rw [second.uses, first.uses]
    simp only [occurs_append]
    grind
  templates := by rw [second.templates, first.templates, List.filterMap_append, List.append_assoc]
  distinct := fun apart => second.distinct (first.distinct apart)
  allowed := List.forall_mem_append.2 ⟨first.allowed, second.allowed⟩
  nested := List.forall_mem_append.2 ⟨first.nested, second.nested⟩

theorem Accounts.inside (content : Accounts table .nested p es q) : ∀ x, Occurs x es → Allowed table .nested x := by
  intro x occurs
  cases occurs with
  | here mem => exact content.allowed x mem
  | inside mem deeper => exact content.nested _ mem x deeper

theorem Accounts.no_templates (content : Accounts table inner p es q) (below : inner ≠ .root) :
    es.filterMap Entity.template? = [] :=
  List.filterMap_eq_nil_iff.2 fun e mem => (content.allowed e mem).template below

theorem occurs_unnoted {x} (unnoted : e.isUnnoted = true) (noted : x.isUnnoted = false) :
    Occurs x [e] ↔ Occurs x e.content := by
  rw [occurs_singleton]
  constructor
  · rintro (rfl | below)
    · rw [unnoted] at noted
      cases noted
    · exact below
  · exact .inr

theorem template?_unnoted (unnoted : e.isUnnoted = true) : e.template? = none := by
  cases e <;> first | rfl | cases unnoted

theorem insertion?_unnoted {x : Entity} (noted : x.isUnnoted = false) : x.insertion? = none := by
  cases x <;> first | rfl | cases noted

theorem Accounts.around (content : Accounts table inner p es q) (below : inner ≠ .root) (unnoted : e.isUnnoted = true)
    (fits : Allowed table scope e) (same : ∀ x, x.insertion? = none → (Occurs x e.content ↔ Occurs x es))
    (inside : ∀ x, Occurs x e.content → Allowed table .nested x) : Accounts table scope p [e] q := by
  have occurs {x : Entity} (noted : x.isUnnoted = false) : Occurs x [e] ↔ Occurs x es :=
    (occurs_unnoted unnoted noted).trans (same x (insertion?_unnoted noted))
  refine ⟨?_, ?_, ?_, content.distinct, List.forall_mem_singleton.2 fits, List.forall_mem_singleton.2 inside⟩
  · intro name
    have shown (fallback span) :
        Occurs (.slot name fallback span) [e] ↔ Occurs (.slot name fallback span) es := occurs rfl
    simp only [content.slots, shown]
  · intro name span
    have asked (args) : Occurs (.templateUse name args span) [e] ↔ Occurs (.templateUse name args span) es := occurs rfl
    simp only [content.uses, asked]
  · rw [content.templates, content.no_templates below, List.filterMap_cons_none (template?_unnoted unnoted),
      List.filterMap_nil]

theorem Accounts.holds (content : Accounts table .nested p es q) (unnoted : e.isUnnoted = true)
    (fits : Allowed table scope e) (whole : e.content = es) : Accounts table scope p [e] q :=
  content.around (by decide) unnoted fits (fun _ _ => by rw [whole]) (whole ▸ content.inside)

theorem Accounts.component {inclusion} (content : Accounts table .component p es q) :
    Accounts table scope p [.component inclusion (es.filterMap Entity.insertion? ++
      gathered (es.filter fun e => e.insertion?.isNone))] q := by
  refine content.around (by decide) rfl (.of rfl rfl rfl) (fun _ other => occurs_inserted other) fun x occurs => ?_
  rcases occurs_grouped.1 occurs with ⟨mem, other⟩ | ⟨e, mem, below⟩
  · have fits := content.allowed x mem
    exact .of (fits.template (by decide)) other (fits.sound other)
  · exact content.nested e mem x below

theorem Accounts.extend (sofar : Accounts table scope p (a ++ [e]) q) (content : Accounts table .nested q es r)
    (unnoted : e.isUnnoted = true) (unnoted' : e'.isUnnoted = true)
    (fits : Allowed table scope e → Allowed table scope e')
    (more : e'.content = e.content ++ es) : Accounts table scope p (a ++ [e']) r := by
  have occurs {x : Entity} (noted : x.isUnnoted = false) :
      Occurs x (a ++ [e']) ↔ Occurs x (a ++ [e]) ∨ Occurs x es := by
    rw [occurs_append, occurs_append, occurs_unnoted unnoted noted, occurs_unnoted unnoted' noted,
      more, occurs_append, or_assoc]
  obtain ⟨others, here⟩ := List.forall_mem_append.1 sofar.allowed
  obtain ⟨front, last⟩ := List.forall_mem_append.1 sofar.nested
  refine ⟨?_, ?_, ?_, fun apart => content.distinct (sofar.distinct apart), ?_, ?_⟩
  · intro name
    have shown (fallback span) : Occurs (.slot name fallback span) (a ++ [e']) ↔
        Occurs (.slot name fallback span) (a ++ [e]) ∨ Occurs (.slot name fallback span) es := occurs rfl
    simp only [content.slots, sofar.slots, shown]
    grind
  · intro name span
    have asked (args) : Occurs (.templateUse name args span) (a ++ [e']) ↔
        Occurs (.templateUse name args span) (a ++ [e]) ∨ Occurs (.templateUse name args span) es := occurs rfl
    simp only [content.uses, sofar.uses, asked]
    grind
  · rw [content.templates, sofar.templates, content.no_templates (by decide), List.append_nil, List.filterMap_append,
      List.filterMap_append, List.filterMap_cons_none (template?_unnoted unnoted),
      List.filterMap_cons_none (template?_unnoted unnoted')]
  · exact List.forall_mem_append.2 ⟨others, List.forall_mem_singleton.2 (fits (here e List.mem_cons_self))⟩
  · refine List.forall_mem_append.2 ⟨front, List.forall_mem_singleton.2 fun x deeper => ?_⟩
    rw [more, occurs_append] at deeper
    rcases deeper with before | added
    · exact last e List.mem_cons_self x before
    · exact content.inside x added

theorem Accounts.shown (content : Accounts table .nested p es q) {name fallback span}
    (fits : Allowed table scope (.slot name fallback span)) (same : fallback.getD [] = es) :
    Accounts table scope p [.slot name fallback span] { q with usedSlots := q.usedSlots ++ [name] } := by
  have occurs {x : Entity} : Occurs x [.slot name fallback span] ↔ x = .slot name fallback span ∨ Occurs x es := by
    rw [occurs_singleton, Entity.content, same]
  refine ⟨?_, ?_, ?_, content.distinct, List.forall_mem_singleton.2 fits, ?_⟩
  · intro other
    simp only [List.mem_append, List.mem_singleton, content.slots, occurs]
    grind
  · intro other spot
    simp only [content.uses, occurs, reduceCtorEq, false_or]
  · simp [content.templates, content.no_templates, Entity.template?]
  · refine List.forall_mem_singleton.2 fun x deeper => ?_
    rw [Entity.content, same] at deeper
    exact content.inside x deeper

theorem Accounts.asked {name args span} :
    Accounts table scope p [.templateUse name args span] { p with includes := p.includes ++ [(name, span)] } := by
  have occurs {x : Entity} : Occurs x [.templateUse name args span] ↔ x = .templateUse name args span := by
    simp [occurs_singleton, Entity.content]
  refine ⟨?_, ?_, ?_, id, List.forall_mem_singleton.2 (.of rfl rfl rfl), ?_⟩
  · intro other
    simp only [occurs, reduceCtorEq, exists_false, or_false]
  · intro other spot
    simp only [List.mem_append, List.mem_singleton, Prod.mk.injEq, occurs]
    grind
  · simp [Entity.template?]
  · simp [Entity.content]

theorem Accounts.defined {name params span} (new : p.templates.contains name = false)
    (content : Accounts table .nested { p with templates  := p.templates ++ [name] } es q) :
    Accounts table .root p [.template name params es span] q := by
  have occurs {x : Entity} :
      Occurs x [.template name params es span] ↔ x = .template name params es span ∨ Occurs x es := by
    rw [occurs_singleton, Entity.content]
  refine ⟨?_, ?_, ?_, ?_, ?_, List.forall_mem_singleton.2 content.inside⟩
  · intro other
    simp only [content.slots, occurs, reduceCtorEq, false_or]
  · intro other spot
    simp only [content.uses, occurs, reduceCtorEq, false_or]
  · simp [content.templates, content.no_templates, Entity.template?]
  · intro apart
    refine content.distinct (List.nodup_append.2 ⟨apart, by simp, ?_⟩)
    intro a mem b same
    rw [List.mem_singleton] at same
    rintro rfl
    simp [same ▸ mem] at new
  · exact List.forall_mem_singleton.2 ⟨fun elsewhere => absurd rfl elsewhere, fun _ => rfl, fun _ => rfl⟩

theorem Accounts.text {s : Siblings} {items span} (sofar : Accounts table scope p s.done.reverse q) :
    Accounts table scope p (s.pushText items span).done.reverse q := by
  have none : Accounts table .nested q [] q := .nil
  unfold Siblings.pushText
  split
  · exact sofar
  · split
    · rename_i before start done last
      rw [last, List.reverse_cons] at sofar
      rw [List.reverse_cons]
      exact sofar.extend none rfl rfl (fun _ => .of rfl rfl rfl) rfl
    · rw [List.reverse_cons]
      exact sofar.append (none.holds rfl (.of rfl rfl rfl) rfl)

theorem adds_accounts {slots i es'} (sofar : Accounts (slots.getD []) scope p es q)
    (h : Check.Adds slots scope (fun scope _ p es q => Accounts (slots.getD []) scope p es q) i es q es' r) :
    Accounts (slots.getD []) scope p es' r := by
  have none : Accounts (slots.getD []) .nested q [] q := .nil
  cases h with
  | text => exact sofar.text
  | tag read content synced =>
    cases synced with
    | plain | synced => exact sofar.append (content.holds rfl (.of rfl rfl rfl) rfl)
  | component read content => exact sofar.append content.component
  | conditional read content => exact sofar.append (content.holds rfl (.of rfl rfl rfl) (by simp [Entity.content]))
  | elseIf read content =>
    exact sofar.extend content rfl rfl (fun _ => .of rfl rfl rfl) (by simp [Entity.content, ElseIf.body])
  | when read content =>
    exact sofar.extend content rfl rfl (fun _ => .of rfl rfl rfl) (by simp [Entity.content, MatchCase.body])
  | otherwise read content | choiceDefault read content =>
    exact sofar.extend content rfl rfl (fun _ => .of rfl rfl rfl) (by simp [Entity.content])
  | case read content =>
    refine sofar.extend content rfl rfl (fun fits => .of rfl rfl ?_) (by simp [Entity.content, SwitchCase.body])
    simpa [violation?, SwitchCase.isDefault, SwitchCase.value] using fits.sound rfl
  | switchDefault read first content =>
    refine sofar.extend content rfl rfl (fun _ => .of rfl rfl ?_) (by simp [Entity.content, SwitchCase.body])
    have sole := List.filter_eq_nil_iff.2 (List.any_eq_false.1 first)
    simp only [violation?, List.filter_append, sole]
    rfl
  | choice read | switch read => exact sofar.append (none.holds rfl (.of rfl rfl rfl) rfl)
  | each read content => exact sofar.append (content.holds rfl (.of rfl rfl rfl) rfl)
  | insertion read inside content =>
    exact sofar.append (content.holds rfl
      ⟨fun _ => rfl, fun outside => absurd inside outside, fun absent => by cases absent⟩ rfl)
  | slot read declared found =>
    subst declared
    exact sofar.append (none.shown (.of rfl rfl (by simp [violation?, found])) rfl)
  | fallbackSlot read declared found optional content =>
    subst declared
    exact sofar.append (content.shown (.of rfl rfl (by simp [violation?, found, optional])) rfl)
  | template read top new content =>
    subst top
    exact sofar.append (Accounts.defined new content)
  | templateUse read => exact sofar.append Accounts.asked

theorem Accounts.sound (account : Accounts table scope p es q) (outside : scope ≠ .component) {x}
    (occurs : Occurs x es) : violation? table x = none := by
  cases occurs with
  | here mem =>
    have fits := account.allowed x mem
    exact fits.sound (fits.insertion outside)
  | inside mem below =>
    have fits := account.nested _ mem x below
    exact fits.sound (fits.insertion (by decide))

end

theorem check_accounts {items slots region log log' es} (accepted : check items slots region log = (some es, log')) :
    ∃ q, Accounts (slots.getD []) .root { log } es q ∧ Check.Whole slots q :=
  check_kept (P := fun scope _ p es q => Accounts (slots.getD []) scope p es q)
    ⟨fun _ _ => Accounts.nil, adds_accounts⟩ accepted

/-- Everything that entities refer to is there, and everything that a component with these slots must show is shown. -/
structure IsClosed (slots : SlotTable) (es : List Entity) : Prop where
  /-- Every local template that is asked for is defined at the top. -/
  defined : ∀ name args span, Occurs (.templateUse name args span) es → ∃ params body spot,
    Entity.template name params body spot ∈ es
  /-- Below the top no local template is defined. -/
  topLevel : ∀ e ∈ es, ∀ name params body span, ¬ Occurs (.template name params body span) e.content
  /-- No name is given to two local templates. -/
  distinct : (es.filterMap Entity.template?).Nodup
  /-- Every slot that is shown is declared, and has a fallback only if it is optional. -/
  declared : ∀ name fallback span, Occurs (.slot name fallback span) es →
    ∃ decl, slots.find? name = some decl ∧ (fallback.isSome → decl.optional = true)
  /-- Every required slot is shown. -/
  shown : ∀ decl ∈ slots, decl.optional = false → ∃ fallback span, Occurs (.slot decl.name fallback span) es

/-- The entities of an accepted outline are closed. -/
theorem accepted_template_closed {items : List Outline.Item} {slots : Option SlotTable} {region : Span} {log log' : Log}
    {es : List Entity} (accepted : check items slots region log = (some es, log')) : IsClosed (slots.getD []) es := by
  obtain ⟨q, account, known, required⟩ := check_accounts accepted
  have templates : q.templates = es.filterMap Entity.template? := account.templates
  refine ⟨?_, ?_, ?_, ?_, ?_⟩
  · intro name args span asked
    have noted := known (name, span) ((account.uses name span).2 (.inr ⟨args, asked⟩))
    rw [templates] at noted
    obtain ⟨e, mem, named⟩ := List.mem_filterMap.1 noted
    cases e <;> simp only [Entity.template?, reduceCtorEq, Option.some.injEq] at named
    subst named
    exact ⟨_, _, _, mem⟩
  · intro e mem name params body span inside
    cases (account.nested e mem _ inside).template (by decide)
  · rw [← templates]
    exact account.distinct List.nodup_nil
  · intro name fallback span shown
    have sound := account.sound (by decide) shown
    cases found : (slots.getD []).find? name with
    | none => simp [violation?, found] at sound
    | some decl => exact ⟨decl, rfl, fun given => by simpa [violation?, found, given] using sound⟩
  · intro decl mem needed
    have noted := (account.slots decl.name).1 (required decl mem needed)
    exact noted.resolve_left nofun

/-- A branch that asks for a local template and shows a required slot. -/
theorem accepted_branch_closed :
    let slots : SlotTable := [⟨"s", false, ⟨0, 0⟩⟩]
    let es : List Entity :=
      [.template "t" [] [.text [.static "-"] ⟨14, 15⟩] ⟨0, 15⟩,
        .conditional ⟨⟨"c", true, ⟨20, 21⟩⟩, false⟩ [.templateUse "t" [] ⟨24, 35⟩, .slot "s" none ⟨38, 46⟩]
          [] none ⟨16, 46⟩]
    check [.directive ⟨"template", ⟨0, 9⟩, some ⟨"t", true, ⟨10, 11⟩⟩⟩ [.text [.static "-"] ⟨14, 15⟩] ⟨0, 15⟩,
        .directive ⟨"if", ⟨16, 19⟩, some ⟨"c", true, ⟨20, 21⟩⟩⟩
          [.directive ⟨"include", ⟨24, 32⟩, some ⟨"t", true, ⟨33, 34⟩⟩⟩ [] ⟨24, 35⟩,
            .directive ⟨"slot", ⟨38, 43⟩, some ⟨"s", true, ⟨44, 45⟩⟩⟩ [] ⟨38, 46⟩] ⟨16, 46⟩]
        (some slots) ⟨0, 46⟩ [] = (some es, []) ∧ IsClosed slots es := by
  intro slots es
  refine (fun accepted => ⟨accepted, accepted_template_closed accepted⟩) ?_
  rfl

end ComponentCompiler.Template
