import ComponentCompiler.Proofs.Check.Header

/-!
# What an item adds to its siblings

`siblings_induction` turns what every constructor of `Adds` keeps into a property of whole outlines.
-/

namespace ComponentCompiler.Template

/-! ### Directives with their arguments read -/

inductive Keyword where
  | conditional (condition : Expr)
  | elseIf (condition : Expr)
  | otherwise
  | choice (value : Expr)
  | when (patterns : List Code)
  | switch (value : Expr)
  | case (fallsThrough : Bool) (value : Expr)
  | default (fallsThrough : Bool)
  | each (loop : Loop)
  | slot (name : String)
  | insertion (slot : String)
  | template (name : String) (params : List String)
  | templateUse (name : String) (args : List Code)
  deriving DecidableEq

def Keyword.name : Keyword → String
  | .conditional _ => "if"
  | .elseIf _ => "elseif"
  | .otherwise => "else"
  | .choice _ => "match"
  | .when _ => "when"
  | .switch _ => "switch"
  | .case falls _ => if falls then "fallcase" else "case"
  | .default falls => if falls then "falldefault" else "default"
  | .each _ => "each"
  | .slot _ => "slot"
  | .insertion _ => "insert"
  | .template _ _ => "template"
  | .templateUse _ _ => "include"

namespace Outline.Directive

/-- The argument read as the directive called `name` takes it, nothing if there is no such directive or
the argument does not fit. -/
def readAs (d : Outline.Directive) (name : String) : Option Keyword :=
  match name with
  | "if" => d.expr?.map .conditional
  | "elseif" => d.expr?.map .elseIf
  | "else" => if d.argument.isNone then some .otherwise else none
  | "match" => d.expr?.map .choice
  | "when" => d.patterns?.map .when
  | "switch" => d.expr?.map .switch
  | "case" => d.expr?.map (.case false)
  | "fallcase" => d.expr?.map (.case true)
  | "default" => if d.argument.isNone then some (.default false) else none
  | "falldefault" => if d.argument.isNone then some (.default true) else none
  | "each" => d.loop?.map .each
  | "slot" => d.slot?.map .slot
  | "insert" => d.slot?.map .insertion
  | "template" => d.named?.map fun (name, params, _) =>
    .template name ((params.filter (!·.isBlank)).map fun p => String.ofList (Text.trim p.text))
  | "include" => d.named?.map fun (name, args, span) => .templateUse name (Argument.codes args span)
  | _ => none

def read? (d : Outline.Directive) : Option Keyword := d.readAs d.name

theorem read?_of_named (d : Outline.Directive) {name} (named : d.name = name) : d.read? = d.readAs name :=
  congrArg d.readAs named

theorem read?_eq_some {d : Outline.Directive} {name r a} {g : α → Keyword} (named : d.name = name)
    (read : r = some a) (reads : d.readAs name = r.map g) : d.read? = some (g a) := by
  rw [read?_of_named d named, reads, read, Option.map_some]

/-- The argument is one that the keyword is read from. -/
def Supplies (d : Outline.Directive) : Keyword → Prop
  | .conditional e | .elseIf e | .choice e | .switch e | .case _ e => d.expr? = some e
  | .otherwise | .default _ => d.argument = none
  | .when patterns => d.patterns? = some patterns
  | .each loop => d.loop? = some loop
  | .slot name | .insertion name => d.slot? = some name
  | .template name params => ∃ pieces span, d.named? = some (name, pieces, span) ∧
    params = (pieces.filter (!·.isBlank)).map fun p => String.ofList (Text.trim p.text)
  | .templateUse name args => ∃ pieces span, d.named? = some (name, pieces, span) ∧ args = Argument.codes pieces span

theorem supplies_of_read {d : Outline.Directive} {keyword} (read : d.read? = some keyword) :
    d.name = keyword.name ∧ d.Supplies keyword := by
  have made {α : Type} {found : Option α} {make : α → Keyword} (read : found.map make = some keyword)
      (given : ∀ a, found = some a → d.name = (make a).name ∧ d.Supplies (make a)) :
      d.name = keyword.name ∧ d.Supplies keyword := by
    obtain ⟨a, here, rfl⟩ := Option.map_eq_some_iff.1 read
    exact given a here
  have bare {value : Keyword} (read : (if d.argument.isNone then some value else none) = some keyword)
      (given : d.argument = none → d.name = value.name ∧ d.Supplies value) :
      d.name = keyword.name ∧ d.Supplies keyword := by
    split at read
    · next absent =>
      cases read
      exact given (Option.isNone_iff_eq_none.1 absent)
    · cases read
  unfold read? readAs at read
  split at read
  all_goals first
    | exact made read fun _ here => ⟨by assumption, here⟩
    | exact bare read fun absent => ⟨by assumption, absent⟩
    | exact made read fun a here => ⟨by assumption, a.2.1, a.2.2, here, rfl⟩
    | cases read

end Outline.Directive

/-! ### Steps -/

def Chain.entity : Chain → Entity
  | .conditional condition body elseIfs otherwise span =>
    .conditional condition body elseIfs otherwise span
  | .choice value cases default span => .choice value cases default span
  | .switch value cases span => .switch value cases span

/-- The entities so far, with the chain that is open behind them. -/
def Siblings.entities (s : Siblings) : List Entity :=
  s.done.reverse ++ (s.chain.map Chain.entity).toList

namespace Siblings

@[simp] theorem entities_push (before : List Entity) (e : Entity) :
    (push? ⟨before.reverse, none⟩ (some e)).entities = before ++ [e] := by
  simp [entities, push?, push]

theorem entities_pushText (before : List Entity) (items : List Fragment) (span : Span) :
    (pushText ⟨before.reverse, none⟩ items span).entities =
      (pushText ⟨before.reverse, none⟩ items span).done.reverse := by
  unfold pushText
  split
  · exact List.append_nil _
  · split <;> exact List.append_nil _

end Siblings

namespace Check

/-- What the items of a scope become, from one progress to another. -/
abbrev Account := Scope → List Outline.Item → Progress → List Entity → Progress → Prop

section

variable (slots : Option SlotTable) (scope : Scope) (body : Account)

/-- What an item that passes does to the entities before it and to the progress. `body` tells what the
items below it become. -/
inductive Adds : Outline.Item → List Entity → Progress → List Entity → Progress → Prop where
  | text {items span} {s : Siblings} {p} :
      Adds (.text items span) s.done.reverse p (s.pushText items span).done.reverse p
  | tag {header children span before p tag syncs es entity q}
      (read : ReadsTag header span tag syncs) (content : body .nested children p es q)
      (synced : SyncedAs tag es syncs entity) :
      Adds (.tag header children span) before p (before ++ [entity]) q
  | component {header children span before p inclusion es q}
      (read : ReadsInclusion header span inclusion) (content : body .component children p es q) :
      Adds (.component header children span) before p
        (before ++ [.component inclusion (es.filterMap Entity.insertion? ++
          gathered (es.filter fun e => e.insertion?.isNone))]) q
  | conditional {d children span before p e es q}
      (read : d.read? = some (.conditional e)) (content : body .nested children p es q) :
      Adds (.directive d children span) before p (before ++ [.conditional e es [] none span]) q
  | elseIf {d children span before p condition first elseIfs start e es q}
      (read : d.read? = some (.elseIf e)) (content : body .nested children p es q) :
      Adds (.directive d children span) (before ++ [.conditional condition first elseIfs none start]) p
        (before ++ [.conditional condition first (elseIfs ++ [.mk e es]) none (start.merge span)]) q
  | otherwise {d children span before p condition first elseIfs start es q}
      (read : d.read? = some .otherwise) (content : body .nested children p es q) :
      Adds (.directive d children span) (before ++ [.conditional condition first elseIfs none start]) p
        (before ++ [.conditional condition first elseIfs (some es) (start.merge span)]) q
  | choice {d children span before p e} (read : d.read? = some (.choice e))
      (alone : Outline.isBlockless d.name = true) :
      Adds (.directive d children span) before p (before ++ [.choice e [] none span]) p
  | when {d children span before p value cases start patterns es q}
      (read : d.read? = some (.when patterns)) (content : body .nested children p es q) :
      Adds (.directive d children span) (before ++ [.choice value cases none start]) p
        (before ++ [.choice value (cases ++ [.mk patterns es span]) none (start.merge span)]) q
  | choiceDefault {d children span before p value cases start es q}
      (read : d.read? = some (.default false)) (content : body .nested children p es q) :
      Adds (.directive d children span) (before ++ [.choice value cases none start]) p
        (before ++ [.choice value cases (some es) (start.merge span)]) q
  | switch {d children span before p e} (read : d.read? = some (.switch e))
      (alone : Outline.isBlockless d.name = true) :
      Adds (.directive d children span) before p (before ++ [.switch e [] span]) p
  | case {d children span before p value cases start falls e es q}
      (read : d.read? = some (.case falls e)) (content : body .nested children p es q) :
      Adds (.directive d children span) (before ++ [.switch value cases start]) p
        (before ++ [.switch value (cases ++ [.mk (some e) es falls span]) (start.merge span)]) q
  | switchDefault {d children span before p value cases start falls es q}
      (read : d.read? = some (.default falls)) (first : cases.any (·.isDefault) = false)
      (content : body .nested children p es q) :
      Adds (.directive d children span) (before ++ [.switch value cases start]) p
        (before ++ [.switch value (cases ++ [.mk none es falls span]) (start.merge span)]) q
  | each {d children span before p loop es q}
      (read : d.read? = some (.each loop)) (content : body .nested children p es q) :
      Adds (.directive d children span) before p (before ++ [.each loop es span]) q
  | slot {d span before p name table decl}
      (read : d.read? = some (.slot name)) (declared : slots = some table)
      (found : table.find? name = some decl) :
      Adds (.directive d [] span) before p (before ++ [.slot name none span])
        { p with usedSlots := p.usedSlots ++ [name] }
  | fallbackSlot {d child children span before p name table decl es q}
      (read : d.read? = some (.slot name)) (declared : slots = some table)
      (found : table.find? name = some decl) (optional : decl.optional = true)
      (content : body .nested (child :: children) p es q) :
      Adds (.directive d (child :: children) span) before p
        (before ++ [.slot name (some es) span]) { q with usedSlots := q.usedSlots ++ [name] }
  | insertion {d children span before p name es q}
      (read : d.read? = some (.insertion name)) (inside : scope = .component)
      (content : body .nested children p es q) :
      Adds (.directive d children span) before p (before ++ [.insertion (.mk name es span)]) q
  | template {d children span before p name params es q}
      (read : d.read? = some (.template name params)) (top : scope = .root)
      (new : p.templates.contains name = false)
      (content : body .nested children { p with templates := p.templates ++ [name] } es q) :
      Adds (.directive d children span) before p (before ++ [.template name params es span]) q
  | templateUse {d children span before p name args} (read : d.read? = some (.templateUse name args))
      (alone : Outline.isBlockless d.name = true) :
      Adds (.directive d children span) before p (before ++ [.templateUse name args span])
        { p with includes := p.includes ++ [(name, span)] }

end

theorem closeChain_answers (s : Siblings) : Answers (closeChain s) ⟨s.entities.reverse, none⟩ [] := by
  obtain ⟨done, chain⟩ := s
  unfold closeChain
  split
  · exact (answers_pure _).eq (by simp_all [Siblings.entities])
  · exact (answers_pure _).eq (by simp_all [Siblings.entities, Chain.entity])
  · refine .warned_if ((answers_pure _).eq ?_)
    simp_all [Siblings.entities, Chain.entity]
  · refine .warned_if ((answers_pure _).eq ?_)
    simp_all [Siblings.entities, Chain.entity]

/-! ### Directives that pass -/

section

variable {slots : Option SlotTable} {scope : Scope} {body : Account} {d : Outline.Directive}
  {children : List Outline.Item} {span : Span} {before : List Entity} {inner : Check (List Entity)}

variable (slots scope body d children span) in
/-- What passes a step from chain to chain at a directive is what the directive adds. -/
abbrev Extends (step : Option Chain → Check (Option Chain)) : Prop :=
  ∀ done chain, Does (fun p next q =>
    Adds slots scope body (.directive d children span) (Siblings.entities ⟨done, chain⟩) p
    (Siblings.entities ⟨done, next⟩) q) (step chain)

variable (slots scope body d children span) in
/-- The check makes an entity, and that is what the directive adds. -/
abbrev Makes (check : Check (Option Entity)) : Prop :=
  ∀ before, Does (fun p result q => Adds slots scope body (.directive d children span) before p
    (Siblings.push? ⟨before.reverse, none⟩ result).entities q) check

variable (below : Does (body .nested children) inner)

include below

theorem continueElseIf_adds (named : d.name = "elseif") :
    Extends slots scope body d children span (continueElseIf d span inner) := by
  intro done chain
  unfold continueElseIf
  split
  · exact (requireExpr_fits d).next fun e => below.last fun content read =>
      .elseIf (Outline.Directive.read?_eq_some named read rfl) content
  · exact .refused
  · exact .refused

theorem continueOtherwise_adds (named : d.name = "else") :
    Extends slots scope body d children span (continueOtherwise d span inner) := by
  intro done chain
  unfold continueOtherwise
  split
  · exact (refuseArgument_fits d).next fun _ => below.last fun content absent =>
      .otherwise ((d.read?_of_named named).trans (if_pos absent)) content
  · exact .refused
  · exact .refused

theorem continueWhen_adds (named : d.name = "when") :
    Extends slots scope body d children span (continueWhen d span inner) := by
  intro done chain
  unfold continueWhen
  split
  · exact (patterns_fits d).next fun found => below.last fun content read =>
      .when (Outline.Directive.read?_eq_some named read rfl) content
  · exact .refused
  · exact .refused

theorem continueCase_adds {falls} (named : d.name = if falls then "fallcase" else "case") :
    Extends slots scope body d children span (continueCase falls d span inner) := by
  intro done chain
  unfold continueCase
  split
  · refine (requireExpr_fits d).next fun e => below.last fun content read => ?_
    have read : d.read? = some (.case falls e) := by
      rw [d.read?_of_named named]
      cases falls <;> exact congrArg (Option.map _) read
    exact .case read content
  · exact .refused

theorem switchDefault_adds {done falls value cases start}
    (reads : d.argument.isNone → d.read? = some (.default falls)) :
    Does (fun p next q => d.argument.isNone → Adds slots scope body (.directive d children span)
      (done.reverse ++ [.switch value cases start]) p (Siblings.entities ⟨done, next⟩) q)
      (switchDefault falls span inner value cases start) := by
  unfold switchDefault
  split
  · exact .refused
  · rename_i first
    exact below.last fun content absent => .switchDefault (reads absent) (Bool.not_eq_true _ ▸ first) content

theorem continueDefault_adds (named : d.name = "default") :
    Extends slots scope body d children span (continueDefault d span inner) := by
  intro done chain
  -- Whatever the chain, the argument is refused first.
  have reads (absent : d.argument.isNone) : d.read? = some (.default false) :=
    (d.read?_of_named named).trans (if_pos absent)
  unfold continueDefault
  split
  · exact (refuseArgument_fits d).next fun _ => below.last fun content absent => .choiceDefault (reads absent) content
  · exact (refuseArgument_fits d).next fun _ => .refused
  · exact (refuseArgument_fits d).next fun _ => switchDefault_adds below reads
  · exact (refuseArgument_fits d).next fun _ => .refused

theorem continueFallDefault_adds (named : d.name = "falldefault") :
    Extends slots scope body d children span (continueFallDefault d span inner) := by
  intro done chain
  unfold continueFallDefault
  split
  · exact (refuseArgument_fits d).next fun _ =>
      switchDefault_adds below fun absent => (d.read?_of_named named).trans (if_pos absent)
  · exact (refuseArgument_fits d).next fun _ => .refused

theorem continueChain_adds {k} (named : Continuation.ofName? d.name = some k) :
    Extends slots scope body d children span (continueChain k d span inner) := by
  unfold Continuation.ofName? at named
  cases k with
  | elseIf => exact continueElseIf_adds below (by grind)
  | otherwise => exact continueOtherwise_adds below (by grind)
  | when => exact continueWhen_adds below (by grind)
  | case => exact continueCase_adds below (by grind)
  | fallCase => exact continueCase_adds below (by grind)
  | default => exact continueDefault_adds below (by grind)
  | fallDefault => exact continueFallDefault_adds below (by grind)

theorem checkEach_adds (named : d.name = "each") : Makes slots scope body d children span (checkEach d span inner) := by
  intro before
  unfold checkEach
  split
  · exact .refused
  · rename_i argument given
    split
    · exact .refused
    · rename_i loop fits
      have read : d.loop? = some loop := by simp [Outline.Directive.loop?, given, fits, Except.toOption]
      refine below.last fun content => ?_
      rw [Siblings.entities_push]
      exact .each (Outline.Directive.read?_eq_some named read rfl) content

omit below in
theorem useSlot_does (name : String) (fallback : Option (List Entity)) :
    Does (fun p result q => ∃ table decl, slots = some table ∧ table.find? name = some decl ∧
      (fallback.isSome → decl.optional = true) ∧ result = some (.slot name fallback span) ∧
      q = { p with usedSlots := p.usedSlots ++ [name] }) (useSlot slots name fallback span) := by
  have shown {P : Progress → Option Entity → Progress → Prop}
      (holds : ∀ p : Progress, P p (some (.slot name fallback span)) { p with usedSlots := p.usedSlots ++ [name] }) :
      Does P (do
        modify fun p => { p with usedSlots := p.usedSlots ++ [name] }
        return some (.slot name fallback span)) :=
    .modified (fun _ _ => rfl) (.pure fun _ p same => same ▸ holds p)
  unfold useSlot
  split
  · exact .refused
  · split
    · exact .refused
    · rename_i table _ decl found
      dsimp only
      split
      · exact .error (shown fun _ => trivial : Does (fun _ _ _ => True) _)
      · rename_i allowed
        exact shown fun p => ⟨table, decl, rfl, found, by grind, rfl, rfl⟩

theorem checkSlot_adds (named : d.name = "slot") :
    Makes slots scope body d children span (checkSlot slots d span (!children.isEmpty) inner) := by
  intro before
  refine (slotName_finds d).next rfl fun name => ?_
  have reads (read : d.slot? = some name) : d.read? = some (.slot name) :=
    Outline.Directive.read?_eq_some named read rfl
  cases children with
  | nil =>
    refine (useSlot_does name none).mono ?_
    rintro p _ _ ⟨table, decl, declared, found, -, rfl, rfl⟩ read
    rw [Siblings.entities_push]
    exact .slot (reads read) declared found
  | cons child children =>
    refine (below.last (Q := fun p r q => ∃ es, body .nested (child :: children) p es q ∧ r = some es) fun content =>
      ⟨_, content, rfl⟩).bind fun fallback => (useSlot_does name fallback).mono ?_
    rintro p _ _ ⟨table, decl, declared, found, optional, rfl, rfl⟩ _ ⟨es, content, rfl⟩ read
    rw [Siblings.entities_push]
    exact .fallbackSlot (reads read) declared found (optional rfl) content

theorem checkInsertion_adds (named : d.name = "insert") :
    Makes slots scope body d children span (checkInsertion scope d span inner) := by
  intro before
  unfold checkInsertion
  split
  · exact .refused
  · rename_i inside
    refine (slotName_finds d).next rfl fun name => below.last fun content read => ?_
    rw [Siblings.entities_push]
    exact .insertion (Outline.Directive.read?_eq_some named read rfl) (Decidable.not_not.1 inside) content

theorem checkTemplate_adds (named : d.name = "template") :
    Makes slots scope body d children span (checkTemplate scope d span inner) := by
  intro before
  unfold checkTemplate
  split
  · exact .refused
  · rename_i top
    split
    · exact .refused
    · rename_i argument given
      refine (templateName_finds given).next rfl fun found => .got (fun _ _ => rfl) fun s => ?_
      split
      · exact .refused
      · rename_i new
        refine .modified (fun _ _ => rfl) (below.bind fun es => .warned_if (.pure ?_))
        rintro q p content s rfl rfl read
        rw [Siblings.entities_push]
        exact .template ((d.read?_of_named named).trans (congrArg (Option.map _) read)) (Decidable.not_not.1 top)
          (Bool.not_eq_true _ ▸ new) content

omit below in
theorem checkInclude_adds (named : d.name = "include") :
    Makes slots scope body d children span (checkInclude d span) := by
  intro before
  unfold checkInclude
  split
  · exact .refused
  · rename_i argument given
    refine (templateName_finds given).next rfl fun found => .modified (fun _ _ => rfl) (.pure ?_)
    rintro _ p rfl read
    rw [Siblings.entities_push]
    exact .templateUse ((d.read?_of_named named).trans (congrArg (Option.map _) read)) (by rw [named]; rfl)

theorem checkDirective_adds (before : List Entity) :
    Does (fun p t q => Adds slots scope body (.directive d children span) before p t.entities q)
      (checkDirective slots scope d span (!children.isEmpty) inner ⟨before.reverse, none⟩) := by
  unfold checkDirective
  split
  next named =>
    refine (requireExpr_fits d).next fun e => below.last fun content read => ?_
    simpa [Siblings.entities] using .conditional (Outline.Directive.read?_eq_some named read rfl) content
  split
  next named =>
    refine (requireExpr_fits d).next fun e => .pure fun _ read => ?_
    simpa [Siblings.entities] using .choice (Outline.Directive.read?_eq_some named read rfl) (by rw [named]; rfl)
  split
  next named =>
    refine (requireExpr_fits d).next fun e => .pure fun _ read => ?_
    simpa [Siblings.entities] using .switch (Outline.Directive.read?_eq_some named read rfl) (by rw [named]; rfl)
  split
  next named => exact (checkEach_adds below named before).last id
  split
  next named => exact (checkSlot_adds below named before).last id
  split
  next named => exact (checkInsertion_adds below named before).last id
  split
  next named => exact (checkTemplate_adds below named before).last id
  split
  next named => exact (checkInclude_adds named before).last id
  exact .refused

omit below in
theorem item_adds {i : Outline.Item}
    (below : ∀ scope, Does (body scope i.children) (siblings slots scope i.children {}))
    (s : Siblings) : Does (fun p t q => Adds slots scope body i s.entities p t.entities q) (item slots scope i s) := by
  cases i with
  | text items span =>
    unfold item
    refine (closeChain_answers s).next (.pure fun _ _ => ?_)
    rw [Siblings.entities_pushText]
    simpa using @Adds.text slots scope body items span ⟨s.entities.reverse, none⟩ _
  | tag header children span =>
    unfold item
    refine (closeChain_answers s).next ((checkTag_does (below .nested)).last ?_)
    rintro p _ q ⟨tag, syncs, es, entity, read, content, synced, rfl⟩ _
    rw [Siblings.entities_push]
    exact .tag read content synced
  | component header children span =>
    unfold item
    refine (closeChain_answers s).next ((checkInclusion_does (below .component)).last ?_)
    rintro p _ q ⟨inclusion, es, read, content, rfl⟩ _
    exact Siblings.entities_push s.entities _ ▸ .component read content
  | directive d children span =>
    unfold item
    split
    · rename_i k named
      exact (continueChain_adds (below .nested) named s.done s.chain).last id
    · exact (closeChain_answers s).next ((checkDirective_adds (below .nested) s.entities).mono fun added _ => added)

end

/-! ### Whole outlines -/

/-- `P` holds at the start of a list of items and is kept by every step through it. It relates the scope, the items so
far and the progress before them to what has come of them. -/
structure Kept (slots : Option SlotTable) (P : Account) :
    Prop where
  start : ∀ scope p, P scope [] p [] p
  step : ∀ {scope p before es q i es' r}, P scope before p es q → Adds slots scope P i es q es' r →
    P scope (before ++ [i]) p es' r

section

variable {slots : Option SlotTable} {P : Account}

mutual

theorem Kept.below (kept : Kept slots P) (i : Outline.Item) (scope : Scope) :
    Does (P scope i.children) (siblings slots scope i.children {}) := by
  match i with
  | .text .. => exact (closeChain_answers {}).next (.pure fun p _ => kept.start scope p)
  | .tag _ children _ | .component _ children _ | .directive _ children _ =>
    exact (kept.rest children {} []).mono fun holds => holds _ (kept.start scope _)

theorem Kept.rest (kept : Kept slots P) (items : List Outline.Item) {scope} (s : Siblings)
    (before : List Outline.Item) :
    Does (fun q es r => ∀ p, P scope before p s.entities q → P scope (before ++ items) p es r)
      (siblings slots scope items s) := by
  match items with
  | [] =>
    unfold siblings
    exact (closeChain_answers s).next (.pure fun _ _ _ sofar => by simpa using sofar)
  | i :: items =>
    unfold siblings
    refine (item_adds (kept.below i) s).bind fun t =>
      (kept.rest items t (before ++ [i])).mono fun holds q added p sofar => ?_
    rw [List.append_cons]
    exact holds p (kept.step sofar added)

end

theorem Kept.siblings (kept : Kept slots P) (scope : Scope) (items : List Outline.Item) :
    Does (P scope items) (siblings slots scope items {}) :=
  (kept.rest items {} []).mono fun holds => holds _ (kept.start scope _)

end

theorem checkIncludes_does (templates : List String) (uses : List (String × Span)) :
    Does (fun p _ q => p = q ∧ ∀ use ∈ uses, use.1 ∈ templates) (checkIncludes templates uses) := by
  induction uses with
  | nil => exact .pure fun _ => ⟨rfl, by simp⟩
  | cons use uses ih =>
    unfold checkIncludes
    dsimp only
    split
    · exact .error ih
    · rename_i known
      exact ih.mono fun rest => ⟨rest.1, List.forall_mem_cons.2 ⟨by simpa using known, rest.2⟩⟩

theorem checkSlotUses_does (used : List String) (table : SlotTable) :
    Does (fun p _ q => p = q ∧ ∀ decl ∈ table, decl.optional = false → decl.name ∈ used)
      (checkSlotUses used table) := by
  induction table with
  | nil => exact .pure fun _ => ⟨rfl, by simp⟩
  | cons decl table ih =>
    unfold checkSlotUses
    split
    · exact .error ih
    · rename_i known
      exact ih.mono fun rest =>
        ⟨rest.1, List.forall_mem_cons.2 ⟨fun required => by simpa [required] using known, rest.2⟩⟩

/-- The rules for the whole template, of what the check has noted. -/
structure Whole (slots : Option SlotTable) (p : Progress) : Prop where
  includes : ∀ use ∈ p.includes, use.1 ∈ p.templates
  slots : ∀ decl ∈ slots.getD [], decl.optional = false → decl.name ∈ p.usedSlots

theorem Kept.whole {slots} {P : Account} (kept : Kept slots P)
    (items : List Outline.Item) :
    Does (fun p es q => P .root items p es q ∧ Whole slots q) (do
      let entities ← Check.siblings slots .root items {}
      checkWhole slots
      return entities) := by
  refine (kept.siblings .root items).bind fun es => .bind (P := fun p _ q => p = q ∧ Whole slots p) ?_ fun _ => .pure ?_
  · refine .got (fun _ _ => rfl) fun s => (checkIncludes_does _ _).bind fun _ => (checkSlotUses_does _ _).mono ?_
    rintro _ _ _ ⟨rfl, used⟩ _ ⟨rfl, known⟩ rfl
    exact ⟨rfl, known, used⟩
  · rintro _ p ⟨rfl, whole⟩ _ holds
    exact ⟨holds, whole⟩

end Check

/-- Of the entities of an accepted outline holds what is kept through it, and the rules for the whole template hold of
what they have left behind. -/
theorem check_kept {items slots region log log' es} {P : Check.Account}
    (kept : Check.Kept slots P) (h : check items slots region log = (some es, log')) :
    ∃ q, P .root items { log } es q ∧ Check.Whole slots q := by
  obtain ⟨found, q, runs⟩ := (kept.whole items).frame { log }
  unfold check at h
  dsimp only at h
  rw [runs log] at h
  dsimp only at h
  split at h
  · cases h
  · rename_i clean
    rw [Log.errorCount_append] at clean
    have same : found = es := by
      split at h <;> exact Option.some.inj (congrArg Prod.fst h)
    exact ⟨{ q with log }, (kept.whole items).passes ⟨rfl, q.log, same ▸ runs log, Log.hasErrors_eq_false.2 (by omega)⟩⟩

theorem exists_accepted {α : Type} {source base slots region log} {f : List Outline.Item → List Entity → α} {a}
    (computed : ((Outline.parse source base).toOption.bind fun items =>
      (check items slots region log).1.map (f items)) = some a) :
    ∃ items es log', Outline.parse source base = .ok items ∧ check items slots region log = (some es, log') ∧
      f items es = a := by
  cases read : Outline.parse source base with
  | error e =>
    rw [read] at computed
    cases computed
  | ok items =>
    rw [read] at computed
    obtain ⟨es, accepted, same⟩ := Option.map_eq_some_iff.1 computed
    exact ⟨items, es, _, rfl, Prod.ext accepted rfl, same⟩

end ComponentCompiler.Template
