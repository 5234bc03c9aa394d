import ComponentCompiler.Proofs.Check.Inclusion
import ComponentCompiler.Proofs.Check.Passing

/-!
# Headers that pass

A tag or a component use that passes holds what its header reads as.
-/

namespace ComponentCompiler.Template

namespace Outline.Shorthand

@[simp] def id? : Outline.Shorthand → Option String
  | .id name _ => some name
  | .className .. => none

@[simp] def class? : Outline.Shorthand → Option Fragment
  | .id .. => none
  | .className fragment _ => some fragment

end Outline.Shorthand

def TagDraft.sorted (tag : Tag) (read : List Attribute) : TagDraft :=
  { tag := { tag with
      bindings := read.filterMap Attribute.binding?
      listeners := Listener.group (read.filterMap Attribute.event?)
      receivers := read.filterMap Attribute.receiver? }
    syncs := read.filterMap Attribute.sync? }

namespace Check

def ReadsTag (header : Outline.Header) (span : Span) (tag : Tag) (syncs : List Sync) : Prop :=
  ∃ (id : Option String) (read : List Attribute),
    header.attributes.mapM Outline.Attribute.read? = some read ∧
    id.toList = header.shorthands.filterMap Outline.Shorthand.id? ∧
    ⟨tag, syncs, false⟩ = TagDraft.sorted
      { name := header.name, id, classes := header.shorthands.filterMap Outline.Shorthand.class?, span } read

theorem addShorthand_does (d : TagDraft) (s : Outline.Shorthand) :
    Does (fun p e q => p = q ∧ e.tag.id.toList = d.tag.id.toList ++ s.id?.toList ∧
      e = { d with tag := { d.tag with id := e.tag.id, classes := d.tag.classes ++ s.class?.toList } })
      (addShorthand d s) := by
  cases s with
  | id name span =>
    simp only [addShorthand]
    split
    · exact .refused
    · exact .pure fun _ => by simp_all
  | className fragment span => exact .pure fun _ => by simp

theorem addBinding_does (d : TagDraft) (b : Binding) :
    Does (fun p e q => p = q ∧ e = { d with tag := { d.tag with bindings := d.tag.bindings ++ [b] } })
      (addBinding d b) := by
  unfold addBinding
  dsimp only
  split
  · exact .refused
  · split
    · exact .refused
    · split
      · exact .warned (.pure fun _ => ⟨rfl, rfl⟩)
      · exact .pure fun _ => ⟨rfl, rfl⟩

theorem addAttribute_does (d : TagDraft) (a : Outline.Attribute) :
    Does (fun p e q => p = q ∧ ∃ next, a.read? = some next ∧
      ∀ tag read, d = TagDraft.sorted tag read → e = TagDraft.sorted tag (read ++ [next])) (addAttribute d a) := by
  refine (checkAttribute_finds a).next rfl fun next => ?_
  cases next with
  | binding b =>
    refine (addBinding_does d b).mono fun added read => ⟨added.1, _, read, ?_⟩
    rintro tag before rfl
    simp [added.2, TagDraft.sorted, List.filterMap_cons]
  | event name handler =>
    refine .pure fun _ read => ⟨rfl, _, read, ?_⟩
    rintro tag before rfl
    simp [TagDraft.sorted, List.filterMap_cons, Listener.group_append]
  | sync | receiver =>
    refine .pure fun _ read => ⟨rfl, _, read, ?_⟩
    rintro tag before rfl
    simp [TagDraft.sorted, List.filterMap_cons]

theorem shorthands_does (name : String) (span : Span) (shorthands : List Outline.Shorthand) :
    Does (fun p d q => p = q ∧ ∃ id : Option String, id.toList = shorthands.filterMap Outline.Shorthand.id? ∧
      d = { tag := { name, id, classes := shorthands.filterMap Outline.Shorthand.class?, span } })
      (shorthands.foldlM addShorthand { tag := { name, span } }) := by
  refine does_foldlM (fun before d => ∃ id : Option String, id.toList = before.filterMap Outline.Shorthand.id? ∧
    d = { tag := { name, id, classes := before.filterMap Outline.Shorthand.class?, span } })
    (fun before d s => (addShorthand_does d s).mono ?_) shorthands ⟨none, rfl, rfl⟩
  rintro p e q ⟨same, now, rest⟩ ⟨id, ids, rfl⟩
  refine ⟨same, e.tag.id, ?_, ?_⟩
  · rw [now, List.filterMap_append, ← ids]
    cases s <;> rfl
  · rw [rest, List.filterMap_append]
    cases s <;> rfl

theorem attributes_does (d : TagDraft) (attributes : List Outline.Attribute) :
    Does (fun p e q => p = q ∧ ∃ read, attributes.mapM Outline.Attribute.read? = some read ∧
      ∀ tag, d = TagDraft.sorted tag [] → e = TagDraft.sorted tag read) (attributes.foldlM addAttribute d) := by
  refine does_foldlM (fun before e => ∃ read, before.mapM Outline.Attribute.read? = some read ∧
    ∀ tag, d = TagDraft.sorted tag [] → e = TagDraft.sorted tag read)
    (fun before d a => (addAttribute_does d a).mono ?_) attributes ⟨[], rfl, fun _ same => same⟩
  rintro p e q ⟨same, next, one, added⟩ ⟨read, whole, sorted⟩
  exact ⟨same, read ++ [next], by simp [List.mapM_append, whole, one],
    fun tag start => added tag read (sorted tag start)⟩

/-- A tag with at most one sync is synced by it. -/
inductive SyncedAs (tag : Tag) (body : List Entity) : List Sync → Entity → Prop where
  | plain : SyncedAs tag body [] (.tag tag body)
  | synced (kind : SyncKind) (sync : Sync) : SyncedAs tag body [sync] (.synced kind sync tag body)

theorem extraSyncs_does (syncs : List Sync) : Does (fun _ _ _ => syncs = []) (extraSyncs syncs) := by
  induction syncs with
  | nil => exact .pure fun _ => rfl
  | cons sync syncs ih => exact .error ih

theorem synced_does (tag : Tag) (body : List Entity) (syncs : List Sync) :
    Does (fun p result q => p = q ∧ ∃ entity, SyncedAs tag body syncs entity ∧ result = some entity)
      (synced tag body syncs) := by
  unfold synced
  split
  · exact .pure fun _ => ⟨rfl, _, .plain, rfl⟩
  · exact (soleSync_finds tag _).next rfl fun kind => .pure fun _ _ => ⟨rfl, _, .synced kind _, rfl⟩
  · rename_i extra many
    exact (extraSyncs_does extra).bind fun _ => .pure fun _ _ none => (many none).elim

theorem checkTag_does {header span body} {B : Progress → List Entity → Progress → Prop} (below : Does B body) :
    Does (fun p result q => ∃ tag syncs es entity, ReadsTag header span tag syncs ∧ B p es q ∧
      SyncedAs tag es syncs entity ∧ result = some entity) (checkTag header span body) := by
  refine (shorthands_does header.name span header.shorthands).bind fun d =>
    (attributes_does d header.attributes).bind fun e => below.bind fun es => .warned_if ?_
  refine (synced_does e.tag es e.syncs).last ?_
  rintro p _ _ ⟨rfl, entity, synced, rfl⟩ _ content _ ⟨rfl, read, whole, sorted⟩ _ ⟨rfl, id, ids, rfl⟩
  obtain rfl :=
    sorted { name := header.name, id, classes := header.shorthands.filterMap Outline.Shorthand.class?, span } rfl
  exact ⟨_, _, es, entity, ⟨id, read, whole, ids, rfl⟩, content, synced, rfl⟩

def ReadsInclusion (header : Outline.Header) (span : Span) (inclusion : Inclusion) : Prop :=
  ∃ read, header.attributes.mapM Outline.Attribute.read? = some read ∧ header.shorthands = [] ∧
    read.filterMap Attribute.receiver? = [] ∧ inclusion = sortedInclusion header.name span read

theorem mapM_of_length {attributes : List Outline.Attribute}
    (all : (attributes.filterMap passed?).length = attributes.length) :
    attributes.mapM Outline.Attribute.read? = some (attributes.filterMap passed?) := by
  induction attributes with
  | nil => rfl
  | cons a rest ih =>
    have bound := List.length_filterMap_le passed? rest
    cases given : passed? a with
    | none =>
      rw [List.filterMap_cons_none given, List.length_cons] at all
      omega
    | some next =>
      have read : a.read? = some next := by
        unfold passed? at given
        split at given
        · cases given
        · exact given
      rw [List.filterMap_cons_some given] at all ⊢
      simp [List.mapM_cons, read, ih (Nat.succ.inj all)]

theorem passAll_does (name : String) (span : Span) (attributes : List Outline.Attribute) :
    Does (fun p i q => p = q ∧ ∃ read, attributes.mapM Outline.Attribute.read? = some read ∧
      read.filterMap Attribute.receiver? = [] ∧ i = sortedInclusion name span read)
      (attributes.foldlM passAttribute { name, span }) := by
  obtain ⟨rules, answers, count⟩ := passAll_answers name span attributes
  refine answers.does fun none _ => ⟨rfl, ?_⟩
  -- Nothing was left out on the way.
  have part := (keeps_stored (attributes.filterMap passed?)).part
  have whole := List.length_filterMap_le passed? attributes
  have all := part.eq_of_length_le (by simp only [none, List.length_nil] at count; omega)
  rw [none, all] at count
  refine ⟨_, mapM_of_length count, ?_, by rw [all]⟩
  exact List.filterMap_eq_nil_iff.2 fun a mem => plain_stored (by rwa [all])

theorem refuseShorthands_does (name : String) (shorthands : List Outline.Shorthand) :
    Does (fun p _ q => p = q ∧ shorthands = []) (refuseShorthands name shorthands) := by
  induction shorthands with
  | nil => exact .pure fun _ => ⟨rfl, rfl⟩
  | cons s rest ih => exact .error ih

end Check

def Entity.insertion? : Entity → Option Insertion
  | .insertion i => some i
  | _ => none

/-- What fills the default slot: all content outside insertions, if there is any. -/
def gathered : List Entity → List Insertion
  | [] => []
  | first :: others =>
    [.mk defaultSlot (first :: others) (others.foldl (fun span e => span.merge e.span) first.span)]

namespace Check

theorem sortContent_does (insertions : List Insertion) (rest entities : List Entity) :
    Does (fun p sorted q => p = q ∧ sorted = (insertions ++ entities.filterMap Entity.insertion?,
      rest ++ entities.filter fun e => e.insertion?.isNone)) (sortContent insertions rest entities) := by
  induction entities generalizing insertions rest with
  | nil => exact .pure fun _ => by simp
  | cons e entities ih =>
    cases e with
    | insertion i =>
      unfold sortContent
      split
      · exact .error (ih insertions rest)
      · exact (ih _ rest).mono fun sorted => ⟨sorted.1, by simp [sorted.2, Entity.insertion?]⟩
    | _ =>
      exact (ih insertions _).mono fun sorted => ⟨sorted.1, by simp [sorted.2, Entity.insertion?, List.filterMap_cons]⟩

theorem groupInsertions_does (entities : List Entity) :
    Does (fun p insertions q => p = q ∧ insertions = entities.filterMap Entity.insertion? ++
      gathered (entities.filter fun e => e.insertion?.isNone)) (groupInsertions entities) := by
  refine (sortContent_does [] [] entities).bind fun sorted => ?_
  obtain ⟨insertions, rest⟩ := sorted
  refine Does.mono (P := fun p found q => p = q ∧ found = insertions ++ gathered rest) ?_ ?_
  · cases rest with
    | nil => exact .pure fun _ => ⟨rfl, (List.append_nil _).symm⟩
    | cons first others =>
      dsimp only
      split
      · exact .refused
      · exact .pure fun _ => ⟨rfl, rfl⟩
  · rintro p _ q ⟨rfl, rfl⟩ _ ⟨rfl, same⟩
    cases same
    exact ⟨rfl, rfl⟩

theorem checkInclusion_does {header span body} {B : Progress → List Entity → Progress → Prop} (below : Does B body) :
    Does (fun p entity q => ∃ inclusion es, ReadsInclusion header span inclusion ∧ B p es q ∧
      entity = .component inclusion (es.filterMap Entity.insertion? ++
        gathered (es.filter fun e => e.insertion?.isNone))) (checkInclusion header span body) := by
  refine (refuseShorthands_does header.name header.shorthands).bind fun _ =>
    (passAll_does header.name span header.attributes).bind fun inclusion => below.bind fun es =>
      (groupInsertions_does es).last ?_
  rintro p _ _ ⟨rfl, rfl⟩ _ content _ ⟨rfl, read, whole, alone, rfl⟩ _ ⟨rfl, plain⟩
  exact ⟨_, es, ⟨read, whole, plain, alone, rfl⟩, content, rfl⟩

end Check

end ComponentCompiler.Template
