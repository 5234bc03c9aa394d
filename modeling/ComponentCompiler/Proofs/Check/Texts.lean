import ComponentCompiler.Proofs.Check.Closed
import ComponentCompiler.Proofs.Outline.Faithful

/-!
# Text in accepted templates

Lines of text that follow each other become one text: `accepted_texts_merged`.
-/

namespace ComponentCompiler.Template

namespace Fragment

/-- No fixed text is empty or stands beside another one. -/
structure Joined (items : List Fragment) : Prop where
  filled : .static "" ∉ items
  apart : items.IsChain fun a b => ¬ (a.isStatic = true ∧ b.isStatic = true)

section

variable {items more : List Fragment} {f : Fragment}

theorem append_ne_nil : append items f ≠ [] := by
  unfold append
  split <;> simp

theorem appendAll_ne_nil (given : items ≠ [] ∨ more ≠ []) : appendAll items more ≠ [] := by
  unfold appendAll
  induction more generalizing items with
  | nil => simpa using given
  | cons f more ih => exact ih (.inl append_ne_nil)

theorem Joined.nil : Joined [] := ⟨by simp, .nil⟩

theorem Joined.append (joined : Joined items) (filled : f ≠ .static "") : Joined (Fragment.append items f) := by
  unfold Fragment.append
  split
  · rename_i a b last
    obtain ⟨front, rfl⟩ := List.getLast?_eq_some_iff.1 last
    obtain ⟨apart, -, ending⟩ := List.isChain_append.1 joined.apart
    have ink : a ≠ "" := by
      rintro rfl
      exact joined.filled (by simp)
    rw [List.dropLast_concat]
    refine ⟨?_, List.isChain_append.2 ⟨apart, .singleton _, ?_⟩⟩
    · intro mem
      rcases List.mem_append.1 mem with early | late
      · exact joined.filled (List.mem_append_left _ early)
      · simp_all
    · intro x mem y same
      obtain rfl : Fragment.static (a ++ b) = y := by simpa using same
      exact ending x mem (.static a) rfl
  · rename_i f _ _ other
    refine ⟨?_, List.isChain_append.2 ⟨joined.apart, .singleton _, ?_⟩⟩
    · intro mem
      rcases List.mem_append.1 mem with early | late
      · exact joined.filled early
      · exact filled (List.mem_singleton.1 late).symm
    · rintro x mem y same ⟨first, second⟩
      obtain rfl : f = y := by simpa using same
      cases x with
      | static a =>
        cases f with
        | static b => exact other a b mem rfl
        | dynamic | reactive => cases second
      | dynamic | reactive => cases first

theorem Joined.appendAll (joined : Joined items) (filled : ∀ f ∈ more, f ≠ .static "") :
    Joined (Fragment.appendAll items more) := by
  unfold Fragment.appendAll
  induction more generalizing items with
  | nil => exact joined
  | cons f more ih =>
    obtain ⟨here, later⟩ := List.forall_mem_cons.1 filled
    exact ih (joined.append here) later

end

end Fragment

theorem Outline.IsTextLine.fragment {items} (line : Outline.IsTextLine items) :
    ∀ f ∈ items, f.Interpolates ∨ ∃ text, f = .static text ∧ text ≠ "" := by
  induction items with
  | nil => simp
  | cons f items ih =>
    cases f with
    | static text =>
      obtain ⟨some, -, -, rest⟩ := line
      refine List.forall_mem_cons.2 ⟨.inr ⟨text, rfl, ?_⟩, ih rest⟩
      rintro rfl
      exact some rfl
    | dynamic code | reactive code => exact List.forall_mem_cons.2 ⟨.inl line.1, ih line.2⟩

theorem Outline.IsTextLine.filled {items} (line : Outline.IsTextLine items) : ∀ f ∈ items, f ≠ .static "" := by
  rintro f mem rfl
  rcases line.fragment _ mem with code | ⟨text, same, some⟩
  · exact code
  · cases same
    exact some rfl

namespace Entity

def isText : Entity → Bool
  | .text .. => true
  | _ => false

def bodies : Entity → List (List Entity)
  | .tag _ body | .synced _ _ _ body | .each _ body _ | .template _ _ body _ => [body]
  | .component _ insertions => insertions.map Insertion.body
  | .conditional _ body elseIfs otherwise _ => body :: elseIfs.map ElseIf.body ++ otherwise.toList
  | .choice _ cases default _ => cases.map MatchCase.body ++ default.toList
  | .switch _ cases _ => cases.map SwitchCase.body
  | .slot _ fallback _ => fallback.toList
  | .insertion i => [i.body]
  | .text .. | .templateUse .. => []

theorem content_eq_flatten (e : Entity) : e.content = e.bodies.flatten := by
  cases e with
  | conditional condition body elseIfs otherwise span =>
    cases otherwise <;> simp [content, bodies, List.flatMap_def]
  | choice value cases default span =>
    cases default <;> simp [content, bodies, List.flatMap_def]
  | slot name fallback span => cases fallback <;> simp [content, bodies]
  | _ => simp [content, bodies, List.flatMap_def]

theorem occurs_content {x e : Entity} : Occurs x e.content ↔ ∃ body ∈ e.bodies, Occurs x body := by
  rw [content_eq_flatten, ← List.flatMap_id, occurs_flatMap]
  rfl

end Entity

def TextsApart (es : List Entity) : Prop := es.IsChain fun a b => ¬ (a.isText = true ∧ b.isText = true)

/-- Where two texts stand side by side, one of the insertions stands between them in the source. -/
def TextsParted (insertions : List Insertion) (es : List Entity) : Prop :=
  es.IsChain fun a b => a.isText = true ∧ b.isText = true →
    ∃ i ∈ insertions, a.span.stop ≤ i.span.start ∧ i.span.stop ≤ b.span.start

/-- A text has items and its fixed text is joined. All other entities have their texts apart in each list below them,
but for what a component gathers from around the insertions `written` below it. -/
def Entity.MergesText : Entity → Prop
  | .text items _ => items ≠ [] ∧ Fragment.Joined items
  | .component _ insertions =>
    ∃ written rest, insertions = written ++ gathered rest ∧ (∀ i ∈ written, TextsApart i.body) ∧
      TextsParted written rest
  | e => ∀ body ∈ e.bodies, TextsApart body

/-- Texts are merged in the list and in all that is below it. -/
structure TextsMerged (es : List Entity) : Prop where
  apart : TextsApart es
  inside : ∀ e, Occurs e es → e.MergesText

section

variable {x e e' : Entity} {es : List Entity}

def Entity.isFrame : Entity → Bool
  | .text .. | .component .. => false
  | _ => true

theorem Entity.mergesText_frame (frame : e.isFrame = true) : e.MergesText ↔ ∀ body ∈ e.bodies, TextsApart body := by
  cases e with
  | text | component => cases frame
  | _ => rfl

theorem frame_merged (frame : e.isFrame = true) :
    (∀ x, Occurs x [e] → x.MergesText) ↔ ∀ body ∈ e.bodies, TextsMerged body := by
  simp only [occurs_singleton]
  constructor
  · intro merged body mem
    refine ⟨(Entity.mergesText_frame frame).1 (merged e (.inl rfl)) body mem, ?_⟩
    intro x below
    exact merged x (.inr (Entity.occurs_content.2 ⟨body, mem, below⟩))
  · rintro merged x (rfl | below)
    · exact (Entity.mergesText_frame frame).2 fun body mem => (merged body mem).apart
    · obtain ⟨body, mem, below⟩ := Entity.occurs_content.1 below
      exact (merged body mem).inside x below

theorem Entity.isText_frame (frame : e.isFrame = true) : e.isText = false := by
  cases e with
  | text => cases frame
  | _ => rfl

end

/-- Texts are merged, and the entities stand one behind the other, none of them beyond all of the items. -/
structure Arranged (items : List Outline.Item) (es : List Entity) : Prop extends TextsMerged es where
  ordered : es.Pairwise fun a b => a.span.stop ≤ b.span.start
  within : ∀ e ∈ es, ∃ i ∈ items, e.span.stop ≤ i.span.stop

section

variable {before items : List Outline.Item} {i : Outline.Item} {es : List Entity} {e e' : Entity}

theorem Arranged.nil : Arranged [] [] where
  apart := .nil
  inside := by simp
  ordered := .nil
  within := by simp

theorem Arranged.more (sofar : Arranged before es) : Arranged (before ++ [i]) es where
  toTextsMerged := sofar.toTextsMerged
  ordered := sofar.ordered
  within := by
    intro e mem
    obtain ⟨j, item, bound⟩ := sofar.within e mem
    exact ⟨j, List.mem_append_left _ item, bound⟩

theorem Arranged.stop_le (sofar : Arranged before es) (behind : ∀ j ∈ before, j.span.stop ≤ i.span.start) :
    ∀ e ∈ es, e.span.stop ≤ i.span.start := by
  intro e mem
  obtain ⟨j, item, bound⟩ := sofar.within e mem
  have := behind j item
  omega

theorem Arranged.push (sofar : Arranged before es) (behind : ∀ j ∈ before, j.span.stop ≤ i.span.start)
    (span : e.span = i.span) (apart : ∀ a ∈ es.getLast?, ¬ (a.isText = true ∧ e.isText = true))
    (merged : ∀ x, Occurs x [e] → x.MergesText) : Arranged (before ++ [i]) (es ++ [e]) where
  apart := by
    refine List.isChain_append.2 ⟨sofar.apart, .singleton _, ?_⟩
    simpa using apart
  inside := by
    intro x occurs
    rcases occurs_append.1 occurs with early | late
    · exact sofar.inside x early
    · exact merged x late
  ordered := by
    refine List.pairwise_append.2 ⟨sofar.ordered, List.pairwise_singleton _ _, ?_⟩
    intro a mem b last
    rw [List.mem_singleton.1 last, span]
    exact sofar.stop_le behind a mem
  within := by
    refine List.forall_mem_append.2 ⟨sofar.more.within, List.forall_mem_singleton.2 ⟨i, by simp, ?_⟩⟩
    rw [span]

theorem Arranged.extend (sofar : Arranged before (es ++ [e])) (behind : ∀ j ∈ before, j.span.stop ≤ i.span.start)
    (span : e'.span = e.span.merge i.span) (kind : e'.isText = e.isText)
    (merged : ∀ x, Occurs x [e'] → x.MergesText) : Arranged (before ++ [i]) (es ++ [e']) where
  apart := by
    obtain ⟨front, -, last⟩ := List.isChain_append.1 sofar.apart
    refine List.isChain_append.2 ⟨front, .singleton _, ?_⟩
    simpa [kind] using last
  inside := by
    intro x occurs
    rcases occurs_append.1 occurs with early | late
    · exact sofar.inside x (occurs_append.2 (.inl early))
    · exact merged x late
  ordered := by
    obtain ⟨front, -, last⟩ := List.pairwise_append.1 sofar.ordered
    refine List.pairwise_append.2 ⟨front, List.pairwise_singleton _ _, ?_⟩
    intro a mem b final
    have first := last a mem e (by simp)
    have second := sofar.stop_le behind a (List.mem_append_left _ mem)
    rw [List.mem_singleton.1 final, span]
    simp only [Span.merge]
    omega
  within := by
    obtain ⟨front, last⟩ := List.forall_mem_append.1 sofar.more.within
    refine List.forall_mem_append.2 ⟨front, List.forall_mem_singleton.2 ?_⟩
    obtain ⟨j, item, bound⟩ := last e (by simp)
    rw [span]
    simp only [Span.merge]
    rcases Nat.le_total e.span.stop i.span.stop with shorter | longer
    · exact ⟨i, by simp, by omega⟩
    · exact ⟨j, item, by omega⟩

end

section

variable {x : Entity} {es : List Entity}

theorem TextsParted.mono {fewer more} (sub : fewer ⊆ more) (parted : TextsParted fewer es) : TextsParted more es := by
  refine List.IsChain.imp ?_ parted
  intro a b held texts
  obtain ⟨i, mem, between⟩ := held texts
  exact ⟨i, sub mem, between⟩

/-- Texts that come together when the insertions between them are taken out stand on both sides of one. -/
theorem texts_parted (apart : TextsApart es) (ordered : es.Pairwise fun a b => a.span.stop ≤ b.span.start) :
    TextsParted (es.filterMap Entity.insertion?) (es.filter fun e => e.insertion?.isNone) := by
  induction es with
  | nil => exact .nil
  | cons e es ih =>
    obtain ⟨next, rest⟩ := List.isChain_cons.1 apart
    obtain ⟨first, later⟩ := List.pairwise_cons.1 ordered
    have parted := ih rest later
    cases inserted : e.insertion? with
    | some i =>
      simp only [List.filterMap_cons_some inserted, List.filter_cons, inserted, Option.isNone_some]
      exact parted.mono (List.subset_cons_self _ _)
    | none =>
      simp only [List.filterMap_cons_none inserted, List.filter_cons, inserted, Option.isNone_none, if_true]
      refine List.isChain_cons.2 ⟨?_, parted⟩
      intro b head texts
      cases es with
      | nil => cases head
      | cons d es =>
        cases between : d.insertion? with
        | none =>
          obtain rfl : d = b := by simpa [List.filter_cons, between] using head
          exact absurd texts (next d rfl)
        | some i =>
          obtain rfl := Entity.eq_of_insertion? between
          have behind : b ∈ es := by
            have kept := List.mem_of_mem_head? head
            simp only [List.filter_cons, between, Option.isNone_some] at kept
            exact (List.mem_filter.1 kept).1
          refine ⟨i, by simp [Entity.insertion?], first (.insertion i) List.mem_cons_self, ?_⟩
          exact (List.pairwise_cons.1 later).1 b behind

theorem component_merged {c items} (content : Arranged items es) :
    ∀ x, Occurs x [.component c (es.filterMap Entity.insertion? ++ gathered (es.filter fun e => e.insertion?.isNone))] →
      x.MergesText := by
  intro x occurs
  rcases occurs_singleton.1 occurs with rfl | below
  · refine ⟨_, _, rfl, ?_, texts_parted content.apart content.ordered⟩
    intro i mem
    obtain ⟨e, inside, found⟩ := List.mem_filterMap.1 mem
    obtain rfl := Entity.eq_of_insertion? found
    exact content.inside _ (.here inside) i.body (by simp [Entity.bodies])
  · rcases occurs_grouped.1 below with ⟨mem, -⟩ | ⟨e, mem, deeper⟩
    · exact content.inside x (.here mem)
    · exact content.inside x (.inside mem deeper)

end

namespace Outline

/-- Well-formed items, all lines of which stand one behind the other. -/
structure Lined (items : List Item) : Prop where
  wellFormed : ∀ i ∈ items, i.WellFormed
  ordered : (preorder items).Pairwise fun i j => i.span.stop ≤ j.span.start

section

variable {before items : List Item} {i : Item}

theorem Lined.front (lined : Lined (before ++ [i])) : Lined before where
  wellFormed := (List.forall_mem_append.1 lined.wellFormed).1
  ordered := by
    have ordered := lined.ordered
    rw [preorder_concat] at ordered
    exact (List.pairwise_append.1 ordered).1

theorem Lined.last (lined : Lined (before ++ [i])) : i.WellFormed := lined.wellFormed i (by simp)

theorem Lined.behind (lined : Lined (before ++ [i])) : ∀ j ∈ before, j.span.stop ≤ i.span.start := by
  have ordered := lined.ordered
  rw [preorder_concat] at ordered
  intro j mem
  exact (List.pairwise_append.1 ordered).2.2 j (mem_preorder mem) i List.mem_cons_self

theorem Lined.below (lined : Lined (before ++ [i])) : Lined i.children where
  wellFormed := by
    cases lined.last with
    | tag line below | component line below | directive line below => exact below
    | text line => simp [Item.children]
  ordered := by
    have ordered := lined.ordered
    rw [preorder_concat] at ordered
    exact (List.pairwise_cons.1 (List.pairwise_append.1 ordered).2.1).2

theorem parse_lined {source : String} {base : Nat} (read : parse source base = .ok items) : Lined items where
  wellFormed := parse_wellFormed read
  ordered := by
    obtain ⟨d, listed⟩ := listed_of_parse read
    exact listed.pairwise

end

end Outline

theorem lined_induction {slots} {P : List Outline.Item → List Entity → Prop} (start : P [] [])
    (step : ∀ {scope before i es es' p q}, P before es → Outline.Lined (before ++ [i]) →
      Check.Adds slots scope (fun _ items _ es _ => Outline.Lined items → P items es) i es p es' q →
        P (before ++ [i]) es')
    {items region log log' es} (lined : Outline.Lined items)
    (accepted : check items slots region log = (some es, log')) :
    P items es := by
  have kept : Check.Kept slots fun _ items _ es _ => Outline.Lined items → P items es :=
    ⟨fun _ _ _ => start, fun sofar adds lined => step (sofar lined.front) lined adds⟩
  obtain ⟨_, holds, -⟩ := check_kept kept accepted
  exact holds lined

theorem Arranged.text {before} {s : Siblings} {items span} (sofar : Arranged before s.done.reverse)
    (lined : Outline.Lined (before ++ [.text items span])) :
    Arranged (before ++ [.text items span]) (s.pushText items span).done.reverse := by
  have behind := lined.behind
  have filled : ∀ f ∈ items, f ≠ .static "" := by
    cases lined.last with
    | text line => exact line.filled
  have text {items : List Fragment} {span : Span} (given : items ≠ []) (joined : Fragment.Joined items) :
      ∀ x, Occurs x [.text items span] → x.MergesText := by
    intro x occurs
    rcases occurs_singleton.1 occurs with rfl | below
    · exact ⟨given, joined⟩
    · exact absurd below occurs_nil
  unfold Siblings.pushText
  split
  · exact sofar.more
  · rename_i unempty
    have given : items ≠ [] := by simpa using unempty
    split
    · rename_i before start done last
      rw [last, List.reverse_cons] at sofar
      rw [List.reverse_cons]
      have merged : (Entity.text before start).MergesText := sofar.inside _ (.here (by simp))
      refine sofar.extend behind rfl rfl (text (Fragment.appendAll_ne_nil (.inr given)) ?_)
      exact (merged.2.append (by decide)).appendAll filled
    · rename_i other
      rw [List.reverse_cons]
      refine sofar.push behind rfl ?_
        (text (Fragment.appendAll_ne_nil (.inr given)) (Fragment.Joined.nil.appendAll filled))
      rintro a last ⟨isText, -⟩
      cases a with
      | text earlier start =>
        rw [List.getLast?_reverse] at last
        obtain ⟨done, same⟩ := List.head?_eq_some_iff.1 last
        exact other _ _ _ same
      | _ => cases isText

theorem Check.ReadsTag.span {header span tag syncs} (read : Check.ReadsTag header span tag syncs) :
    tag.span = span := by
  obtain ⟨id, found, -, -, same⟩ := read
  exact congrArg (fun d : TagDraft => d.tag.span) same

theorem adds_arranged {slots scope before i es es' p q} (sofar : Arranged before es)
    (lined : Outline.Lined (before ++ [i]))
    (h : Check.Adds slots scope (fun _ items _ es _ => Outline.Lined items → Arranged items es) i es p es' q) :
    Arranged (before ++ [i]) es' := by
  have behind := lined.behind
  have below := lined.below
  have frames {e : Entity} (span : e.span = i.span) (frame : e.isFrame = true)
      (bodies : ∀ body ∈ e.bodies, TextsMerged body) : Arranged (before ++ [i]) (es ++ [e]) :=
    sofar.push behind span (by simp [Entity.isText_frame frame]) ((frame_merged frame).2 bodies)
  -- A chain that goes on has one more list below it.
  have continues {a inner : List Entity} {e e' : Entity} (sofar : Arranged before (a ++ [e]))
    (content : TextsMerged inner)
      (frame : e.isFrame = true) (frame' : e'.isFrame = true) (span : e'.span = e.span.merge i.span)
      (bodies : e'.bodies = e.bodies ++ [inner]) : Arranged (before ++ [i]) (a ++ [e']) := by
    refine sofar.extend behind span ?_ ((frame_merged frame').2 ?_)
    · rw [Entity.isText_frame frame', Entity.isText_frame frame]
    · rw [bodies]
      refine List.forall_mem_append.2 ⟨(frame_merged frame).1 ?_, List.forall_mem_singleton.2 content⟩
      exact fun x occurs => sofar.inside x (occurs_append.2 (.inr occurs))
  cases h with
  | text => exact sofar.text lined
  | tag read content synced =>
    have merged := (content below).toTextsMerged
    cases synced with
    | plain | synced => exact frames read.span rfl (List.forall_mem_singleton.2 merged)
  | component read content =>
    obtain ⟨found, -, -, -, rfl⟩ := read
    exact sofar.push behind rfl (by simp [Entity.isText]) (component_merged (content below))
  | conditional read content | each read content | insertion read inside content | template read top new content
  | fallbackSlot read declared found optional content =>
    exact frames rfl rfl (List.forall_mem_singleton.2 (content below).toTextsMerged)
  | choice | switch | slot | templateUse => exact frames rfl rfl (by simp [Entity.bodies])
  | elseIf read content =>
    exact continues sofar (content below).toTextsMerged rfl rfl rfl (by simp [Entity.bodies, ElseIf.body])
  | when read content =>
    exact continues sofar (content below).toTextsMerged rfl rfl rfl (by simp [Entity.bodies, MatchCase.body])
  | otherwise read content | choiceDefault read content =>
    exact continues sofar (content below).toTextsMerged rfl rfl rfl (by simp [Entity.bodies])
  | case read content | switchDefault read first content =>
    exact continues sofar (content below).toTextsMerged rfl rfl rfl (by simp [Entity.bodies, SwitchCase.body])

/-- In the entities of an accepted template no list has two texts side by side, save where a component gathers them
from both sides of an insertion, and every text has items, in which fixed text is joined and never empty. -/
theorem accepted_texts_merged {source : String} {base : Nat} {items : List Outline.Item} {slots : Option SlotTable}
    {region : Span} {log log' : Log} {es : List Entity} (read : Outline.parse source base = .ok items)
    (accepted : check items slots region log = (some es, log')) : TextsMerged es := by
  have arranged : Arranged items es := lined_induction .nil adds_arranged (Outline.parse_lined read) accepted
  exact arranged.toTextsMerged

/-- Two lines in front of an insertion become one text, which then comes beside the one behind it. -/
theorem texts_merged_around_insertion :
    let source := "Card\n    | a\n    | b\n    @insert(x)\n        p\n    | c \x7b\x7b d \x7d\x7d\n"
    ∃ items es log, Outline.parse source 0 = .ok items ∧ check items none ⟨0, 0⟩ [] = (some es, log) ∧
      (es.map fun e => e.bodies.map (List.map Entity.isText)) = [[[false], [true, true]]] ∧ TextsMerged es := by
  intro source
  have computed : ((Outline.parse source 0).toOption.bind fun items => (check items none ⟨0, 0⟩ []).1.map fun es =>
      es.map fun e => e.bodies.map (List.map Entity.isText)) = some [[[false], [true, true]]] := by
    decide +kernel
  obtain ⟨items, es, log, read, accepted, shape⟩ := exists_accepted computed
  exact ⟨items, es, log, read, accepted, shape, accepted_texts_merged read accepted⟩

/-- Two texts stand side by side where a component gathers them from both sides of an insertion. -/
theorem gathered_texts_unmerged :
    let source := "Card\n    | a\n    @insert(x)\n        p\n    | b\n"
    ∃ items es log, Outline.parse source 0 = .ok items ∧ check items none ⟨0, 0⟩ [] = (some es, log) ∧
      ∃ e, Occurs e es ∧ ∃ body ∈ e.bodies, ¬ TextsApart body := by
  intro source
  have computed : ((Outline.parse source 0).toOption.bind fun items => (check items none ⟨0, 0⟩ []).1.map fun es =>
      es.map fun e => e.bodies.map (List.map Entity.isText)) = some [[[false], [true, true]]] := by
    decide +kernel
  obtain ⟨items, es, log, read, accepted, shape⟩ := exists_accepted computed
  obtain ⟨e, rfl, bodies⟩ := List.map_eq_singleton_iff.1 shape
  have beside : [true, true] ∈ e.bodies.map (List.map Entity.isText) := by
    rw [bodies]
    simp
  obtain ⟨body, mem, texts⟩ := List.mem_map.1 beside
  refine ⟨items, [e], log, read, accepted, e, .here (by simp), body, mem, ?_⟩
  intro apart
  obtain ⟨a, rest, rfl, first, others⟩ := List.map_eq_cons_iff.1 texts
  obtain ⟨b, rfl, second⟩ := List.map_eq_singleton_iff.1 others
  exact (List.isChain_cons_cons.1 apart).1 ⟨first, second⟩

end ComponentCompiler.Template
