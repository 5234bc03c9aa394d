import ComponentCompiler.Proofs.Outline.Faithful
import ComponentCompiler.Proofs.Respan.Template

/-!
# Where the spans of diagnostics come from

Two changes of spans that agree on what a stage is given agree on what it reports. Main statements: `inspect_within`
and `parse_within`.
-/

namespace ComponentCompiler

open Text

def Span.keep (kept : List Span) (s : Span) : Span := if s ∈ kept then s else s.shift 1

theorem Span.keep_eq_self {kept} {s : Span} : s.keep kept = s ↔ s ∈ kept := by
  unfold Span.keep
  split
  · simp [*]
  · have moved : s.shift 1 ≠ s := fun same => Nat.succ_ne_self s.start (congrArg Span.start same)
    simp [*]

theorem Diagnostic.agree {f g : Span → Span} {d : Diagnostic} {s} (here : d.region = .span s)
    (same : d.respan f = d.respan g) : f s = g s := by
  have regions := congrArg Diagnostic.region same
  simp only [Diagnostic.respan, here, Region.respan] at regions
  exact Region.span.inj regions

namespace Script

theorem contractOf_spans (items : List Item) :
    (∀ s ∈ (contractOf items []).2.spans, s ∈ spans items) ∧
      ∀ decl ∈ (contractOf items []).1.slots.getD [], decl.span ∈ spans items := by
  have kept : items.map (Item.respan (Span.keep (spans items))) = items :=
    map_respan_fixed fun s mem => Span.keep_eq_self.2 mem
  have moved := contractOf_respan items [] (Span.keep (spans items))
  rw [kept] at moved
  generalize contractOf items [] = found at moved ⊢
  obtain ⟨⟨_, _, _, _, slots, _⟩, log⟩ := found
  obtain ⟨contract, log⟩ := Prod.mk.inj moved
  refine ⟨fun s mem => ?_, fun decl mem => ?_⟩
  · obtain ⟨d, reported, here⟩ := Log.mem_spans.1 mem
    have same := List.map_inj_left.1 (log.symm.trans (List.map_id _).symm) d reported
    exact Span.keep_eq_self.1 (Diagnostic.agree here (same.trans (Diagnostic.respan_id d).symm))
  · have table := congrArg Contract.slots contract
    cases slots with
    | none => cases mem
    | some list =>
      have same := List.map_inj_left.1 ((Option.some.inj table).symm.trans (List.map_id _).symm) decl mem
      exact Span.keep_eq_self.1 (congrArg SlotDecl.span same)

theorem inspect_within (text : String) (base : Nat) :
    (∀ s ∈ (inspect text base []).2.spans, s.Within ⟨base, base + byteLength text.toList⟩) ∧
      ∀ decl ∈ (inspect text base []).1.slots.getD [], decl.span.Within ⟨base, base + byteLength text.toList⟩ := by
  unfold inspect
  cases parsed : parse text base with
  | none =>
    refine ⟨fun s mem => ?_, fun decl mem => by cases mem⟩
    obtain ⟨d, reported, here⟩ := Log.mem_spans.1 mem
    cases List.mem_singleton.1 reported
    cases here
    exact ⟨Nat.le_refl _, Nat.le_add_right _ _, Nat.le_refl _⟩
  | some items =>
    have inside : ∀ s ∈ spans items, s.Within ⟨base, base + byteLength text.toList⟩ := fun s mem =>
      ((parse_placed parsed).reached s mem).inText.within
    obtain ⟨reported, declared⟩ := contractOf_spans items
    exact ⟨fun s mem => inside s (reported s mem), fun decl mem => inside _ (declared decl mem)⟩

end Script

namespace Template

namespace Outline

section

variable {f g : Span → Span}

theorem Code.respan_congr {c : Code} (same : f c.span = g c.span) : c.respan f = c.respan g :=
  congrArg (fun s => { c with span := s }) same

theorem Fragment.respan_congr {i} (same : ∀ k ∈ marksOfFragment i, f k.span = g k.span) :
    i.respan f = i.respan g := by
  cases i with
  | static text => rfl
  | dynamic code => exact congrArg Fragment.dynamic (Code.respan_congr (same _ (List.mem_singleton.2 rfl)))
  | reactive code => exact congrArg Fragment.reactive (Code.respan_congr (same _ (List.mem_singleton.2 rfl)))

theorem Shorthand.respan_congr {s : Shorthand} (same : ∀ k ∈ s.marked, f k.span = g k.span) :
    s.respan f = s.respan g := by
  cases s with
  | id name span => exact congrArg (Shorthand.id name) (same _ (List.mem_singleton.2 rfl))
  | className fragment span =>
    obtain ⟨here, inner⟩ := List.forall_mem_cons.1 same
    rw [Shorthand.respan, Shorthand.respan, Fragment.respan_congr inner]
    exact congrArg (Shorthand.className _) here

theorem Attribute.respan_congr {a : Attribute} (same : ∀ k ∈ a.marked, f k.span = g k.span) :
    a.respan f = a.respan g := by
  obtain ⟨sigil, name, modifiers, value, span⟩ := a
  obtain ⟨first, values⟩ := List.forall_mem_append.1 same
  obtain ⟨here, places⟩ := List.forall_mem_cons.1 first
  have modifiers : modifiers.map (fun m => (m.1, f m.2)) = modifiers.map fun m => (m.1, g m.2) :=
    List.map_congr_left fun m mem => congrArg (Prod.mk m.1) (places _ (List.mem_map.2 ⟨m, mem, rfl⟩))
  have value : value.map (Value.respan f) = value.map (Value.respan g) := by
    refine Option.map_congr fun v mem => ?_
    have inner := values _ (List.mem_map.2 ⟨v, Option.mem_toList.2 mem, rfl⟩)
    cases v with
    | text content s => exact congrArg (Value.text content) inner
    | code c => exact congrArg Value.code (Code.respan_congr inner)
  simp only [Attribute.respan, modifiers, value]
  exact congrArg _ here

theorem Header.respan_congr {h : Header} (same : ∀ k ∈ h.marked, f k.span = g k.span) : h.respan f = h.respan g := by
  obtain ⟨shorthands, attributes⟩ := List.forall_mem_append.1 same
  have first : h.shorthands.map (Shorthand.respan f) = h.shorthands.map (Shorthand.respan g) :=
    List.map_congr_left fun s mem =>
      Shorthand.respan_congr fun k inner => shorthands k (List.mem_flatMap.2 ⟨s, mem, inner⟩)
  have second : h.attributes.map (Attribute.respan f) = h.attributes.map (Attribute.respan g) :=
    List.map_congr_left fun a mem =>
      Attribute.respan_congr fun k inner => attributes k (List.mem_flatMap.2 ⟨a, mem, inner⟩)
  rw [Header.respan, Header.respan, first, second]

theorem Directive.respan_congr {d : Directive} (same : ∀ k ∈ d.marked, f k.span = g k.span) :
    d.respan f = d.respan g := by
  obtain ⟨name, nameSpan, argument⟩ := d
  obtain ⟨here, inner⟩ := List.forall_mem_cons.1 same
  have argument : argument.map (Code.respan f) = argument.map (Code.respan g) := by
    refine Option.map_congr fun c mem => Code.respan_congr (inner (.code c) ?_)
    exact List.mem_map.2 ⟨c, Option.mem_toList.2 mem, rfl⟩
  simp only [Directive.respan, argument]
  exact congrArg (Directive.mk name · _) here

/-- The two changes agree on the line of an item. -/
def Agree (f g : Span → Span) (i : Item) : Prop := f i.span = g i.span ∧ ∀ k ∈ i.marked, f k.span = g k.span

mutual

theorem Item.respan_congr (i : Item) (same : ∀ j ∈ i.preorder, Agree f g j) : i.respan f = i.respan g := by
  match i with
  | .tag header children s =>
    obtain ⟨⟨here, marks⟩, below⟩ := List.forall_mem_cons.1 same
    rw [Item.respan, Item.respan, Header.respan_congr marks, respanItems_congr children below]
    exact congrArg (Item.tag _ _) here
  | .component header children s =>
    obtain ⟨⟨here, marks⟩, below⟩ := List.forall_mem_cons.1 same
    rw [Item.respan, Item.respan, Header.respan_congr marks, respanItems_congr children below]
    exact congrArg (Item.component _ _) here
  | .text items s =>
    obtain ⟨here, marks⟩ := same _ (List.mem_singleton.2 rfl)
    have fragments : items.map (Fragment.respan f) = items.map (Fragment.respan g) :=
      List.map_congr_left fun i mem => Fragment.respan_congr fun k inner => marks k (List.mem_flatMap.2 ⟨i, mem, inner⟩)
    rw [Item.respan, Item.respan, fragments]
    exact congrArg (Item.text _) here
  | .directive d children s =>
    obtain ⟨⟨here, marks⟩, below⟩ := List.forall_mem_cons.1 same
    rw [Item.respan, Item.respan, Directive.respan_congr marks, respanItems_congr children below]
    exact congrArg (Item.directive _ _) here

theorem respanItems_congr (items : List Item) (same : ∀ j ∈ preorder items, Agree f g j) :
    respanItems f items = respanItems g items := by
  match items with
  | [] => rfl
  | i :: items =>
    obtain ⟨first, others⟩ := List.forall_mem_append.1 same
    rw [respanItems, respanItems, i.respan_congr first, respanItems_congr items others]

end

end

end Outline

open Outline (Agree)

theorem check_agree {f f' g g' : Span → Span} (joins : ∀ s t : Span, f (s.merge t) = (f s).merge (f t))
    (joins' : ∀ s t : Span, f' (s.merge t) = (f' s).merge (f' t)) {items slots region}
    (outline : ∀ i ∈ Outline.preorder items, Agree f f' i) (whole : f region = f' region)
    (declared : ∀ decl ∈ slots.getD [], g decl.span = g' decl.span) :
    ∀ d ∈ (check items slots region []).2, relocate f g d = relocate f' g' d := by
  have tables : slots.map (SlotTable.respan g) = slots.map (SlotTable.respan g') := by
    cases slots with
    | none => rfl
    | some table =>
      refine congrArg some (List.map_congr_left fun decl mem => ?_)
      exact congrArg (SlotDecl.mk decl.name decl.optional) (declared decl mem)
  have first := check_respan (g := g) joins items slots region
  have second := check_respan (g := g') joins' items slots region
  rw [Outline.respanItems_congr items outline, whole, tables, second] at first
  exact List.map_inj_left.1 (congrArg Prod.snd first).symm

theorem check_unused {items slots region s d} (reported : d ∈ (check items slots region []).2)
    (unused : d.rule = .slotRequiredUnused) (here : d.region = .span s) : ∃ decl ∈ slots.getD [], decl.span = s := by
  have joins : ∀ s t : Span, id (s.merge t) = (id s).merge (id t) := fun _ _ => rfl
  have kept : ∀ decl ∈ slots.getD [], decl.span.keep ((slots.getD []).map (·.span)) = id decl.span := fun decl mem =>
    Span.keep_eq_self.2 (List.mem_map.2 ⟨decl, mem, rfl⟩)
  have same := check_agree joins joins (fun _ _ => ⟨rfl, fun _ _ => rfl⟩) rfl kept d reported
  simp only [relocate, unused, atRule] at same
  exact List.mem_map.1 (Span.keep_eq_self.1 (Diagnostic.agree here same))

theorem check_agree_at {f f' : Span → Span} (joins : ∀ s t : Span, f (s.merge t) = (f s).merge (f t))
    (joins' : ∀ s t : Span, f' (s.merge t) = (f' s).merge (f' t)) {items slots region s d}
    (outline : ∀ i ∈ Outline.preorder items, Agree f f' i) (whole : f region = f' region)
    (reported : d ∈ (check items slots region []).2) (other : d.rule ≠ .slotRequiredUnused)
    (here : d.region = .span s) : f s = f' s := by
  have same : relocate f id d = relocate f' id d :=
    check_agree joins joins' outline whole (fun _ _ => rfl) d reported
  have elsewhere : ∀ f, atRule f id d.rule = f := by
    intro f
    cases rule : d.rule <;> first | rfl | exact absurd rule other
  simp only [relocate, elsewhere] at same
  exact Diagnostic.agree here same

end Template

namespace Span

def clamp (lo hi : Nat) (s : Span) : Span := ⟨max lo (min hi s.start), max lo (min hi s.stop)⟩

theorem clamp_merge (lo hi : Nat) (s t : Span) : (s.merge t).clamp lo hi = (s.clamp lo hi).merge (t.clamp lo hi) := by
  simp only [clamp, merge, mk.injEq]
  omega

def sides (m : Nat) (s : Span) : Span := ⟨if m ≤ s.start then 1 else 0, if m ≤ s.stop then 1 else 0⟩

/-- On which side of an offset a span starts and ends, where one that ends before it starts stands out. -/
def sidesInOrder (m : Nat) (s : Span) : Span :=
  ⟨if m ≤ s.start then if m ≤ s.stop then 1 else 2 else 0, if m ≤ s.stop then 1 else 0⟩

theorem sides_merge (m : Nat) (s t : Span) : (s.merge t).sides m = (s.sides m).merge (t.sides m) := by
  simp only [sides, merge, mk.injEq]
  grind

theorem sidesInOrder_merge (m : Nat) (s t : Span) :
    (s.merge t).sidesInOrder m = (s.sidesInOrder m).merge (t.sidesInOrder m) := by
  simp only [sidesInOrder, merge, mk.injEq]
  grind

theorem within_iff {s t : Span} (ordered : t.start ≤ t.stop) :
    s.Within t ↔ s.clamp t.start t.stop = s ∧ ∀ m, s.sides m = s.sidesInOrder m := by
  obtain ⟨start, stop⟩ := s
  constructor
  · rintro ⟨first, le, last⟩
    refine ⟨?_, fun m => ?_⟩
    · simp only [clamp, mk.injEq]
      dsimp only at first le last
      omega
    · simp only [sides, sidesInOrder, mk.injEq]
      grind
  · rintro ⟨kept, sides⟩
    -- A span that ends before it starts stands out at the offset where it starts.
    have here := sides start
    simp only [clamp, mk.injEq] at kept
    simp only [Span.sides, sidesInOrder, mk.injEq] at here
    exact ⟨by grind, by grind, by grind⟩

end Span

namespace Template

theorem check_within {items slots region s d} (ordered : region.start ≤ region.stop)
    (outline : ∀ i ∈ Outline.preorder items, i.span.Within region ∧ ∀ k ∈ i.marked, k.span.Within region)
    (reported : d ∈ (check items slots region []).2) (other : d.rule ≠ .slotRequiredUnused)
    (here : d.region = .span s) : s.Within region := by
  have agree : ∀ {f f' : Span → Span}, (∀ t : Span, t.Within region → f t = f' t) →
      ∀ i ∈ Outline.preorder items, Outline.Agree f f' i :=
    fun same i mem => ⟨same _ (outline i mem).1, fun k mark => same _ ((outline i mem).2 k mark)⟩
  have whole : region.Within region := ⟨Nat.le_refl _, ordered, Nat.le_refl _⟩
  have clamped : ∀ t : Span, t.Within region → t.clamp region.start region.stop = id t := fun t inside =>
    ((Span.within_iff ordered).1 inside).1
  have sided : ∀ m (t : Span), t.Within region → t.sides m = t.sidesInOrder m := fun m t inside =>
    ((Span.within_iff ordered).1 inside).2 m
  refine (Span.within_iff ordered).2 ⟨?_, fun m => ?_⟩
  · exact check_agree_at (Span.clamp_merge _ _) (fun _ _ => rfl) (agree clamped) (clamped _ whole) reported other here
  · exact check_agree_at (Span.sides_merge m) (Span.sidesInOrder_merge m) (agree (sided m)) (sided m _ whole) reported
      other here

theorem parse_within {source base slots entities log} (parsed : parse source base slots [] = .ok (entities, log)) :
    ∀ s ∈ log.spans, s.Within ⟨base, base + byteLength source.toList⟩ ∨ ∃ decl ∈ slots.getD [], decl.span = s := by
  intro s mem
  obtain ⟨d, reported, here⟩ := Log.mem_spans.1 mem
  unfold parse at parsed
  split at parsed
  · cases parsed
  · rename_i items read
    obtain ⟨_, listed⟩ := Outline.listed_of_parse read
    have outline := listed.faithful.inText
    obtain rfl : (check items slots _ []).2 = log := congrArg Prod.snd (Except.ok.inj parsed)
    by_cases unused : d.rule = .slotRequiredUnused
    · exact .inr (check_unused reported unused here)
    · refine .inl (check_within (Nat.le_add_right _ _) (fun i mem => ?_) reported unused here)
      exact ⟨(outline i mem).1.within, fun k mark => ((outline i mem).2 k mark).within⟩

end Template

end ComponentCompiler
