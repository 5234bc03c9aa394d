import ComponentCompiler.Proofs.Check.Blocks
import ComponentCompiler.Proofs.Check.Texts

/-!
# Code in accepted templates

Main statement: `accepted_codes_filled`.
-/

namespace ComponentCompiler.Template

open Text

namespace Fragment

def code? : Fragment → Option Code
  | .static _ => none
  | .dynamic code | .reactive code => some code

theorem filterMap_code?_append (items : List Fragment) (f : Fragment) :
    (append items f).filterMap code? = items.filterMap code? ++ f.code?.toList := by
  unfold append
  split
  · rename_i a b last
    obtain ⟨front, rfl⟩ := List.getLast?_eq_some_iff.1 last
    rw [List.dropLast_concat, List.filterMap_append, List.filterMap_append, List.append_assoc]
    rfl
  · rename_i f _ _ _
    rw [List.filterMap_append]
    cases f <;> rfl

theorem filterMap_code?_appendAll (items more : List Fragment) :
    (appendAll items more).filterMap code? = items.filterMap code? ++ more.filterMap code? := by
  unfold appendAll
  induction more generalizing items with
  | nil => simp
  | cons f more ih =>
    rw [List.foldl_cons, ih, filterMap_code?_append, List.append_assoc]
    cases f <;> rfl

end Fragment

def BindingValue.code? : BindingValue → Option Code
  | .empty | .static _ => none
  | .dynamic code _ | .reactive code => some code

def Attribute.code? : Attribute → Option Code
  | .binding b => b.value.code?
  | .event _ handler => some handler.code
  | .sync s => some s.code
  | .receiver r => some r.code

def Keyword.codes : Keyword → List Code
  | .conditional e | .elseIf e | .choice e | .switch e | .case _ e => [e.code]
  | .when patterns => patterns
  | .each loop => [loop.collection.code]
  | .templateUse _ args => args
  | _ => []

namespace Outline

def Attribute.code? (a : Attribute) : Option Code :=
  match a.value with
  | some (.code code) => some code
  | _ => none

def Header.codes (h : Header) : List Code :=
  (h.shorthands.filterMap Shorthand.class?).filterMap Fragment.code? ++ h.attributes.filterMap Attribute.code?

def Directive.codes (d : Directive) : List Code := d.read?.elim [] Keyword.codes

def Item.codes : Item → List Code
  | .tag header _ _ | .component header _ _ => header.codes
  | .text items _ => items.filterMap Fragment.code?
  | .directive d _ _ => d.codes

def Item.isRead : Item → Bool
  | .directive d _ _ => d.read?.isSome
  | _ => true

theorem Directive.line_of_read {d keyword} (read : d.read? = some keyword) (children : List Item) (span : Span) :
    (Item.directive d children span).isRead = true ∧ (Item.directive d children span).codes = keyword.codes := by
  simp [Item.isRead, Item.codes, Directive.codes, read]

theorem Attribute.read?_code? {a : Attribute} {found : Template.Attribute} (read : a.read? = some found) :
    found.code? = a.code? := by
  unfold read? at read
  unfold code?
  split at read
  · cases read
    simp only [Template.Attribute.code?, plain]
    cases a.value with
    | none => rfl
    | some value => cases value <;> rfl
  · rename_i given
    cases read
    rw [given]
    rfl
  · rename_i given
    cases read
    rw [given]
    rfl
  · rename_i given
    cases read
    rw [given]
    rfl
  · rename_i given
    split at read
    · cases read
      rw [given]
      rfl
    · cases read
  · cases read

theorem Attribute.filterMap_code? {attributes : List Attribute} {found : List Template.Attribute}
    (read : attributes.mapM Attribute.read? = some found) :
    found.filterMap Template.Attribute.code? = attributes.filterMap Attribute.code? := by
  induction attributes generalizing found with
  | nil =>
    cases read
    rfl
  | cons a attributes ih =>
    rw [List.mapM_cons] at read
    obtain ⟨first, one, rest⟩ := Option.bind_eq_some_iff.1 read
    obtain ⟨others, later, done⟩ := Option.bind_eq_some_iff.1 rest
    cases done
    rw [List.filterMap_cons, List.filterMap_cons, Attribute.read?_code? one, ih later]

end Outline

def Listener.codes (listeners : List Listener) : List Code := listeners.flatMap fun l => l.handlers.map (·.code)

def Tag.codes (tag : Tag) : List Code :=
  tag.classes.filterMap Fragment.code? ++ tag.bindings.filterMap (·.value.code?) ++ Listener.codes tag.listeners ++
    tag.receivers.map (·.code)

def Inclusion.codes (i : Inclusion) : List Code :=
  i.props.filterMap (·.value.code?) ++ i.syncs.map (·.code) ++ Listener.codes i.listeners

def Entity.codes : Entity → List Code
  | .tag t _ => t.codes
  | .synced _ sync t _ => sync.code :: t.codes
  | .text items _ => items.filterMap Fragment.code?
  | .component inclusion _ => inclusion.codes
  | .conditional condition _ elseIfs _ _ => condition.code :: elseIfs.map (·.condition.code)
  | .each loop _ _ => [loop.collection.code]
  | .choice value cases _ _ => value.code :: cases.flatMap MatchCase.patterns
  | .switch value cases _ => value.code :: cases.flatMap fun c => c.value.toList.map (·.code)
  | .templateUse _ args _ => args
  | .slot .. | .insertion _ | .template .. => []

section

variable {c : Code}

theorem Listener.mem_codes_group {events} :
    c ∈ Listener.codes (Listener.group events) ↔ ∃ e ∈ events, e.2.code = c := by
  simp only [Listener.codes, Listener.group, List.mem_flatMap, List.mem_map, List.mem_eraseDups]
  constructor
  · rintro ⟨l, ⟨event, -, rfl⟩, handler, among, rfl⟩
    obtain ⟨e, mem, rfl⟩ := List.mem_map.1 among
    exact ⟨e, (List.mem_filter.1 mem).1, rfl⟩
  · rintro ⟨e, mem, rfl⟩
    refine ⟨_, ⟨e.1, ⟨e, mem, rfl⟩, rfl⟩, e.2, ?_, rfl⟩
    exact List.mem_map.2 ⟨e, List.mem_filter.2 ⟨mem, by simp⟩, rfl⟩

theorem Attribute.mem_codes {found : List Attribute} :
    c ∈ found.filterMap Attribute.code? ↔
      (∃ b ∈ found.filterMap Attribute.binding?, b.value.code? = some c) ∨
      (∃ e ∈ found.filterMap Attribute.event?, e.2.code = c) ∨
      (∃ s ∈ found.filterMap Attribute.sync?, s.code = c) ∨
      ∃ r ∈ found.filterMap Attribute.receiver?, r.code = c := by
  simp only [List.mem_filterMap]
  constructor
  · rintro ⟨a, mem, same⟩
    cases a with
    | binding b => exact .inl ⟨b, ⟨_, mem, rfl⟩, same⟩
    | event name handler => exact .inr (.inl ⟨_, ⟨_, mem, rfl⟩, Option.some.inj same⟩)
    | sync s => exact .inr (.inr (.inl ⟨s, ⟨_, mem, rfl⟩, Option.some.inj same⟩))
    | receiver r => exact .inr (.inr (.inr ⟨r, ⟨_, mem, rfl⟩, Option.some.inj same⟩))
  · rintro (⟨_, ⟨a, mem, kind⟩, same⟩ | ⟨_, ⟨a, mem, kind⟩, same⟩ | ⟨_, ⟨a, mem, kind⟩, same⟩ |
      ⟨_, ⟨a, mem, kind⟩, same⟩)
    all_goals
      refine ⟨a, mem, ?_⟩
      cases a <;> cases kind
      simpa [Attribute.code?] using same

theorem Check.ReadsTag.mem_codes {header span tag syncs} (read : Check.ReadsTag header span tag syncs) :
    c ∈ header.codes ↔ c ∈ tag.codes ∨ ∃ s ∈ syncs, s.code = c := by
  obtain ⟨id, found, listed, -, same⟩ := read
  cases same
  simp only [Outline.Header.codes, Tag.codes, ← Outline.Attribute.filterMap_code? listed, List.mem_append,
    Attribute.mem_codes, Listener.mem_codes_group, List.mem_map,
      List.mem_filterMap (f := fun b : Binding => b.value.code?)]
  grind

theorem Check.ReadsInclusion.mem_codes {header span inclusion} (read : Check.ReadsInclusion header span inclusion) :
    c ∈ header.codes ↔ c ∈ inclusion.codes := by
  obtain ⟨found, listed, bare, unused, rfl⟩ := read
  have heard (events : List (String × Handler)) :
      c ∈ Listener.codes (Listener.group (events.map Check.forComponent)) ↔ ∃ e ∈ events, e.2.code = c := by
    simp [Listener.mem_codes_group, Check.forComponent]
  simp only [Outline.Header.codes, Inclusion.codes, ← Outline.Attribute.filterMap_code? listed, List.mem_append,
    Attribute.mem_codes, Check.sortedInclusion, heard, bare, unused, List.mem_map,
    List.mem_filterMap (f := fun b : Binding => b.value.code?), List.filterMap_nil]
  grind

end

def HoldsCode (es : List Entity) (c : Code) : Prop := ∃ e, Occurs e es ∧ c ∈ e.codes

section

variable {c : Code} {e : Entity} {a b es : List Entity}

@[simp] theorem holdsCode_nil : ¬ HoldsCode [] c := by
  rintro ⟨e, occurs, -⟩
  exact occurs_nil occurs

@[simp] theorem holdsCode_append : HoldsCode (a ++ b) c ↔ HoldsCode a c ∨ HoldsCode b c := by
  simp only [HoldsCode, occurs_append, or_and_right, exists_or]

theorem holdsCode_singleton : HoldsCode [e] c ↔ c ∈ e.codes ∨ HoldsCode e.content c := by
  simp only [HoldsCode, occurs_singleton, or_and_right, exists_or, exists_eq_left]

theorem holdsCode_component {inclusion} :
    HoldsCode (Entity.component inclusion (es.filterMap Entity.insertion? ++
      gathered (es.filter fun e => e.insertion?.isNone))).content c ↔ HoldsCode es c := by
  have other {e : Entity} (mem : c ∈ e.codes) : e.insertion? = none := by
    cases e with
    | insertion i => cases mem
    | _ => rfl
  constructor
  · rintro ⟨e, occurs, mem⟩
    exact ⟨e, (occurs_inserted (other mem)).1 occurs, mem⟩
  · rintro ⟨e, occurs, mem⟩
    exact ⟨e, (occurs_inserted (other mem)).2 occurs, mem⟩

end

structure Coded (items : List Outline.Item) (es : List Entity) : Prop where
  codes : ∀ c, HoldsCode es c ↔ ∃ i ∈ Outline.preorder items, c ∈ i.codes
  read : ∀ i ∈ Outline.preorder items, i.isRead = true

section

variable {before : List Outline.Item} {i : Outline.Item} {es inner : List Entity} {e e' : Entity}

theorem Coded.nil : Coded [] [] where
  codes := by simp [Outline.preorder]
  read := by simp [Outline.preorder]

theorem Coded.add {new : List Entity} (sofar : Coded before es) (content : Coded i.children inner)
    (read : i.isRead = true)
    (codes : ∀ c, HoldsCode new c ↔ HoldsCode es c ∨ c ∈ i.codes ∨ HoldsCode inner c) : Coded (before ++ [i]) new where
  codes := by
    intro c
    rw [codes, sofar.codes, content.codes, Outline.preorder_concat]
    simp only [List.mem_append, List.mem_cons, or_and_right, exists_or, exists_eq_left]
  read := by
    rw [Outline.preorder_concat]
    exact List.forall_mem_append.2 ⟨sofar.read, List.forall_mem_cons.2 ⟨read, content.read⟩⟩

theorem Coded.push (sofar : Coded before es) (content : Coded i.children inner) (read : i.isRead = true)
    (own : ∀ c, c ∈ e.codes ↔ c ∈ i.codes) (same : ∀ c, HoldsCode e.content c ↔ HoldsCode inner c) :
    Coded (before ++ [i]) (es ++ [e]) := by
  refine sofar.add content read fun c => ?_
  rw [holdsCode_append, holdsCode_singleton, own, same]

theorem Coded.extend (sofar : Coded before (es ++ [e])) (content : Coded i.children inner) (read : i.isRead = true)
    (own : e'.codes = e.codes ++ i.codes) (more : e'.content = e.content ++ inner) :
    Coded (before ++ [i]) (es ++ [e']) := by
  refine sofar.add content read fun c => ?_
  rw [holdsCode_append, holdsCode_append, holdsCode_singleton, holdsCode_singleton, own, more, holdsCode_append,
    List.mem_append]
  grind

theorem Coded.text {s : Siblings} {items span} (sofar : Coded before s.done.reverse) :
    Coded (before ++ [.text items span]) (s.pushText items span).done.reverse := by
  unfold Siblings.pushText
  split
  · rename_i empty
    obtain rfl := List.isEmpty_iff.1 empty
    exact sofar.add .nil rfl (by simp [Outline.Item.codes])
  · split
    · rename_i earlier start done last
      rw [last, List.reverse_cons] at sofar
      rw [List.reverse_cons]
      refine sofar.extend .nil rfl ?_ rfl
      simp only [Entity.codes, Outline.Item.codes, Fragment.filterMap_code?_appendAll, Fragment.filterMap_code?_append,
        Fragment.code?, Option.toList_none, List.append_nil]
    · rw [List.reverse_cons]
      refine sofar.push .nil rfl ?_ fun c => Iff.rfl
      intro c
      simp only [Entity.codes, Outline.Item.codes, Fragment.filterMap_code?_appendAll,
        List.filterMap_nil, List.nil_append]

end

theorem adds_coded {slots scope before i es es' p q} (sofar : Coded before es) (lined : Outline.Lined (before ++ [i]))
    (h : Check.Adds slots scope (fun _ items _ es _ => Outline.Lined items → Coded items es) i es p es' q) :
    Coded (before ++ [i]) es' := by
  have below := lined.below
  have alone {d : Outline.Directive} {children : List Outline.Item} {span : Span}
      (line : i = .directive d children span) (blockless : Outline.isBlockless d.name = true) :
      Coded i.children [] := by
    subst line
    cases lined.last with
    | directive fine inside empty =>
      rw [Outline.Item.children, empty blockless]
      exact .nil
  cases h with
  | text => exact sofar.text
  | tag read content synced =>
    refine sofar.push (content below) rfl ?_ ?_
    · intro c
      rw [Outline.Item.codes, read.mem_codes]
      cases synced with
      | plain => simp [Entity.codes]
      | synced kind sync => simp [Entity.codes, or_comm, eq_comm]
    · cases synced <;> exact fun c => Iff.rfl
  | component read content =>
    exact sofar.push (content below) rfl (fun c => read.mem_codes.symm) fun c => holdsCode_component
  | conditional read content =>
    obtain ⟨known, codes⟩ := Outline.Directive.line_of_read read _ _
    exact sofar.push (content below) known (fun c => by rw [codes]; rfl) (by simp [Entity.content])
  | elseIf read content =>
    obtain ⟨known, codes⟩ := Outline.Directive.line_of_read read _ _
    refine sofar.extend (content below) known ?_ (by simp [Entity.content, ElseIf.body])
    simp [Entity.codes, codes, Keyword.codes, ElseIf.condition]
  | when read content =>
    obtain ⟨known, codes⟩ := Outline.Directive.line_of_read read _ _
    refine sofar.extend (content below) known ?_ (by simp [Entity.content, MatchCase.body])
    simp [Entity.codes, codes, Keyword.codes, MatchCase.patterns]
  | otherwise read content | choiceDefault read content =>
    obtain ⟨known, codes⟩ := Outline.Directive.line_of_read read _ _
    refine sofar.extend (content below) known ?_ (by simp [Entity.content])
    simp [Entity.codes, codes, Keyword.codes]
  | case read content | switchDefault read first content =>
    obtain ⟨known, codes⟩ := Outline.Directive.line_of_read read _ _
    refine sofar.extend (content below) known ?_ (by simp [Entity.content, SwitchCase.body])
    simp [Entity.codes, codes, Keyword.codes, SwitchCase.value]
  | choice read blockless | switch read blockless | templateUse read blockless =>
    obtain ⟨known, codes⟩ := Outline.Directive.line_of_read read _ _
    exact sofar.push (alone rfl blockless) known (fun c => by rw [codes]; rfl) fun _ => Iff.rfl
  | each read content | insertion read inside content | template read top new content
  | fallbackSlot read declared found optional content =>
    obtain ⟨known, codes⟩ := Outline.Directive.line_of_read read _ _
    exact sofar.push (content below) known (fun c => by rw [codes]; rfl) fun _ => Iff.rfl
  | slot read declared found =>
    obtain ⟨known, codes⟩ := Outline.Directive.line_of_read read _ _
    exact sofar.push .nil known (fun c => by rw [codes]; rfl) fun _ => Iff.rfl

def isLoneMark (text : List Char) : Bool := trim text = [':']

namespace Outline

/-- Whether the line has empty braces for a class or a value, or a lone `:` for an expression. A pattern of a match may
be a `:`, which is no mark there. -/
def Item.leavesEmpty : Item → Bool
  | .tag header _ _ | .component header _ _ => header.codes.any (·.text.isEmpty)
  | .text .. => false
  | .directive d _ _ => d.name ≠ "when" && d.expressions.any isLoneMark

end Outline

theorem unmarked_eq_nil {text} (ink : trim text ≠ []) : unmarked text = [] ↔ isLoneMark text = true := by
  unfold unmarked isLoneMark
  rw [decide_eq_true_iff]
  split
  · rename_i rest marked
    rw [marked]
    constructor
    · intro blank
      have short : trim ([] ++ ([':'] ++ rest)) = [':'] := trim_unique rfl rfl (trim_eq_nil.1 blank)
      rwa [List.nil_append, List.singleton_append, ← marked, trim_trim, marked] at short
    · intro lone
      cases lone
      rfl
  · rename_i text other
    constructor
    · intro none
      exact absurd none ink
    · intro lone
      exact absurd lone (other [])

theorem expr_empty {text span} (ink : trim text ≠ []) :
    (Argument.expr text span).code.text = "" ↔ isLoneMark text = true := by
  have written : (Argument.expr text span).code.text = String.ofList (unmarked text) :=
    congrArg Operand.code (expr_operand text span)
  rw [written, ← unmarked_eq_nil ink]
  simp

theorem codes_filled {pieces span} : ∀ c ∈ Argument.codes pieces span, c.text ≠ "" := by
  intro c mem
  obtain ⟨piece, kept, rfl⟩ := List.mem_map.1 mem
  obtain ⟨-, ink⟩ := List.mem_filter.1 kept
  intro empty
  have blank : trim piece.text = [] := by simpa [Code.ofList] using empty
  rw [trim_eq_nil] at blank
  simp [Argument.Piece.isBlank, blank] at ink

namespace Outline.Directive

variable {d : Outline.Directive} {keyword : Keyword}

theorem expr?_empty {e} (fine : d.WellFormed) (read : d.expr? = some e) :
    ∃ text, (d.argument.toList.map fun a => a.text.toList) = [text] ∧ (e.code.text = "" ↔ isLoneMark text = true) := by
  obtain ⟨a, kept, rfl⟩ := Option.map_eq_some_iff.1 read
  obtain ⟨given, some⟩ := Option.filter_eq_some_iff.1 kept
  refine ⟨a.text.toList, by rw [given]; rfl, expr_empty ?_⟩
  rw [(fine.argument a given).trimmed]
  simpa using some

theorem loop?_empty {loop} (read : d.loop? = some loop) :
    ∃ text, (d.argument.toList.flatMap fun a => (Argument.splitAtOf? {} ' ' a.text.toList).toList.map (·.2)) = [text] ∧
      (loop.collection.code.text = "" ↔ isLoneMark text = true) := by
  obtain ⟨a, given, found⟩ := Option.bind_eq_some_iff.1 read
  unfold Argument.loop at found
  split at found
  · cases found
  · rename_i before collection split
    split at found
    · cases found
    · rename_i ink
      split at found
      · cases found
      · cases found
        refine ⟨collection, by simp [given, split], expr_empty ?_⟩
        rwa [ne_eq, trim_eq_nil]

theorem empty_iff (fine : d.WellFormed) (read : d.read? = some keyword) :
    (∃ c ∈ keyword.codes, c.text = "") ↔ d.name ≠ "when" ∧ ∃ text ∈ d.expressions, isLoneMark text = true := by
  obtain ⟨named, given⟩ := supplies_of_read read
  have single {c : Code} {text : List Char} (codes : keyword.codes = [c]) (other : d.name ≠ "when")
      (written : d.expressions = [text]) (empty : c.text = "" ↔ isLoneMark text = true) :
      (∃ c ∈ keyword.codes, c.text = "") ↔ d.name ≠ "when" ∧ ∃ text ∈ d.expressions, isLoneMark text = true := by
    simp [codes, other, written, empty]
  unfold Outline.Directive.expressions at single ⊢
  rw [named] at single ⊢
  cases keyword with
  | conditional | elseIf | choice | switch =>
    obtain ⟨text, written, empty⟩ := expr?_empty fine given
    exact single rfl (by simp [Keyword.name]) written empty
  | case falls =>
    obtain ⟨text, written, empty⟩ := expr?_empty fine given
    cases falls <;> exact single rfl (by simp [Keyword.name]) written empty
  | each loop =>
    obtain ⟨text, written, empty⟩ := loop?_empty given
    exact single rfl (by simp [Keyword.name]) written empty
  | when patterns =>
    obtain ⟨a, -, rfl⟩ := Option.map_eq_some_iff.1 (Option.filter_eq_some_iff.1 given).1
    constructor
    · rintro ⟨c, mem, empty⟩
      exact absurd empty (codes_filled c mem)
    · rintro ⟨other, -⟩
      exact absurd rfl other
  | templateUse name args =>
    obtain ⟨pieces, span, -, rfl⟩ := given
    constructor
    · rintro ⟨c, mem, empty⟩
      exact absurd empty (codes_filled c mem)
    · rintro ⟨-, text, mem, -⟩
      exact absurd mem List.not_mem_nil
  | default falls => cases falls <;> simp [Keyword.codes, Keyword.name]
  | _ => simp [Keyword.codes, Keyword.name]

end Outline.Directive

theorem Outline.IsTextLine.codes_filled {items} (line : Outline.IsTextLine items) :
    ∀ c ∈ items.filterMap Fragment.code?, c.text ≠ "" := by
  intro c mem
  obtain ⟨f, among, found⟩ := List.mem_filterMap.1 mem
  rcases line.fragment f among with code | ⟨text, rfl, -⟩
  · have interpolated : c.Interpolated := by
      cases f with
      | static => cases found
      | dynamic | reactive =>
        cases found
        exact code
    rintro empty
    exact interpolated.some (by rw [empty]; rfl)
  · cases found

theorem Outline.Item.leavesEmpty_iff {i : Outline.Item} (fine : i.WellFormed) (read : i.isRead = true) :
    i.leavesEmpty = true ↔ ∃ c ∈ i.codes, c.text = "" := by
  cases fine with
  | tag | component => simp [leavesEmpty, codes]
  | text line =>
    constructor
    · rintro ⟨⟩
    · rintro ⟨c, mem, empty⟩
      exact absurd empty (line.codes_filled c mem)
  | directive line =>
    obtain ⟨keyword, found⟩ := Option.isSome_iff_exists.1 read
    rw [(Outline.Directive.line_of_read found _ _).2, Outline.Directive.empty_iff line found]
    simp [leavesEmpty]

theorem Outline.Item.WellFormed.preorder {i : Outline.Item} (fine : i.WellFormed) : ∀ j ∈ i.preorder, j.WellFormed := by
  have around {i : Outline.Item} (fine : i.WellFormed) (below : ∀ j ∈ i.children, ∀ k ∈ j.preorder, k.WellFormed) :
      ∀ j ∈ i.preorder, j.WellFormed := by
    rw [Outline.preorder_item, Outline.preorder_eq]
    refine List.forall_mem_cons.2 ⟨fine, fun k mem => ?_⟩
    obtain ⟨j, child, inside⟩ := List.mem_flatMap.1 mem
    exact below j child k inside
  induction fine with
  | tag line fine ih => exact around (.tag line fine) ih
  | component line fine ih => exact around (.component line fine) ih
  | text line => exact around (.text line) (by simp [Outline.Item.children])
  | directive line fine blockless ih => exact around (.directive line fine blockless) ih

/-- All code in the entities of an accepted template has text just if no line leaves some empty. -/
theorem accepted_codes_filled {source : String} {base : Nat} {items : List Outline.Item} {slots : Option SlotTable}
    {region : Span} {log log' : Log} {es : List Entity} (read : Outline.parse source base = .ok items)
    (accepted : check items slots region log = (some es, log')) :
    (∀ e, Occurs e es → ∀ c ∈ e.codes, c.text ≠ "") ↔ ∀ i ∈ Outline.preorder items, i.leavesEmpty = false := by
  have lined := Outline.parse_lined read
  have coded : Coded items es := lined_induction .nil adds_coded lined accepted
  have empty {i : Outline.Item} (mem : i ∈ Outline.preorder items) :
      i.leavesEmpty = true ↔ ∃ c ∈ i.codes, c.text = "" := by
    obtain ⟨top, among, inside⟩ := List.mem_flatMap.1 (Outline.preorder_eq items ▸ mem)
    exact Outline.Item.leavesEmpty_iff ((lined.wellFormed top among).preorder i inside) (coded.read i mem)
  constructor
  · intro filled i mem
    rw [← Bool.not_eq_true, empty mem]
    rintro ⟨c, own, none⟩
    obtain ⟨e, occurs, held⟩ := (coded.codes c).2 ⟨i, mem, own⟩
    exact filled e occurs c held none
  · intro full e occurs c held none
    obtain ⟨i, mem, own⟩ := (coded.codes c).1 ⟨e, occurs, held⟩
    have left := (empty mem).2 ⟨c, own, none⟩
    rw [full i mem] at left
    cases left

/-- Code in every kind of place, with a `:` for a pattern. -/
theorem codes_filled_everywhere :
    let source := "@match(:a)\n@when(:, b)\n    p.\x7bc\x7d(:d=\x7be\x7d @f=g) h \x7b\x7b i \x7d\x7d\n" ++
      "@each(j of :k)\n    Card(!l=m)\n"
    ∃ items es log, Outline.parse source 0 = .ok items ∧ check items none ⟨0, 0⟩ [] = (some es, log) ∧
      (∀ i ∈ Outline.preorder items, i.leavesEmpty = false) ∧ ∀ e, Occurs e es → ∀ c ∈ e.codes, c.text ≠ "" := by
  intro source
  have computed : ((Outline.parse source 0).toOption.bind fun items => (check items none ⟨0, 0⟩ []).1.map fun _ =>
      (Outline.preorder items).all (!·.leavesEmpty)) = some true := by
    decide +kernel
  obtain ⟨items, es, log, read, accepted, full⟩ := exists_accepted computed
  have full : ∀ i ∈ Outline.preorder items, i.leavesEmpty = false := by simpa using full
  exact ⟨items, es, log, read, accepted, full, (accepted_codes_filled read accepted).2 full⟩

/-- A lone `:` passes for a condition, which is then empty. -/
theorem lone_mark_empties_condition :
    let source := "@if(:)\n    p\n"
    ∃ items es log, Outline.parse source 0 = .ok items ∧ check items none ⟨0, 0⟩ [] = (some es, log) ∧
      ∃ e, Occurs e es ∧ ∃ c ∈ e.codes, c.text = "" := by
  intro source
  have computed : ((Outline.parse source 0).toOption.bind fun items => (check items none ⟨0, 0⟩ []).1.map fun es =>
      es.map fun e => e.codes.map (·.text)) = some [[""]] := by
    decide +kernel
  obtain ⟨items, es, log, read, accepted, shape⟩ := exists_accepted computed
  obtain ⟨e, rfl, texts⟩ := List.map_eq_singleton_iff.1 shape
  obtain ⟨c, same, empty⟩ := List.map_eq_singleton_iff.1 texts
  exact ⟨items, [e], log, read, accepted, e, .here (by simp), c, by simp [same], empty⟩

end ComponentCompiler.Template
