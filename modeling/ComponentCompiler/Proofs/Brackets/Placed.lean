import ComponentCompiler.Proofs.Brackets.Steps
import ComponentCompiler.Proofs.Check.Identifiers

/-!
# What templates embed

Code that was cut out of a template leaves nothing open but a comment at its end: `accepted_whole`.
-/

namespace ComponentCompiler

namespace Program

open Template Template.Balanced

def Whole (pieces : List Piece) : Prop := ∀ p ∈ pieces, p.Whole

def wholeness : Standard where
  Name text := Closed text.toList
  Code text := Closed text.toList
  Content items := items.all Fragment.isStatic = true ∨ (∀ i ∈ items, i.Whole) ∧ Fragment.Apart items

instance : wholeness.Admits := ⟨fun _ _ => trivial⟩

theorem each_wholeness {pieces} : Each wholeness pieces ↔ Whole pieces := by
  have same (p : Piece) : p.Meets wholeness ↔ p.Whole := by cases p <;> exact Iff.rfl
  exact forall₂_congr fun p _ => same p

@[simp] theorem whole_append {a b} : Whole (a ++ b) ↔ Whole a ∧ Whole b := List.forall_mem_append

theorem ofEntities_whole {slots es s} (lowered : ofEntities slots es = .ok s)
    (whole : Whole (piecesOf (formsOf es))) : Whole (linePieces (steps s)) := by
  have parts : Whole (partsOf (formsOf es)) := fun p mem => whole p (partsOf_subset _ mem)
  exact each_wholeness.1 (ofEntities_sound lowered (each_wholeness.2 parts)).inside.each

end Program

namespace Template

open Template.Balanced
open Program (Piece Whole isIdentifierList_parts)

def Keyword.cuts : Keyword → List String
  | .when patterns => patterns.map Code.text
  | .each loop => [loop.pattern, loop.collection.code.text]
  | .template _ params => params
  | .templateUse _ args => args.map Code.text
  | _ => []

mutual

def Form.cuts : Form → List String
  | .tag _ children | .component _ children => cutsOf children
  | .text _ => []
  | .directive keyword children => keyword.cuts ++ cutsOf children

def cutsOf : List Form → List String
  | [] => []
  | f :: forms => f.cuts ++ cutsOf forms

end

/-- Code that is cut out of a template at its brackets. -/
def Captured (text : List Char) : Prop := Closed text ∨ EndsInComment text

/-- Names and texts are closed, and code was captured unless it is one of the `cuts`. -/
def Placed (cuts : List String) : Piece → Prop
  | .name text => Closed text.toList
  | .code text => Captured text.toList ∨ text ∈ cuts
  | .content items => (∀ i ∈ items, i.Whole) ∧ Fragment.Apart items
  | .callee _ => False
  | _ => True

section

variable {cuts more : List String} {p : Piece}

theorem Placed.mono (placed : Placed cuts p) (sub : ∀ text ∈ cuts, text ∈ more) : Placed more p := by
  cases p with
  | code text => exact placed.imp_right (sub text)
  | _ => exact placed

theorem Placed.whole (placed : Placed cuts p) (ends : ∀ text, p = .code text → ¬ EndsInComment text.toList)
    (closed : ∀ text ∈ cuts, Closed text.toList) : p.Whole := by
  cases p with
  | name text => exact placed
  | code text =>
    rcases placed with (whole | comment) | cut
    · exact whole
    · exact absurd comment (ends text rfl)
    · exact closed text cut
  | content items => exact .inr placed
  | callee c => exact placed.elim
  | _ => trivial

end

def Form.Placed (f : Form) : Prop := ∀ p ∈ f.pieces, Template.Placed f.cuts p

theorem placed_piecesOf {forms} (each : ∀ f ∈ forms, f.Placed) : ∀ p ∈ piecesOf forms, Placed (cutsOf forms) p := by
  induction forms with
  | nil => simp [piecesOf]
  | cons f forms ih =>
    obtain ⟨here, others⟩ := List.forall_mem_cons.1 each
    refine List.forall_mem_append.2 ⟨fun p mem => ?_, fun p mem => ?_⟩
    · exact (here p mem).mono fun text => List.mem_append_left _
    · exact (ih others p mem).mono fun text => List.mem_append_right _

theorem Form.placed_directive {keyword children} (line : ∀ p ∈ keyword.pieces, Template.Placed keyword.cuts p)
    (below : ∀ f ∈ children, f.Placed) : (Form.directive keyword children).Placed := by
  refine List.forall_mem_append.2 ⟨fun p mem => ?_, fun p mem => ?_⟩
  · exact (line p mem).mono fun text => List.mem_append_left _
  · exact (placed_piecesOf below p mem).mono fun text => List.mem_append_right _

theorem closed_of_plain {text} (plain : ∀ c ∈ text, c ∉ marks) : Closed text := pass_plain rfl plain

theorem closed_of_identifier {text} (identifier : Text.isIdentifierList text = true) : Closed text :=
  closed_of_plain fun c mem => not_mark_of_identifierPart (isIdentifierList_parts identifier c mem)

theorem not_mark_of_part {part : Char → Bool} (apart : marks.all (!part ·) = true) {c} (h : part c = true) :
    c ∉ marks := by
  intro mem
  simpa [h] using List.all_eq_true.1 apart c mem

theorem Outline.Named.closed {first part : Char → Bool} {text} (named : Outline.Named first part text)
    (apart : marks.all (!part ·) = true) : Closed text.toList :=
  closed_of_plain fun c mem => not_mark_of_part apart (named.parts c mem)

namespace Fragment

theorem apart_before {items} (f : Fragment) (apart : Apart items) : Apart (Form.before f items) := by
  cases items with
  | nil => cases f <;> trivial
  | cons g items =>
    cases f with
    | static a =>
      cases g with
      | static b =>
        cases items with
        | nil => trivial
        | cons h items => exact apart
      | dynamic code | reactive code => exact ⟨rfl, apart⟩
    | dynamic code | reactive code => exact ⟨rfl, apart⟩

theorem whole_before {f items} (here : f.Whole) (others : ∀ i ∈ items, i.Whole) :
    ∀ i ∈ Form.before f items, i.Whole := by
  unfold Form.before
  split
  · exact List.forall_mem_cons.2 ⟨trivial, (List.forall_mem_cons.1 others).2⟩
  · exact List.forall_mem_cons.2 ⟨here, others⟩

theorem placed_coalesce {items} (whole : ∀ i ∈ items, i.Whole) :
    (∀ i ∈ Form.coalesce items, i.Whole) ∧ Apart (Form.coalesce items) := by
  induction items with
  | nil => exact ⟨by simp [Form.coalesce], trivial⟩
  | cons f items ih =>
    obtain ⟨here, others⟩ := List.forall_mem_cons.1 whole
    obtain ⟨later, apart⟩ := ih others
    exact ⟨whole_before here later, apart_before f apart⟩

end Fragment

/-- Code in a line of text cannot end in a comment, which would go on over the closing braces. -/
theorem Code.Interpolated.closed {code : Code} (h : code.Interpolated) : Closed code.text.toList := by
  rcases closed_of_kept rfl rfl h.kept with closed | ⟨-, feed⟩
  · exact closed
  · simp at feed

theorem Outline.IsTextLine.placed {items} (line : Outline.IsTextLine items) :
    (∀ i ∈ items, i.Whole) ∧ Fragment.Apart items := by
  induction items with
  | nil => exact ⟨by simp, trivial⟩
  | cons f items ih =>
    have rest : Outline.IsTextLine items := by
      cases f with
      | static text => exact line.2.2.2
      | dynamic code | reactive code => exact line.2
    obtain ⟨others, apart⟩ := ih rest
    have here : f.Whole := by
      cases f with
      | static text => trivial
      | dynamic code | reactive code => exact line.1.closed
    refine ⟨List.forall_mem_cons.2 ⟨here, others⟩, ?_⟩
    cases items with
    | nil => trivial
    | cons g items =>
      refine ⟨?_, apart⟩
      cases f with
      | static text => rw [line.2.2.1.1, Bool.and_false]
      | dynamic code | reactive code => rfl

theorem Form.placed_text {items} :
    (Form.text items).Placed ↔ (∀ i ∈ items, i.Whole) ∧ Fragment.Apart items := List.forall_mem_singleton

theorem placed_joinText {forms} (each : ∀ f ∈ forms, f.Placed) : ∀ f ∈ Form.joinText forms, f.Placed := by
  fun_induction Form.joinText forms with
  | case1 => exact each
  | case2 items rest empty ih => exact ih (List.forall_mem_cons.1 each).2
  | case3 items rest some ih =>
    obtain ⟨here, others⟩ := List.forall_mem_cons.1 each
    have line := (Form.placed_text.1 here).1
    have later := ih others
    unfold Form.textBefore
    split
    · rename_i more rest' joined
      rw [joined] at later
      obtain ⟨next, later⟩ := List.forall_mem_cons.1 later
      have joint : ∀ i ∈ items ++ .static "\n" :: more, i.Whole :=
        List.forall_mem_append.2 ⟨line, List.forall_mem_cons.2 ⟨trivial, (Form.placed_text.1 next).1⟩⟩
      exact List.forall_mem_cons.2 ⟨Form.placed_text.2 (Fragment.placed_coalesce joint), later⟩
    · exact List.forall_mem_cons.2 ⟨Form.placed_text.2 (Fragment.placed_coalesce line), later⟩
  | case4 f rest other ih =>
    obtain ⟨here, others⟩ := List.forall_mem_cons.1 each
    exact List.forall_mem_cons.2 ⟨here, ih others⟩

theorem Code.Bracketed.captured {x} {code : Code} (h : code.Bracketed x) (closing : isClosing x = true) :
    Captured code.text.toList :=
  (closed_of_kept closing rfl h.kept).imp_right And.left

def Attribute.pieces : Attribute → List Piece
  | .binding b => .name b.name :: b.value.pieces
  | .event _ handler => [.code handler.code.text]
  | .sync s => [.code s.code.text]
  | .receiver r => [.code r.code.text]

section

variable {cuts : List String}

theorem placed_code {code : Code} (captured : Captured code.text.toList) :
    ∀ p ∈ [Piece.code code.text], Placed cuts p :=
  List.forall_mem_singleton.2 (.inl captured)

theorem Outline.Attribute.plain_placed {a : Outline.Attribute} (fine : a.WellFormed) (initial : Bool) :
    ∀ p ∈ (a.plain initial).pieces, Placed cuts p := by
  unfold Outline.Attribute.plain
  split
  · rename_i code given
    have bracketed : code.Bracketed '\x7d' := fine.value (.code code) given
    exact placed_code (bracketed.captured rfl)
  · simp [BindingValue.pieces]
  · simp [BindingValue.pieces]

theorem Outline.Attribute.read?_placed {a : Outline.Attribute} {r : Template.Attribute} (fine : a.WellFormed)
    (read : a.read? = some r) : ∀ p ∈ r.pieces, Placed cuts p := by
  have named (other : ∀ kind, a.sigil ≠ .receiver kind) : Closed a.name.toList := by
    have name := fine.name
    split at name
    · rename_i kind same
      exact absurd same (other kind)
    · exact name.1.closed (by decide)
  have coded {code : Code} (given : a.value = some (.code code)) : Captured code.text.toList := by
    have bracketed : code.Bracketed '\x7d' := fine.value (.code code) given
    exact bracketed.captured rfl
  unfold Outline.Attribute.read? at read
  split at read
  · rename_i plain
    cases read
    exact List.forall_mem_cons.2 ⟨named (by simp [plain]), a.plain_placed fine _⟩
  · rename_i reactive given
    cases read
    exact List.forall_mem_cons.2 ⟨named (by simp [reactive]), placed_code (coded given)⟩
  · rename_i given
    cases read
    exact placed_code (coded given)
  · rename_i given
    cases read
    exact placed_code (coded given)
  · rename_i given
    split at read
    · cases read
      exact placed_code (coded given)
    · cases read
  · cases read

theorem Listener.group_mem {events l} (mem : l ∈ Listener.group events) :
    ∀ h ∈ l.handlers, ∃ name, (name, h) ∈ events := by
  obtain ⟨event, -, rfl⟩ := List.mem_map.1 mem
  intro h member
  obtain ⟨⟨name, h'⟩, among, rfl⟩ := List.mem_map.1 member
  exact ⟨name, (List.mem_filter.1 among).1⟩

theorem Outline.Shorthand.class?_placed {s : Outline.Shorthand} {f : Fragment} (fine : s.WellFormed)
    (found : s.class? = some f) : ∀ p ∈ f.pieces, Placed cuts p := by
  cases s with
  | id name span => cases found
  | className fragment span =>
    obtain rfl : fragment = f := Option.some.inj found
    cases fragment with
    | static text => simp [Fragment.pieces]
    | dynamic code | reactive code => exact placed_code (Code.Bracketed.captured fine rfl)

theorem Outline.Header.WellFormed.placed {first part : Char → Bool} {h : Outline.Header} {head : Head}
    {event : String × Handler → String × Handler} (fine : h.WellFormed first part)
    (apart : marks.all (!part ·) = true) (same : ∀ e, (event e).2.code = e.2.code) (read : h.head? event = some head) :
    ∀ p ∈ head.pieces, Placed cuts p := by
  obtain ⟨attributes, listed, rfl⟩ := Option.map_eq_some_iff.1 read
  have each : ∀ r ∈ attributes, ∀ p ∈ r.pieces, Placed cuts p := by
    intro r mem
    obtain ⟨a, among, taken⟩ := exists_of_mem_mapM listed r mem
    exact a.read?_placed (fine.attributes a among) taken
  have classes : ∀ f ∈ h.shorthands.filterMap Outline.Shorthand.class?, ∀ p ∈ f.pieces, Placed cuts p := by
    intro f mem
    obtain ⟨s, among, found⟩ := List.mem_filterMap.1 mem
    exact Outline.Shorthand.class?_placed (fine.shorthands s among) found
  have bindings : ∀ b ∈ attributes.filterMap Attribute.binding?, ∀ p ∈ Piece.name b.name :: b.value.pieces,
      Placed cuts p := by
    intro b mem
    obtain ⟨r, among, found⟩ := List.mem_filterMap.1 mem
    cases r <;> cases found
    exact each _ among
  have listeners : ∀ l ∈ Listener.group ((attributes.filterMap Attribute.event?).map event),
      ∀ p ∈ l.pieces, Placed cuts p := by
    intro l mem
    refine List.forall_mem_map.2 fun handler member => ?_
    obtain ⟨name, among⟩ := Listener.group_mem mem handler member
    obtain ⟨e, inside, taken⟩ := List.mem_map.1 among
    obtain ⟨r, among, found⟩ := List.mem_filterMap.1 inside
    have code : handler.code = e.2.code := by rw [← same e, taken]
    cases r <;> cases found
    rw [code]
    exact each _ among _ List.mem_cons_self
  have syncs : ∀ s ∈ attributes.filterMap Attribute.sync?, Placed cuts (.code s.code.text) := by
    intro s mem
    obtain ⟨r, among, found⟩ := List.mem_filterMap.1 mem
    cases r <;> cases found
    exact each _ among _ List.mem_cons_self
  have receivers : ∀ r ∈ attributes.filterMap Attribute.receiver?, Placed cuts (.code r.code.text) := by
    intro s mem
    obtain ⟨r, among, found⟩ := List.mem_filterMap.1 mem
    cases r <;> cases found
    exact each _ among _ List.mem_cons_self
  simp only [Head.pieces, List.forall_mem_append, List.forall_mem_map, List.forall_mem_flatMap]
  exact ⟨⟨⟨⟨List.forall_mem_cons.2 ⟨fine.name.closed apart, List.forall_mem_flatMap.2 classes⟩, bindings⟩, listeners⟩,
    syncs⟩, receivers⟩

end

theorem calm_of_blank {c} (blank : Text.isBlank c = true) : Calm c :=
  ⟨ne_of_blank blank (by decide), ne_of_blank blank (by decide), ne_of_blank blank (by decide),
    ne_of_blank blank (by decide)⟩

theorem pass_behind_blanks {frames b text} (code : isCode frames = true) (blank : Text.allBlank b = true) :
    pass frames (b ++ text) = pass frames text := by
  have each : ∀ c ∈ b, Text.isBlank c = true := List.all_eq_true.1 blank
  have passed : pass frames b = some frames := pass_plain code fun c mem => not_mark_of_blank (each c mem)
  exact pass_append_calm passed fun c last => calm_of_blank (each c (List.mem_of_getLast? last))

theorem Argument.trim_marked {rest} (trimmed : Text.trim (':' :: rest) = ':' :: rest) :
    ∃ blanks, rest = blanks ++ Text.trim rest ∧ Text.allBlank blanks = true := by
  obtain ⟨a, b, split, before, behind⟩ := Text.exists_trim rest
  have ended : Text.trimEnd (':' :: rest) = ':' :: rest := trimmed
  have cut : Text.trimEnd (':' :: rest) = Text.trimEnd (':' :: (a ++ Text.trim rest)) := by
    conv => lhs; rw [split, ← List.append_assoc, ← List.cons_append, Text.trimEnd_append_blank behind]
  obtain ⟨c, shorter, -⟩ := Text.exists_trimEnd_append (':' :: (a ++ Text.trim rest))
  have none : b = [] := by
    have length := congrArg List.length shorter
    have whole := congrArg List.length split
    rw [← cut, ended] at length
    simp at length whole
    exact List.eq_nil_of_length_eq_zero (by omega)
  refine ⟨a, ?_, before⟩
  conv => lhs; rw [split, none, List.append_nil]

theorem Argument.expr_captured {text span} (trimmed : Text.trim text = text) (captured : Captured text) :
    Captured (Argument.expr text span).code.text.toList := by
  unfold Argument.expr
  rw [trimmed]
  split
  · rename_i rest
    obtain ⟨blanks, split, blank⟩ := Argument.trim_marked trimmed
    have mark : pass [] [':'] = some [] := rfl
    have calm : ∀ c, [':'].getLast? = some c → Calm c := by
      intro c last
      cases last
      decide
    have same : pass [] (':' :: rest) = pass [] (Text.trim rest) := by
      conv => lhs; rw [split]
      have behind : pass [] ([':'] ++ (blanks ++ Text.trim rest)) = pass [] (blanks ++ Text.trim rest) :=
        pass_append_calm mark calm
      exact behind.trans (pass_behind_blanks rfl blank)
    simpa [Captured, Closed, EndsInComment, Code.ofList, ← same] using captured
  · simpa [Code.ofList, trimmed] using captured

section

variable {d : Outline.Directive}

theorem Outline.Directive.WellFormed.expr?_captured (fine : d.WellFormed) {e} (found : d.expr? = some e) :
    Captured e.code.text.toList := by
  obtain ⟨argument, given, rfl⟩ := Option.map_eq_some_iff.1 found
  obtain ⟨here, -⟩ := Option.filter_eq_some_iff.1 given
  have bracketed := fine.argument argument here
  exact Argument.expr_captured bracketed.trimmed (bracketed.captured rfl)

theorem placed_cuts {α : Type} (text : α → String) (xs : List α) :
    ∀ p ∈ xs.map fun x => Piece.code (text x), Placed (xs.map text) p :=
  List.forall_mem_map.2 fun _ mem => .inr (List.mem_map_of_mem mem)

theorem Outline.Directive.WellFormed.placed {keyword} (fine : d.WellFormed) (read : d.read? = some keyword) :
    ∀ p ∈ keyword.pieces, Placed keyword.cuts p := by
  obtain ⟨-, given⟩ := Outline.Directive.supplies_of_read read
  cases keyword with
  | conditional | elseIf | choice | switch | case => exact placed_code (fine.expr?_captured given)
  | otherwise | default => exact List.forall_mem_nil _
  | when patterns => exact placed_cuts Code.text patterns
  | each loop =>
    have index : ∀ name ∈ loop.index.toList, Closed name.toList := fun name mem =>
      closed_of_identifier (Outline.Directive.loop?_identifier given name mem)
    refine List.forall_mem_cons.2 ⟨.inr ?_, List.forall_mem_cons.2 ⟨.inr ?_, List.forall_mem_map.2 index⟩⟩
    · exact List.mem_cons_self
    · exact List.mem_cons_of_mem _ List.mem_cons_self
  | slot | insertion =>
    exact List.forall_mem_singleton.2 (closed_of_identifier (Outline.Directive.slot?_identifier given))
  | template name params =>
    obtain ⟨pieces, span, found, -⟩ := given
    have placed : ∀ p ∈ params.map Piece.code, Placed params p := by
      simpa only [id_eq, List.map_id] using placed_cuts id params
    exact List.forall_mem_cons.2 ⟨closed_of_identifier (Outline.Directive.named?_identifier found), placed⟩
  | templateUse =>
    obtain ⟨pieces, span, found, -⟩ := given
    exact List.forall_mem_cons.2 ⟨closed_of_identifier (Outline.Directive.named?_identifier found),
      placed_cuts Code.text _⟩

end

theorem placed_kept : Form.Kept Form.Placed where
  tag line read below :=
    List.forall_mem_append.2 ⟨line.placed (by decide) (fun _ => rfl) read, placed_piecesOf below⟩
  component line read below := by
    have default : Closed defaultSlot.toList := closed_of_identifier rfl
    have slotted : ∀ f ∈ Form.slotted _, f.Placed := Form.forall_slotted below fun others sub =>
      Form.placed_directive (List.forall_mem_singleton.2 default) fun f mem => below f (sub mem)
    have same (e : String × Handler) : (Check.forComponent e).2.code = e.2.code := rfl
    exact List.forall_mem_append.2 ⟨line.placed (by decide) same read, placed_piecesOf slotted⟩
  text line := Form.placed_text.2 line.placed
  directive line read := Form.placed_directive (line.placed read)
  join := placed_joinText

def embeddedCode (es : List Entity) : List String :=
  (piecesOf (formsOf es)).filterMap fun
    | .code text => some text
    | _ => none

/-- The code among it that was cut out of arguments at commas or at `of`. -/
def cutCode (es : List Entity) : List String := cutsOf (formsOf es)

theorem mem_embeddedCode {es text} (mem : .code text ∈ piecesOf (formsOf es)) :
    text ∈ embeddedCode es := List.mem_filterMap.2 ⟨_, mem, rfl⟩

section

variable {source : String} {base : Nat} {items : List Outline.Item} {slots : Option SlotTable} {region : Span}
  {log log' : Log} {es : List Entity}

theorem accepted_whole (read : Outline.parse source base = .ok items)
    (accepted : check items slots region log = (some es, log'))
    (ends : ∀ text ∈ embeddedCode es, ¬ EndsInComment text.toList)
    (closed : ∀ text ∈ cutCode es, Closed text.toList) : Whole (piecesOf (formsOf es)) := by
  intro p mem
  have placed := placed_piecesOf (placed_kept.accepted read accepted)
  refine (placed p mem).whole (fun text same => ends text ?_) closed
  subst same
  exact mem_embeddedCode mem

end

end Template

end ComponentCompiler
