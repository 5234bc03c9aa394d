import ComponentCompiler.Proofs.Program.Scope

/-!
# Distinct constants

A constant is named after its place in the template, and a name tells its place: `generated_constants`.
-/

namespace ComponentCompiler.Program

open Template
open Text.Writer (Step)

theorem toDigits_injective {m n} (h : Nat.toDigits 10 m = Nat.toDigits 10 n) : m = n := by
  rw [← Nat.ofDigitChars_ten_toDigits (n := m), h, Nat.ofDigitChars_ten_toDigits]

theorem Path.toList_text (p : Path) : p.text.toList = ['_'].intercalate (p.map (Nat.toDigits 10)) := by
  have digits : (String.toList ∘ fun i : Nat => toString i) = Nat.toDigits 10 := by
    funext i
    simp
  rw [Path.text, String.toList_intercalate, List.map_map, digits]
  rfl

theorem Path.splitOn_text {p : Path} (some : p ≠ []) : p.text.toList.splitOn '_' = p.map (Nat.toDigits 10) := by
  rw [p.toList_text]
  refine List.splitOn_intercalate '_' ?_ (by simpa using some)
  simp only [List.mem_map, forall_exists_index, and_imp, forall_apply_eq_imp_iff₂]
  exact fun _ _ => Nat.underscore_not_in_toDigits

theorem Path.text_eq_nil {p : Path} (h : p.text.toList = []) : p = [] := by
  cases p with
  | nil => rfl
  | cons n p =>
    have split := Path.splitOn_text (List.cons_ne_nil n p)
    rw [h] at split
    simp at split

/-- Decimal numbers have no underscores, so a text tells its path. -/
theorem Path.text_injective {p q : Path} (h : p.text = q.text) : p = q := by
  by_cases none : p = []
  · subst none
    exact (Path.text_eq_nil (by rw [← h]; rfl)).symm
  by_cases none' : q = []
  · subst none'
    exact Path.text_eq_nil (by rw [h]; rfl)
  have digits : p.map (Nat.toDigits 10) = q.map (Nat.toDigits 10) := by
    rw [← Path.splitOn_text none, ← Path.splitOn_text none', h]
  exact (List.map_inj_right fun _ _ => toDigits_injective).1 digits

theorem Temp.name_injective {t u : Temp} (h : t.name = u.name) : t = u := by
  obtain ⟨kind, path⟩ := t
  obtain ⟨kind', path'⟩ := u
  have texts := congrArg String.toList h
  simp only [Temp.name, String.toList_append] at texts
  have tails : kind = kind' ∧ path.text.toList = path'.text.toList := by
    cases kind <;> cases kind' <;> simp_all [TempKind.letter]
  obtain ⟨rfl, same⟩ := tails
  rw [Path.text_injective (String.toList_inj.1 same)]

/-- Everything is up to this standard. -/
def anything : Standard := ⟨fun _ => True, fun _ => True, fun _ => True, fun _ => True⟩

instance : anything.Admits := ⟨fun _ _ => trivial⟩

theorem each_anything (pieces : List Piece) : Each anything pieces := by
  intro p _
  cases p <;> trivial

abbrev Line.Quiet (line : Line) : Prop := line.Fits anything []

/-- The constants are different from each other and all of the kind that `p` describes. -/
def Distinct (p : Temp → Prop) (ts : List Temp) : Prop := ts.Nodup ∧ ∀ t ∈ ts, p t

/-- The constant is named after a place below `path`, at a number that `p` admits. -/
def Among (path : Path) (p : Nat → Prop) (t : Temp) : Prop := ∃ j, p j ∧ path ++ [j] <+: t.path

section

variable {p q r : Temp → Prop} {a b : List Temp} {t : Temp} {path : Path} {m n : Nat → Prop}

theorem Distinct.nil : Distinct p [] := ⟨List.nodup_nil, by simp⟩

theorem Distinct.mono (h : Distinct p a) (sub : ∀ t, p t → q t) : Distinct q a :=
  ⟨h.1, fun t mem => sub t (h.2 t mem)⟩

theorem Distinct.append (first : Distinct p a) (second : Distinct q b) (apart : ∀ t, p t → ¬ q t)
    (left : ∀ t, p t → r t) (right : ∀ t, q t → r t) : Distinct r (a ++ b) := by
  constructor
  · refine List.nodup_append.2 ⟨first.1, second.1, ?_⟩
    rintro t mem u mem' rfl
    exact apart t (first.2 t mem) (second.2 t mem')
  · intro t mem
    rcases List.mem_append.1 mem with mem | mem
    · exact left t (first.2 t mem)
    · exact right t (second.2 t mem)

theorem Distinct.cons (rest : Distinct p a) (new : ¬ p t) (own : r t) (sub : ∀ u, p u → r u) : Distinct r (t :: a) := by
  constructor
  · exact List.nodup_cons.2 ⟨fun mem => new (rest.2 t mem), rest.1⟩
  · intro u mem
    rcases List.mem_cons.1 mem with rfl | mem
    · exact own
    · exact sub u (rest.2 u mem)

theorem Among.under (h : Among path m t) : path <+: t.path := by
  obtain ⟨j, -, inside⟩ := h
  exact (List.prefix_append _ _).trans inside

theorem Among.mono (h : Among path m t) (sub : ∀ j, m j → n j) : Among path n t := by
  obtain ⟨j, admitted, inside⟩ := h
  exact ⟨j, sub j admitted, inside⟩

theorem Among.common (h : Among path m t) (h' : Among path n t) : ∃ j, m j ∧ n j := by
  obtain ⟨j, admitted, inside⟩ := h
  obtain ⟨k, admitted', inside'⟩ := h'
  have same : path ++ [j] = path ++ [k] :=
    (List.prefix_of_prefix_length_le inside inside' (by simp)).eq_of_length (by simp)
  obtain rfl : j = k := by simpa using same
  exact ⟨j, admitted, admitted'⟩

theorem Distinct.next {i} (here : Distinct (path ++ [i] <+: ·.path) a) (later : Distinct (Among path m) b)
    (fresh : ¬ m i) (own : n i) (sub : ∀ j, m j → n j) : Distinct (Among path n) (a ++ b) := by
  refine here.append later ?_ (fun t inside => ⟨i, own, inside⟩) fun t among => among.mono sub
  intro t inside among
  obtain ⟨j, rfl, admitted⟩ := Among.common (m := (· = i)) ⟨i, rfl, inside⟩ among
  exact fresh admitted

theorem Distinct.last {i} (earlier : Distinct (Among path m) a) (here : Distinct (path ++ [i] <+: ·.path) b)
    (fresh : ¬ m i) (own : n i) (sub : ∀ j, m j → n j) : Distinct (Among path n) (a ++ b) := by
  refine earlier.append here ?_ (fun t among => among.mono sub) fun t inside => ⟨i, own, inside⟩
  intro t among inside
  obtain ⟨j, rfl, admitted⟩ := Among.common (m := (· = i)) ⟨i, rfl, inside⟩ among
  exact fresh admitted

theorem Among.not_own (own : t.path = path) : ¬ Among path m t := by
  rintro ⟨j, -, inside⟩
  have shorter := inside.length_le
  rw [own, List.length_append, List.length_singleton] at shorter
  omega

end

/-- The entity numbered `j` in a list that starts at `i` is shown, or it is not. -/
def Numbered (es : List Entity) (shown : Bool) (i j : Nat) : Prop :=
  i ≤ j ∧ ∃ e, es[j - i]? = some e ∧ isRendered e = shown

theorem Numbered.cons {e es shown i j} (h : Numbered es shown (i + 1) j) : Numbered (e :: es) shown i j := by
  obtain ⟨later, found⟩ := h
  refine ⟨by omega, ?_⟩
  rwa [show j - i = (j - (i + 1)) + 1 by omega, List.getElem?_cons_succ]

def Within (i count j : Nat) : Prop := i ≤ j ∧ j < i + count

theorem Within.later {i count j} (h : Within (i + 1) count j) : Within i (count + 1) j := by
  unfold Within at *
  omega

theorem Distinct.within {path i count a b} (here : Distinct (path ++ [i] <+: ·.path) a)
    (later : Distinct (Among path (Within (i + 1) count)) b) :
    Distinct (Among path (Within i (count + 1))) (a ++ b) := by
  refine here.next later ?_ ?_ fun _ => Within.later
  · exact fun h => Nat.not_succ_le_self i h.1
  · exact ⟨Nat.le_refl i, by omega⟩

def InList (path : Path) (es : List Entity) (t : Temp) : Prop :=
  t = ⟨.fragment, path⟩ ∨ Among path (Numbered es true 0) t

theorem InList.under {path es t} (h : InList path es t) : path <+: t.path := by
  rcases h with rfl | h
  · exact List.prefix_refl _
  · exact h.under

section

variable {path : Path} {place : Place} {s : List Stmt}

@[simp] theorem declared_act (a : Action) : declared (Stmt.act a).steps = a.line.declared := by
  simp [Stmt.steps]

@[simp] theorem declared_elementStatements {e tag sync} (quiet : Plain anything [e] sync) :
    declared (steps (elementStatements e tag sync place s)) = e :: declared (steps s) := by
  have settings := (settings_plain e tag [] (each_anything _) (each_anything _)).2
  have closing : declared (steps (closingStatements e tag sync place)) = [] :=
    (closingStatements_plain (fun _ _ => trivial) quiet).2
  have created : Line.Quiet (creationLine tag.name tag.classes) := creationLine_fits fun _ _ => each_anything _
  simp only [steps_append, declared_append, List.append_eq_nil_iff] at settings
  obtain ⟨⟨id, bindings⟩, listeners⟩ := settings
  simp [elementStatements, openingStatements, closing, Action.line, created.quiet, id, bindings, listeners]

theorem gatherStatements_distinct {count es} (h : Distinct (Among path (Numbered es true 0)) (declared (steps s))) :
    Distinct (InList path es) (declared (steps (gatherStatements place path count s))) := by
  unfold gatherStatements
  split
  · have whole := h.cons (t := ⟨.fragment, path⟩) (Among.not_own rfl) (r := InList path es) (.inl rfl) fun _ => .inr
    simpa [Action.line] using whole
  · exact h.mono fun _ => .inr

@[simp] theorem declared_regionStatements (reactive : Bool) :
    declared (steps (regionStatements reactive place s)) = declared (steps s) := by
  have quiet := (regionLine_fits place : Line.Fits anything _ _).quiet
  unfold regionStatements
  split
  · simp [Stmt.steps, quiet]
  · rfl

theorem textStatements_distinct (items : List Fragment) :
    Distinct (path <+: ·.path) (declared (steps (textStatements path place items))) := by
  have own : Distinct (path <+: ·.path) [⟨.text, path⟩] := ⟨by simp, by simp⟩
  unfold textStatements
  dsimp only
  split
  · unfold following
    split <;> simpa [Stmt.steps, effectSteps, Action.line] using Distinct.nil
  · split
    · simpa [Stmt.steps, effectSteps, Action.line] using own
    · simpa [Action.line] using Distinct.nil

@[simp] theorem declared_labelSteps (label : Label) : declared (labelSteps label) = [] := by
  cases label with
  | default => rfl
  | values others last => induction others <;> simp_all [labelSteps]

@[simp] theorem declared_clauseSteps_cons (label : Label) (clauses : List Clause) :
    declared (clauseSteps (.mk label s :: clauses)) = declared (steps s) ++ declared (clauseSteps clauses) := by
  simp [clauseSteps]

@[simp] theorem declared_clauseSteps_nil : declared (clauseSteps []) = [] := by simp [clauseSteps]

@[simp] theorem declared_switchStatements (m : Temp) (value : Code) (clauses : List Clause) :
    declared (steps (switchStatements m value clauses)) = m :: declared (clauseSteps clauses) := by
  have header : declared (Stmt.switch m clauses).steps = declared (clauseSteps clauses) := by
    simp [Stmt.steps]
  simp [switchStatements, Action.line, header]

@[simp] theorem declared_exhaustiveClause (m : Temp) : declared (clauseSteps [exhaustiveClause m]) = [] := by
  simp [exhaustiveClause, Action.line]

@[simp] theorem declared_caseEnd (falls hasDefault : Bool) (others : List SwitchCase) :
    declared (steps (caseEnd falls hasDefault others)) = [] := by
  have quiet : Plain anything [] (caseEnd falls hasDefault others) := caseEnd_plain falls hasDefault others
  exact quiet.2

theorem otherwise_distinct {p : Temp → Prop} {last} (h : ∀ s ∈ last, Distinct p (declared (steps s))) :
    Distinct p (declared (otherwiseSteps last)) := by
  cases last with
  | none => simpa [otherwiseSteps] using Distinct.nil
  | some s => simpa [otherwiseSteps] using h s rfl

theorem lastClause_distinct {p : Temp → Prop} {m last} (h : ∀ s ∈ last, Distinct p (declared (steps s))) :
    Distinct p (declared (clauseSteps [lastClause m last])) := by
  cases last with
  | none => simpa [lastClause] using Distinct.nil
  | some s => simpa [lastClause, Action.line] using h s rfl

@[simp] theorem declared_component (inclusion : Inclusion) (fillings : List Filling) :
    declared (steps [.component inclusion place fillings]) = declared (fillingSteps fillings) := by
  have line : (componentLine inclusion place).Fits anything place.temps :=
    componentLine_fits (List.Subset.refl _) trivial (each_anything _)
  have quiet := line.quiet
  cases fillings with
  | nil => simp [Stmt.steps, quiet, fillingSteps]
  | cons filling fillings =>
    rw [steps_cons, steps_nil, List.append_nil, Stmt.steps]
    · simp [quiet]
    · simp

end

section

variable {slots : SlotTable}

theorem Lowers.eq_nil_of_hidden {place path e s} (h : Lowers slots place path e s) (hidden : isRendered e = false) :
    s = [] := by
  cases h with
  | template => rfl
  | _ => cases hidden

mutual

theorem Lowers.distinct {place path e s} (h : Lowers slots place path e s) :
    Distinct (path <+: ·.path) (declared (steps s)) := by
  match h with
  | .tag content =>
    rw [declared_elementStatements plain_nil]
    exact content.distinct.cons (by simp [InList, Among.not_own]) (List.prefix_refl _) fun _ => InList.under
  | .synced content =>
    rw [declared_elementStatements (syncStatements_plain _ trivial)]
    exact content.distinct.cons (by simp [InList, Among.not_own]) (List.prefix_refl _) fun _ => InList.under
  | .text => exact textStatements_distinct _
  | .component content =>
    rw [declared_component]
    exact content.distinct.mono fun _ => Among.under
  | .conditional put content others final =>
    have first := content.distinct.mono fun _ => InList.under
    have last := otherwise_distinct final.distinct
    have later := others.distinct.last (n := (1 ≤ ·)) last (by unfold Within; omega) (by omega) fun j h => h.1
    have all := first.next (n := fun _ => True) later (by omega) trivial fun _ _ => trivial
    simpa [Stmt.steps] using all.mono fun _ => Among.under
  | .each put content =>
    have body := content.distinct.mono fun _ => InList.under
    have line (loop : Loop) : Line.Quiet (loopLine loop) := loopLine_fits (each_anything _)
    simpa [Stmt.steps, (line _).quiet] using body
  | .choice put content final =>
    have last := lastClause_distinct (m := ⟨.subject, path⟩) final.distinct
    have clauses := content.distinct.last (n := fun _ => True) last (by unfold Within; omega) trivial fun _ _ => trivial
    rw [declared_regionStatements, declared_switchStatements, clauseSteps_append, declared_append]
    exact clauses.cons (Among.not_own rfl) (List.prefix_refl _) fun _ => Among.under
  | .switch put sole content =>
    have clauses := content.distinct
    rw [declared_regionStatements, declared_switchStatements, clauseSteps_append, declared_append]
    have ending : ∀ hasDefault : Bool, declared (clauseSteps
        (if hasDefault then [] else [exhaustiveClause ⟨.subject, path⟩])) = [] := by
      intro hasDefault
      cases hasDefault <;> simp
    rw [ending, List.append_nil]
    exact clauses.cons (Among.not_own rfl) (List.prefix_refl _) fun _ => Among.under
  | .requiredSlot _ _ | .optionalSlot _ _ => simpa [Action.line, Line.nodes] using Distinct.nil
  | .templateUse =>
    have line (name : String) (args : List Code) :
        (Action.templateUse name place args).line.Fits anything place.temps := by
      have named : anything.Name name := trivial
      have coded (text : String) : anything.Code text := trivial
      simp [Action.line, named, coded]
    simpa [(line _ _).quiet] using Distinct.nil
  | .fallbackSlot _ _ content =>
    have body := content.distinct.mono fun _ => InList.under
    simpa [Stmt.steps, Line.filler, Line.nodes] using body
  | .template => exact Distinct.nil

theorem LowersList.distinct {place path es s} (h : LowersList slots place path es s) :
    Distinct (InList path es) (declared (steps s)) := by
  match h with
  | .gathered put content => exact gatherStatements_distinct content.distinct

theorem LowersFrom.distinct {place path i es s} (h : LowersFrom slots place path i es s) :
    Distinct (Among path (Numbered es true i)) (declared (steps s)) := by
  match h with
  | .nil => exact Distinct.nil
  | @LowersFrom.cons _ _ _ _ e es first rest head tail =>
    have later := tail.distinct
    rw [steps_append, declared_append]
    cases shown : isRendered e with
    | true =>
      refine head.distinct.next later ?_ ?_ fun _ => Numbered.cons
      · exact fun h => Nat.not_succ_le_self i h.1
      · exact ⟨Nat.le_refl i, e, by simp, shown⟩
    | false =>
      rw [head.eq_nil_of_hidden shown]
      exact later.mono fun _ among => among.mono fun _ => Numbered.cons

theorem LowersOptional.distinct {place path body s} (h : LowersOptional slots place path body s) :
    ∀ found ∈ s, Distinct (path <+: ·.path) (declared (steps found)) := by
  match h with
  | .none => simp
  | .some content =>
    intro found eq
    cases eq
    exact content.distinct.mono fun _ => InList.under

theorem LowersElseIfs.distinct {place path i elseIfs branches}
    (h : LowersElseIfs slots place path i elseIfs branches) :
    Distinct (Among path (Within i elseIfs.length)) (declared (branchSteps branches)) := by
  match h with
  | .nil => simpa [branchSteps] using Distinct.nil
  | .cons head tail =>
    have all := (head.distinct.mono fun _ => InList.under).within tail.distinct
    simpa [branchSteps] using all

theorem LowersMatchCases.distinct {place path i cases clauses}
    (h : LowersMatchCases slots place path i cases clauses) :
    Distinct (Among path (Within i cases.length)) (declared (clauseSteps clauses)) := by
  match h with
  | .nil => simpa using Distinct.nil
  | .skip _ tail => exact tail.distinct.mono fun _ among => among.mono fun _ => Within.later
  | .cons _ head tail =>
    have all := (head.distinct.mono fun _ => InList.under).within tail.distinct
    simpa [Action.line] using all

theorem LowersSwitchCases.distinct {place path i hasDefault cases clauses}
    (h : LowersSwitchCases slots place hasDefault path i cases clauses) :
    Distinct (Among path (Within i cases.length)) (declared (clauseSteps clauses)) := by
  match h with
  | .nil => simpa using Distinct.nil
  | .cons head tail =>
    have all := (head.distinct.mono fun _ => InList.under).within tail.distinct
    simpa using all

theorem LowersInsertions.distinct {path i insertions fillings}
    (h : LowersInsertions slots path i insertions fillings) :
    Distinct (Among path (Within i insertions.length)) (declared (fillingSteps fillings)) := by
  match h with
  | .nil => simpa [fillingSteps] using Distinct.nil
  | .cons head tail =>
    have all := (head.distinct.mono fun _ => InList.under).within tail.distinct
    simpa [fillingSteps, Line.filler] using all

end

theorem LowersTemplates.distinct {i es s} (h : LowersTemplates slots i es s) :
    Distinct (Among [] (Numbered es false i)) (declared (steps s)) := by
  induction h with
  | nil => exact Distinct.nil
  | @template i name params body span entities statements rest head tail ih =>
    have first : Distinct ([] ++ [i] <+: ·.path) (declared (steps statements)) :=
      head.distinct.mono fun _ => InList.under
    have all := first.next (n := Numbered (.template name params body span :: entities) false i) ih
      (fun h => Nat.not_succ_le_self i h.1) ⟨Nat.le_refl i, .template name params body span, by simp, rfl⟩
        fun _ => Numbered.cons
    have line : Line.Quiet (templateLine name params) := templateLine_fits trivial fun _ _ => trivial
    simpa [Stmt.steps, line.quiet] using all
  | other shown tail ih => exact ih.mono fun _ among => among.mono fun _ => Numbered.cons

theorem ofEntities_distinct {es s} (h : ofEntities slots es = .ok s) : (declared (steps s)).Nodup := by
  obtain ⟨templates, body, hoisted, shown, rfl⟩ := ofEntities_lowers h
  rw [steps_append, declared_append]
  refine (hoisted.distinct.append (r := fun _ => True) shown.distinct ?_ (fun _ _ => trivial) fun _ _ => trivial).1
  intro t among inside
  rcases inside with own | among'
  · exact Among.not_own (congrArg Temp.path own) among
  · obtain ⟨j, ⟨-, e, found, hidden⟩, -, e', found', shown'⟩ := among.common among'
    obtain rfl : e = e' := Option.some.inj (found.symm.trans found')
    simp [hidden] at shown'

end

/-- Lines outside the component's content: they are complete and have nothing to do with its constants. -/
def Outer (S : Standard) (s : Steps) : Prop := Scoped S [] s [] ∧ declared s = []

section

variable {S : Standard} {a b : Steps} {line : Line}

theorem outer_nil : Outer S [] := ⟨Scoped.nil, rfl⟩

theorem Outer.append (first : Outer S a) (second : Outer S b) : Outer S (a ++ b) :=
  ⟨first.1.append second.1, by simp [first.2, second.2]⟩

theorem outer_line (fits : line.Fits S []) : Outer S [.line line] := ⟨Scoped.plainLine fits, by simp [fits.quiet]⟩

theorem outer_push (fits : line.Fits S []) : Outer S [.push line] := by
  obtain ⟨inScope, quiet⟩ := outer_line fits
  exact ⟨⟨inScope.each, inScope.runs⟩, quiet⟩

theorem outer_newline : Outer S [.newline] := ⟨⟨each_nil, fun block outer _ => by simp [Blocks.step]⟩, rfl⟩

theorem names_fit [S.Admits] {names : List String} (named : ∀ name ∈ names, S.Name name) :
    (Line.join ", " (names.map fun name => [.name name])).Fits S [] :=
  fits_join_map (by decide) fun name mem => by simpa using named name mem

theorem creationSteps_outer [S.Admits] {creation} (named : ∀ name ∈ createdNames creation, S.Name name) :
    Outer S (creationSteps creation) := by
  unfold creationSteps
  split
  · exact outer_nil
  · exact outer_line (by simp)
  · exact outer_line (by simp)
  · exact outer_line (by simpa [createdNames] using names_fit named)

theorem componentSteps_outer [S.Admits] {c s} (named : ∀ name ∈ createdNames c.creation, S.Name name)
    (body : InScope S [] s) :
    Scoped S [] (componentSteps c (steps s)) [] ∧ declared (componentSteps c (steps s)) = declared (steps s) := by
  obtain ⟨given, ran⟩ := body
  have creation := creationSteps_outer named
  have opens : Line.Fits S [] [.fixed "const ___Component: ___ComponentDefinition<",
      .fixed (if c.hasType then "Component" else "\x7b\x7d"),
      .fixed "> = (___realParent, ___parent, $props, $syncs, $events, $slots) => \x7b"] := by
    cases c.hasType <;> simp
  have block := (creation.1.append ran).inside.block _ [.fixed "\x7d;"] opens (by simp)
  have ending : Outer S [.newline, .line [.fixed "export default ___Component;"]] :=
    outer_newline.append (outer_line (by simp))
  constructor
  · simpa [componentSteps] using block.append ending.1
  · simp [componentSteps, creation.2]
    rfl

end

theorem importSteps_outer (names : List String) (runtime : String) : Outer anything (importSteps names runtime) := by
  have type : Outer anything [.line [.fixed "import type \x7b ComponentDefinition as ___ComponentDefinition \x7d from ",
      .quoted runtime, .fixed ";"]] := outer_line (by simp [anything])
  have named := names_fit (S := anything) fun name (_ : name ∈ names) => trivial
  unfold importSteps
  refine Outer.append ?_ (type.append outer_newline)
  split
  · exact outer_nil
  · exact outer_line (by simpa [anything] using named)

theorem scriptSteps_outer (script : Option String) : Outer anything (scriptSteps script) := by
  unfold scriptSteps
  split
  · exact outer_nil
  · split
    · exact outer_nil
    · exact (outer_push (by simp [anything])).append (outer_newline.append outer_newline)

theorem additionSteps_outer (addition : Addition) : Outer anything (additionSteps addition) := by
  unfold additionSteps
  dsimp only
  split
  · exact outer_nil
  · exact outer_newline.append ((outer_push (by simp [anything])).append outer_newline)

theorem additions_outer (additions : List Addition) : Outer anything (additions.flatMap additionSteps) := by
  induction additions with
  | nil => exact outer_nil
  | cons addition additions ih => exact (additionSteps_outer addition).append ih

/-- In a generated module no two constants have the same name, and every reference to one is behind its
declaration and in the block of the declaration or deeper. -/
theorem generated_constants {c : Component} {script : Option String} {additions : List Addition}
    {runtime code : String} (h : generate c script additions runtime = .ok code) :
    ∃ statements, ofEntities c.slots c.entities = .ok statements ∧
      let lines := moduleSteps c script additions runtime (steps statements)
      code = (({} : Text.Writer).run (lines.map (Step.map Line.text))).code ∧
      ((declared lines).map Temp.name).Nodup ∧ Blocks.run [[]] lines = some [[]] := by
  obtain ⟨statements, lowered, done⟩ := bind_ok h
  cases done
  have component := componentSteps_outer (c := c) (fun _ _ => trivial) (ofEntities_sound lowered (each_anything _))
  have header := (importSteps_outer (importedNames (steps statements) additions) runtime).append
    (scriptSteps_outer script)
  have footer := additions_outer additions
  refine ⟨statements, lowered, rfl, ?_, ?_⟩
  · have names :
        declared (moduleSteps c script additions runtime (steps statements)) = declared (steps statements) := by
      unfold moduleSteps
      rw [declared_append, declared_append, header.2, component.2, footer.2, List.nil_append, List.append_nil]
    rw [names]
    exact List.pairwise_map.2 ((ofEntities_distinct lowered).imp fun other same => other (Temp.name_injective same))
  · exact ((header.1.append component.1).append footer.1).runs [] [] (by simp)

theorem generated_constants_switch :
    let c : Component := { entities :=
      [.template "t" [] [.tag { name := "p", span := ⟨0, 1⟩ } []] ⟨0, 1⟩,
        .tag { name := "div", span := ⟨2, 3⟩ }
          [.text [.reactive ⟨"n()", true, ⟨4, 5⟩⟩] ⟨4, 5⟩,
            .choice ⟨⟨"n", true, ⟨6, 7⟩⟩, false⟩ [] (some [.templateUse "t" [] ⟨8, 9⟩]) ⟨6, 9⟩]] }
    ∃ code, generate c none [] defaultRuntime = .ok code ∧
      ∃ statements, ofEntities c.slots c.entities = .ok statements ∧
        let lines := moduleSteps c none [] defaultRuntime (steps statements)
        code = (({} : Text.Writer).run (lines.map (Step.map Line.text))).code ∧
        ((declared lines).map Temp.name).Nodup ∧ Blocks.run [[]] lines = some [[]] := by
  refine Exists.imp (fun code made => ⟨made, generated_constants made⟩) ?_
  exact ⟨_, rfl⟩

end ComponentCompiler.Program
