import ComponentCompiler.Proofs.Program.Lowering
import ComponentCompiler.Proofs.Program.Parts

/-!
# Lines of programs

`Blocks.run` walks through the lines of a program and stops at one that refers to a constant it cannot see. It gets
through every program, and what the parts of the forms meet is met by all pieces: `ofEntities_sound`.
-/

namespace ComponentCompiler.Program

open Template
open Text.Writer (Step)

def Line.declared (line : Line) : List Temp := line.flatMap Piece.declared

def Line.referred (line : Line) : List Temp := line.flatMap Piece.referred

def declared (steps : Steps) : List Temp :=
  steps.flatMap fun
    | .line line | .enter line | .leave line | .push line => line.declared
    | _ => []

/-- The blocks that are open, innermost first, and the constants declared in each so far. -/
abbrev Blocks := List (List Temp)

namespace Blocks

def sees (blocks : Blocks) (t : Temp) : Bool := blocks.any (·.contains t)

def pass (line : Line) : Blocks → Option Blocks
  | [] => none
  | block :: outer =>
    if line.referred.all (sees (block :: outer)) then some ((block ++ line.declared) :: outer) else none

def step (blocks : Blocks) : Step Line → Option Blocks
  | .line line | .push line => blocks.pass line
  | .enter line => (blocks.pass line).map ([] :: ·)
  | .leave line => pass line blocks.tail
  | .indent => some ([] :: blocks)
  | .dedent => some blocks.tail
  | .newline => some blocks

def run (blocks : Blocks) (steps : Steps) : Option Blocks := steps.foldlM step blocks

@[simp] theorem run_nil (blocks : Blocks) : run blocks [] = some blocks := rfl

@[simp] theorem run_cons (blocks : Blocks) (s : Step Line) (steps : Steps) :
    run blocks (s :: steps) = (blocks.step s).bind fun next => run next steps := rfl

theorem run_append (blocks : Blocks) (a b : Steps) :
    run blocks (a ++ b) = (run blocks a).bind fun next => run next b := by
  simp [run]

theorem sees_cons {block outer t} : sees (block :: outer) t = true ↔ t ∈ block ∨ sees outer t = true := by
  simp [sees]

theorem pass_eq {line block outer} (seen : ∀ t ∈ line.referred, sees (block :: outer) t = true) :
    pass line (block :: outer) = some ((block ++ line.declared) :: outer) := by
  simp only [pass]
  rw [if_pos (List.all_eq_true.2 seen)]

end Blocks

section

variable {S : Standard}

@[simp] theorem Line.declared_cons (p : Piece) (line : Line) : declared (p :: line) = p.declared ++ line.declared := rfl

@[simp] theorem Line.declared_nil : declared [] = [] := rfl

@[simp] theorem Line.declared_append (a b : Line) : declared (a ++ b) = a.declared ++ b.declared := List.flatMap_append

theorem Line.Fits.quiet {needed} {line : Line} (h : line.Fits S needed) : line.declared = [] :=
  List.flatMap_eq_nil_iff.2 fun p mem => (h p mem).2.1

theorem Line.Fits.seen {needed} {line : Line} (h : line.Fits S needed) : line.referred ⊆ needed := by
  intro t mem
  obtain ⟨p, inside, refers⟩ := List.mem_flatMap.1 mem
  exact (h p inside).2.2 refers

end

/-- Where the constants in `needed` are seen, the lines see all they refer to, end in the block they start in
and leave the constants in `given` declared there. Their pieces are up to the standard. -/
structure Scoped (S : Standard) (needed : List Temp) (steps : Steps) (given : List Temp) : Prop where
  each : Each S (linePieces steps)
  runs (block : List Temp) (outer : Blocks) : (∀ t ∈ needed, Blocks.sees (block :: outer) t = true) →
    Blocks.run (block :: outer) steps = some ((block ++ given) :: outer)

/-- The same for lines inside a block: they may end it and go on in another one in its place. -/
structure Inside (S : Standard) (needed : List Temp) (steps : Steps) : Prop where
  each : Each S (linePieces steps)
  runs (block next : List Temp) (outer : Blocks) : (∀ t ∈ needed, Blocks.sees (next :: outer) t = true) →
    ∃ last, Blocks.run (block :: next :: outer) steps = some (last :: next :: outer)

section

variable {S : Standard} {needed given more : List Temp} {a b body : Steps} {line : Line}

theorem Scoped.nil : Scoped S needed [] [] := ⟨each_nil, by simp⟩

theorem Scoped.append (before : Scoped S needed a given) (after : Scoped S (needed ++ given) b more) :
    Scoped S needed (a ++ b) (given ++ more) where
  each := by simp [before.each, after.each]
  runs block outer seen := by
    have next : ∀ t ∈ needed ++ given, Blocks.sees ((block ++ given) :: outer) t = true := by
      intro t mem
      rw [Blocks.sees_cons, List.mem_append]
      rcases List.mem_append.1 mem with mem | mem
      · rcases Blocks.sees_cons.1 (seen t mem) with here | there
        · exact .inl (.inl here)
        · exact .inr there
      · exact .inl (.inr mem)
    rw [Blocks.run_append, before.runs block outer seen, Option.bind_some, after.runs _ _ next, List.append_assoc]

theorem Scoped.mono {wider} (h : Scoped S needed a given) (sub : needed ⊆ wider) : Scoped S wider a given :=
  ⟨h.each, fun block outer seen => h.runs block outer fun t mem => seen t (sub mem)⟩

theorem Scoped.ofLine (each : Each S line) (seen : line.referred ⊆ needed) :
    Scoped S needed [.line line] line.declared where
  each := by simpa [linePieces] using each
  runs block outer visible := by simp [Blocks.step, Blocks.pass_eq fun t mem => visible t (seen mem)]

theorem Scoped.plainLine (fits : line.Fits S needed) : Scoped S needed [.line line] [] := by
  have inScope := Scoped.ofLine fits.each fits.seen
  rwa [fits.quiet] at inScope

theorem Scoped.inside (h : Scoped S needed a given) : Inside S needed a where
  each := h.each
  runs block next outer seen :=
    ⟨block ++ given, h.runs block (next :: outer) fun t mem => Blocks.sees_cons.2 (.inr (seen t mem))⟩

theorem Inside.append (before : Inside S needed a) (after : Inside S needed b) : Inside S needed (a ++ b) where
  each := by simp [before.each, after.each]
  runs block next outer seen := by
    obtain ⟨middle, ran⟩ := before.runs block next outer seen
    obtain ⟨last, ran'⟩ := after.runs middle next outer seen
    exact ⟨last, by rw [Blocks.run_append, ran, Option.bind_some, ran']⟩

theorem Inside.turn (fits : line.Fits S needed) (h : Inside S needed a) :
    Inside S needed (.leave line :: .indent :: a) where
  each := each_append.2 ⟨fits.each, h.each⟩
  runs block next outer visible := by
    obtain ⟨last, ran⟩ := h.runs [] next outer visible
    refine ⟨last, ?_⟩
    simp [Blocks.step, Blocks.pass_eq fun t mem => visible t (fits.seen mem), fits.quiet, ran]

theorem Inside.block (first last : Line) (h : Inside S needed body) (opens : first.Fits S needed)
    (closes : last.Fits S needed) :
    Scoped S needed (.enter first :: body ++ [.leave last]) [] where
  each := by
    have ending : linePieces [.leave last] = last := List.append_nil _
    rw [linePieces_append, ending]
    exact each_append.2 ⟨each_append.2 ⟨opens.each, h.each⟩, closes.each⟩
  runs block outer visible := by
    obtain ⟨inner, ran⟩ := h.runs [] block outer visible
    have entered := Blocks.pass_eq fun t mem => visible t (opens.seen mem)
    have left := Blocks.pass_eq fun t mem => visible t (closes.seen mem)
    rw [List.cons_append, Blocks.run_cons, Blocks.step, entered, opens.quiet, List.append_nil, Option.map_some,
      Option.bind_some, Blocks.run_append, ran]
    simp [Blocks.step, left, closes.quiet]

end

@[simp] theorem declared_nil : declared [] = [] := rfl

@[simp] theorem declared_append (a b : Steps) : declared (a ++ b) = declared a ++ declared b := List.flatMap_append

@[simp] theorem declared_line (line : Line) (s : Steps) :
    declared (.line line :: s) = line.declared ++ declared s := rfl

@[simp] theorem declared_enter (line : Line) (s : Steps) :
    declared (.enter line :: s) = line.declared ++ declared s := rfl

@[simp] theorem declared_leave (line : Line) (s : Steps) :
    declared (.leave line :: s) = line.declared ++ declared s := rfl

@[simp] theorem declared_indent (s : Steps) : declared (.indent :: s) = declared s := rfl

@[simp] theorem steps_nil : steps [] = [] := by simp [steps]

@[simp] theorem steps_cons (s : Stmt) (rest : List Stmt) : steps (s :: rest) = s.steps ++ steps rest := by simp [steps]

@[simp] theorem steps_append (a b : List Stmt) : steps (a ++ b) = steps a ++ steps b := by
  induction a with
  | nil => rfl
  | cons s a ih => rw [List.cons_append, steps_cons, steps_cons, ih, List.append_assoc]

@[simp] theorem clauseSteps_append (a b : List Clause) : clauseSteps (a ++ b) = clauseSteps a ++ clauseSteps b := by
  induction a with
  | nil => simp [clauseSteps]
  | cons clause a ih =>
    obtain ⟨label, body⟩ := clause
    simp [clauseSteps, ih]

def Plain (S : Standard) (needed : List Temp) (s : List Stmt) : Prop :=
  Scoped S needed (steps s) [] ∧ declared (steps s) = []

def InScope (S : Standard) (needed : List Temp) (s : List Stmt) : Prop := ∃ given, Scoped S needed (steps s) given

section

variable {S : Standard} {needed given : List Temp} {s rest : List Stmt} {a : Action}

theorem plain_nil : Plain S needed [] := ⟨Scoped.nil, rfl⟩

theorem Plain.append (first : Plain S needed s) (second : Plain S needed rest) : Plain S needed (s ++ rest) := by
  constructor
  · rw [steps_append]
    exact first.1.append (second.1.mono (List.subset_append_left _ _))
  · simp [first.2, second.2]

theorem Plain.mono {wider} (h : Plain S needed s) (sub : needed ⊆ wider) : Plain S wider s := ⟨h.1.mono sub, h.2⟩

theorem plain_act (fits : a.line.Fits S needed) : Plain S needed [.act a] := by
  constructor
  · simpa [Stmt.steps] using Scoped.plainLine fits
  · simp [Stmt.steps, fits.quiet]

theorem plain_map {α : Type} {xs : List α} {f : α → Stmt} (each : ∀ x ∈ xs, Plain S needed [f x]) :
    Plain S needed (xs.map f) := by
  induction xs with
  | nil => exact plain_nil
  | cons x xs ih =>
    obtain ⟨here, others⟩ := List.forall_mem_cons.1 each
    exact here.append (ih others)

theorem Plain.inScope (h : Plain S needed s) : InScope S needed s := ⟨[], h.1⟩

theorem InScope.mono {wider} (h : InScope S needed s) (sub : needed ⊆ wider) : InScope S wider s :=
  h.imp fun _ inner => inner.mono sub

theorem InScope.append (first : InScope S needed s) (second : InScope S needed rest) :
    InScope S needed (s ++ rest) := by
  obtain ⟨given, ran⟩ := first
  obtain ⟨more, ran'⟩ := second
  refine ⟨given ++ more, ?_⟩
  rw [steps_append]
  exact ran.append (ran'.mono (List.subset_append_left _ _))

theorem InScope.single {x : Stmt} (h : Scoped S needed x.steps []) : InScope S needed [x] := ⟨[], by simpa using h⟩

theorem clauseSteps_nil : Scoped S needed (clauseSteps []) [] := by simpa [clauseSteps] using Scoped.nil

theorem each_switchForm {value body falls span} : Each S (SwitchCase.mk value body falls span).form.parts ↔
    (∀ text ∈ (switchLabel value).expressions, S.Code text) ∧ Each S (partsOf (formsOf body)) := by
  cases value <;> simp [SwitchCase.form, Form.parts, Keyword.pieces, switchLabel, Label.expressions]

theorem InScope.inside (h : InScope S needed s) : Inside S needed (steps s) := by
  obtain ⟨_, inner⟩ := h
  exact inner.inside

end

section

variable {S : Standard} [S.Admits] {needed : List Temp} {s : List Stmt} {a : Action} {e m : Temp}
  {place : Place} {path : Path}

theorem plain_effect (fits : a.line.Fits S needed) : Plain S needed [.effect a] := by
  constructor
  · simpa [Stmt.steps, effectSteps] using (Scoped.plainLine fits).inside.block
      [.helper .effect, .fixed "(() => \x7b"] [.fixed "\x7d);"] (by simp) (by simp)
  · simp [Stmt.steps, effectSteps, fits.quiet]

theorem InScope.declaring {t} {line : Line} (declares : a.line = .fixed "const " :: .declare t :: line)
    (fits : line.Fits S needed)
    (later : InScope S (needed ++ [t]) s) : InScope S needed (.act a :: s) := by
  obtain ⟨given, ran⟩ := later
  have each : Each S a.line := by simp [declares, fits.each]
  have seen : a.line.referred ⊆ needed := by
    rw [declares]
    exact fits.seen
  have new : a.line.declared = [t] := by simp [declares, fits.quiet]
  have first := Scoped.ofLine each seen
  rw [new] at first
  exact ⟨[t] ++ given, by simpa [Stmt.steps] using first.append ran⟩

theorem following_plain (liveness : Liveness) (fits : a.line.Fits S needed) :
    Plain S needed [following liveness a] := by
  unfold following
  split
  · exact plain_effect fits
  · exact plain_act fits

theorem plain_selectOptions {signal : Code} (coded : S.Code signal.text) : Plain S [e] [.selectOptions e signal] := by
  have option : Line.Fits S [e] [.fixed "___option.selected = ___selected.includes(___option.value);"] := by simp
  have selected : Line.Fits S [e] [.fixed "const ___selected = ", .callee signal, .fixed "();"] := by simp [coded]
  have loop := (Scoped.plainLine option).inside.block
    [.fixed "for (const ___option of Array.from(", Line.temp e, .fixed ".options)) \x7b"] [.fixed "\x7d"]
      (by simp) (by simp)
  have body := ((Scoped.plainLine selected).append (loop.mono (List.subset_append_left _ _))).inside
  constructor
  · simpa [Stmt.steps, selectOptionsSteps, effectSteps] using
      body.block [.helper .effect, .fixed "(() => \x7b"] [.fixed "\x7d);"] (by simp) (by simp)
  · rfl

theorem syncStatements_plain (kind : SyncKind) {signal} (coded : S.Code signal.text) :
    Plain S [e] (syncStatements e kind signal) := by
  have act {a : Action} (fits : a.line.Fits S [e]) := plain_act fits
  match kind with
  | .text | .checkbox | .select false => exact act (by simp [Action.line, coded])
  | .radio =>
    have check : (Action.checkRadio e signal).line.Fits S [e] := by simp [Action.line, coded]
    have listen : (Action.listenRadio e signal).line.Fits S [e] := by simp [Action.line, coded]
    exact (plain_effect check).append (plain_act listen)
  | .select true =>
    have listen : (Action.listenOptions e signal).line.Fits S [e] := by simp [Action.line, coded]
    exact (plain_selectOptions coded).append (plain_act listen)

theorem settings_plain (e : Temp) (tag : Tag) (syncs : List Sync) (properties : Each S (tag.head syncs).properties)
    (meets : Each S (tag.head syncs).values) :
    Plain S [e] ((tag.id.toList.map fun id => .act (.setId e id))
      ++ (tag.bindings.map fun b => following b.value.liveness (.bind e b.name b.value))
      ++ (tag.listeners.map fun l => .act (.listen e l))) := by
  obtain ⟨-, bindings, listeners, -⟩ := each_values.1 meets
  refine Plain.append (Plain.append ?_ ?_) ?_
  · exact plain_map fun id _ => plain_act (by simp [Action.line])
  · exact plain_map fun b mem => following_plain _
      (bindingLine_fits List.mem_cons_self (each_properties.1 properties b mem) (bindings b mem))
  · exact plain_map fun l mem =>
      plain_act (by simp [Action.line, listenerFunction_fits (listeners l mem), optionsLine_fits])

theorem closingStatements_plain {tag : Tag} {sync place} (receivers : ∀ r ∈ tag.receivers, S.Code r.code.text)
    (quiet : Plain S [e] sync) : Plain S (place.node.temps ++ [e]) (closingStatements e tag sync place) := by
  have own : [e] ⊆ place.node.temps ++ [e] := List.subset_append_right _ _
  have received : Plain S [e] (tag.receivers.map fun r => .act (.receive e r.code)) :=
    plain_map fun r mem => plain_act (by simp [Action.line, receivers r mem])
  exact ((quiet.append received).mono own).append (plain_act (by simp [Action.line]))

theorem elementStatements_inScope {tag syncs sync} (properties : Each S (tag.head syncs).properties)
    (meets : Each S (tag.head syncs).values) (quiet : Plain S [e] sync) (content : InScope S [e] s) :
    InScope S place.temps (elementStatements e tag sync place s) := by
  obtain ⟨classes, -, -, -, receivers⟩ := each_values.1 meets
  have own : [e] ⊆ place.temps ++ [e] := List.subset_append_right _ _
  have outer : place.node.temps ++ [e] ⊆ place.temps ++ [e] := by simp [Place.temps]
  have later := (((settings_plain e tag syncs properties meets).inScope.append content).mono own).append
    ((closingStatements_plain receivers quiet).inScope.mono outer)
  have created : (creationLine tag.name tag.classes).Fits S place.temps := creationLine_fits classes
  have all := InScope.declaring (a := .createElement e tag.name tag.classes) rfl (by simp [created]) later
  simpa [elementStatements, openingStatements] using all

theorem textStatements_inScope {items} (meets : S.Content items) :
    InScope S place.temps (textStatements path place items) := by
  unfold textStatements
  dsimp only
  split
  · exact (following_plain _ (by simp [Action.line, meets, Place.temps])).inScope
  · split
    · have data : (Action.setData ⟨.text, path⟩ items).line.Fits S (place.temps ++ [⟨.text, path⟩]) := by
        simp [Action.line, meets]
      have put : (Action.append place.node ⟨.text, path⟩).line.Fits S (place.temps ++ [⟨.text, path⟩]) := by
        simp [Action.line, Place.temps]
      exact InScope.declaring rfl (by simp) ((plain_effect data).append (plain_act put)).inScope
    · exact (plain_act (by simp [Action.line, meets, Place.temps])).inScope

theorem gatherStatements_inScope {count} (h : InScope S (gatherPlace place path count).temps s) :
    InScope S place.temps (gatherStatements place path count s) := by
  have real : place.real.temps ⊆ place.temps := List.subset_append_left _ _
  unfold gatherPlace at h
  unfold gatherStatements
  split at h
  · rename_i wide
    rw [if_pos wide]
    refine InScope.declaring (a := .createFragment ⟨.fragment, path⟩) rfl (by simp) (InScope.append ?_ ?_)
    · exact h.mono (List.append_subset.2
        ⟨fun t mem => List.mem_append_left _ (real mem), List.subset_append_right _ _⟩)
    · exact (plain_act (by simp [Action.line, Place.temps])).inScope
  · rename_i narrow
    rw [if_neg narrow]
    split at h <;> exact h

theorem regionStatements_inScope {reactive} (h : InScope S (regionPlace reactive place).temps s) :
    InScope S place.temps (regionStatements reactive place s) := by
  cases reactive with
  | false => exact h
  | true =>
    have inner : Inside S place.temps (steps s) := (h.mono (List.nil_subset _)).inside
    refine .single ?_
    rw [Stmt.steps]
    exact inner.block _ _ (regionLine_fits place) (by simp)

theorem clause_scoped {label body} (coded : ∀ text ∈ label.expressions, S.Code text) (h : Inside S needed body) :
    Scoped S needed (labelSteps label ++ body ++ [.leave [.fixed "\x7d"]]) [] := by
  cases label with
  | default => exact h.block [.fixed "default: \x7b"] _ (by simp) (by simp)
  | values others last =>
    simp only [Label.expressions, List.map_append, List.forall_mem_append, List.forall_mem_map] at coded
    obtain ⟨before, here⟩ := coded
    have block := h.block [.fixed "case ", .code last.text, .fixed ": \x7b"] [.fixed "\x7d"]
      (by simp [here last List.mem_cons_self]) (by simp)
    unfold labelSteps
    induction others with
    | nil => exact block
    | cons code others ih =>
      obtain ⟨first, later⟩ := List.forall_mem_cons.1 before
      have line : Line.Fits S needed [.fixed "case ", .code code.text, .fixed ":"] := by simp [first]
      exact (Scoped.plainLine line).append ((ih later).mono (List.subset_append_left _ _))

theorem switchStatements_inScope {value clauses} (coded : S.Code value.text)
    (h : Scoped S (needed ++ [m]) (clauseSteps clauses) []) : InScope S needed (switchStatements m value clauses) := by
  refine InScope.declaring (a := .declareSubject m value) rfl (by simp [coded]) (.single ?_)
  rw [Stmt.steps]
  exact h.inside.block _ _ (by simp) (by simp)

theorem clauseSteps_scoped {label ending clauses} (coded : ∀ text ∈ label.expressions, S.Code text)
    (body : InScope S needed s) (end_ : Plain S needed ending) (later : Scoped S needed (clauseSteps clauses) []) :
    Scoped S needed (clauseSteps (.mk label (s ++ ending) :: clauses)) [] := by
  unfold clauseSteps
  exact (clause_scoped coded (body.append end_.inScope).inside).append (later.mono (List.subset_append_left _ _))

theorem break_plain : Plain S needed [.act .break] := plain_act (by simp [Action.line])

theorem default_scoped {ending} (body : InScope S needed s) (end_ : Plain S needed ending) :
    Scoped S needed (clauseSteps [.mk .default (s ++ ending)]) [] :=
  clauseSteps_scoped (by simp [Label.expressions]) body end_ clauseSteps_nil

theorem exhaustiveClause_scoped (m : Temp) : Scoped S (needed ++ [m]) (clauseSteps [exhaustiveClause m]) [] :=
  default_scoped plain_nil.inScope (plain_act (by simp [Action.line]))

theorem lastClause_scoped {last} (h : ∀ s ∈ last, InScope S needed s) :
    Scoped S (needed ++ [m]) (clauseSteps [lastClause m last]) [] := by
  cases last with
  | none => exact exhaustiveClause_scoped m
  | some s => exact (default_scoped (h s rfl) break_plain).mono (List.subset_append_left _ _)

theorem caseEnd_plain (falls hasDefault : Bool) (others : List SwitchCase) :
    Plain S needed (caseEnd falls hasDefault others) := by
  unfold caseEnd
  split
  · exact break_plain
  · exact plain_nil

theorem otherwise_inside {last} (h : ∀ s ∈ last, InScope S needed s) : Inside S needed (otherwiseSteps last) := by
  cases last with
  | none => simpa [otherwiseSteps] using Scoped.nil.inside
  | some s =>
    rw [otherwiseSteps]
    exact (h s rfl).inside.turn (by simp)

theorem component_inScope {inclusion fillings} (named : S.Name inclusion.name) (meets : Each S inclusion.head.values)
    (h : Scoped S [] (fillingSteps fillings) []) : InScope S place.temps [.component inclusion place fillings] := by
  have call := componentLine_fits (List.Subset.refl place.temps) named meets
  have inner : Inside S place.temps (fillingSteps fillings) := (h.mono (List.nil_subset _)).inside
  refine .single ?_
  cases fillings with
  | nil => simpa [Stmt.steps] using Scoped.plainLine (Line.fits_append.2 ⟨call, by simp⟩)
  | cons filling fillings =>
    rw [Stmt.steps]
    · exact inner.block _ _ (Line.fits_append.2 ⟨call, by simp⟩) (by simp)
    · simp

theorem fillingSteps_scoped {slot fillings} (body : InScope S [] s) (later : Scoped S [] (fillingSteps fillings) []) :
    Scoped S [] (fillingSteps (.mk slot s :: fillings)) [] := by
  unfold fillingSteps
  exact (body.inside.block _ _ (by simp [Line.filler]) (by simp)).append later

end

@[simp] theorem notLone_temps (place : Place) : place.notLone.temps = place.temps := rfl

@[simp] theorem switchPlace_temps (place : Place) (cases : List SwitchCase) :
    (switchPlace place cases).temps = place.temps := by
  unfold switchPlace
  split <;> rfl

theorem element_temps (e : Temp) : (Place.element e).temps ⊆ [e] := by
  simp [Place.element, Place.temps]

section

variable {S : Standard} [S.Admits] {slots : SlotTable}

set_option linter.unusedSectionVars false in
mutual

theorem Lowers.sound {place path e s} (h : Lowers slots place path e s) :
    Each S (partsOf e.forms) → InScope S place.temps s := by
  match h with
  | .tag content =>
    intro meets
    obtain ⟨head, children⟩ := each_append.1 (each_partsOf_cons.1 meets).1
    obtain ⟨properties, values⟩ := each_append.1 head
    exact elementStatements_inScope properties values plain_nil ((content.sound children).mono (element_temps _))
  | .synced content =>
    intro meets
    obtain ⟨head, children⟩ := each_append.1 (each_partsOf_cons.1 meets).1
    obtain ⟨properties, values⟩ := each_append.1 head
    obtain ⟨-, -, -, syncs, -⟩ := each_values.1 values
    exact elementStatements_inScope properties values (syncStatements_plain _ (syncs _ List.mem_cons_self))
      ((content.sound children).mono (element_temps _))
  | .text =>
    intro meets
    exact textStatements_inScope (each_cons.1 (each_partsOf_cons.1 meets).1).1
  | .component content =>
    intro meets
    obtain ⟨head, children⟩ := each_append.1 (each_partsOf_cons.1 meets).1
    obtain ⟨named, values⟩ := each_cons.1 head
    exact component_inScope named values (content.sound children)
  | .conditional put content others final =>
    intro meets
    obtain ⟨first, rest⟩ := each_partsOf_cons.1 meets
    obtain ⟨condition, body⟩ := each_append.1 first
    obtain ⟨elseIfs, otherwise⟩ := each_partsOf_append.1 rest
    have inner := ((content.sound body).inside.append (others.sound elseIfs)).append
      (otherwise_inside (final.sound otherwise))
    have tested := (each_cons.1 condition).1
    subst put
    refine regionStatements_inScope (.single ?_)
    rw [Stmt.steps]
    exact inner.block [.fixed "if (", .code _, .fixed ") \x7b"] _ (by simpa using tested) (by simp)
  | .each put content =>
    intro meets
    obtain ⟨loop, body⟩ := each_append.1 (each_partsOf_cons.1 meets).1
    have inner := (content.sound body).inside
    subst put
    refine regionStatements_inScope (.single ?_)
    rw [Stmt.steps]
    exact inner.block _ _ (loopLine_fits loop) (by simp)
  | .choice put content final =>
    intro meets
    obtain ⟨first, rest⟩ := each_partsOf_cons.1 meets
    obtain ⟨value, -⟩ := each_append.1 first
    obtain ⟨cases, default⟩ := each_partsOf_append.1 rest
    have listed := content.sound cases
    have last := final.sound default
    subst put
    refine regionStatements_inScope (switchStatements_inScope (each_cons.1 value).1 ?_)
    rw [clauseSteps_append]
    exact (listed.mono (List.subset_append_left _ _)).append
      ((lastClause_scoped last).mono (List.subset_append_left _ _))
  | .switch put sole content =>
    intro meets
    obtain ⟨first, rest⟩ := each_partsOf_cons.1 meets
    obtain ⟨value, -⟩ := each_append.1 first
    have listed := content.sound rest
    rw [switchPlace_temps] at listed
    subst put
    refine regionStatements_inScope (switchStatements_inScope (each_cons.1 value).1 ?_)
    rw [clauseSteps_append]
    refine (listed.mono (List.subset_append_left _ _)).append (Scoped.mono ?_ (List.subset_append_left _ _))
    split
    · exact clauseSteps_nil
    · exact exhaustiveClause_scoped _
  | .requiredSlot _ _ | .optionalSlot _ _ =>
    intro meets
    obtain ⟨slot, -⟩ := each_append.1 (each_partsOf_cons.1 meets).1
    have named := (each_cons.1 slot).1
    exact (plain_act (by simpa [Action.line] using named)).inScope
  | .fallbackSlot _ _ content =>
    intro meets
    obtain ⟨slot, body⟩ := each_append.1 (each_partsOf_cons.1 meets).1
    have named := (each_cons.1 slot).1
    have inner : InScope S place.temps _ := (content.sound body).mono (List.nil_subset _)
    refine .single ?_
    rw [Stmt.steps]
    exact inner.inside.block [.fixed "($slots.", .name _, .fixed " ?? (", Line.filler] _
      (by simpa [Line.filler] using named) (by simp)
  | .template => exact fun _ => plain_nil.inScope
  | .templateUse =>
    intro meets
    obtain ⟨use, -⟩ := each_append.1 (each_partsOf_cons.1 meets).1
    obtain ⟨named, args⟩ := each_cons.1 use
    have coded := each_map.1 args
    exact (plain_act (by simpa [Action.line] using ⟨named, coded⟩)).inScope

theorem LowersList.sound {place path es s} (h : LowersList slots place path es s) :
    Each S (partsOf (formsOf es)) → InScope S place.temps s := by
  match h with
  | .gathered put content =>
    intro meets
    have body := content.sound meets
    subst put
    exact gatherStatements_inScope body

theorem LowersFrom.sound {place path i es s} (h : LowersFrom slots place path i es s) :
    Each S (partsOf (formsOf es)) → InScope S place.temps s := by
  match h with
  | .nil => exact fun _ => plain_nil.inScope
  | .cons head tail =>
    intro meets
    rw [formsOf, each_partsOf_append] at meets
    exact (head.sound meets.1).append (tail.sound meets.2)

theorem LowersOptional.sound {place path body s} (h : LowersOptional slots place path body s) {keyword} :
    Each S (partsOf (lastForms keyword body)) → ∀ found ∈ s, InScope S place.temps found := by
  match h with
  | .none => simp
  | .some content =>
    intro meets found same
    cases same
    obtain ⟨-, children⟩ := each_append.1 (each_partsOf_cons.1 meets).1
    exact content.sound children

theorem LowersElseIfs.sound {place path i elseIfs branches} (h : LowersElseIfs slots place path i elseIfs branches) :
    Each S (partsOf (elseIfForms elseIfs)) → Inside S place.temps (branchSteps branches) := by
  match h with
  | .nil => simpa [branchSteps] using fun _ => Scoped.nil.inside
  | .cons head tail =>
    intro meets
    obtain ⟨first, rest⟩ := each_partsOf_cons.1 meets
    obtain ⟨condition, body⟩ := each_append.1 first
    have tested := (each_cons.1 condition).1
    rw [branchSteps]
    exact ((head.sound body).inside.append (tail.sound rest)).turn (by simpa using tested)

theorem LowersMatchCases.sound {place path i cases clauses} (h : LowersMatchCases slots place path i cases clauses) :
    Each S (partsOf (matchForms cases)) → Scoped S place.temps (clauseSteps clauses) [] := by
  match h with
  | .nil => exact fun _ => clauseSteps_nil
  | .skip _ tail =>
    intro meets
    exact tail.sound (each_partsOf_cons.1 meets).2
  | .cons labelled head tail =>
    intro meets
    obtain ⟨first, rest⟩ := each_partsOf_cons.1 meets
    obtain ⟨patterns, body⟩ := each_append.1 first
    have coded := each_map.1 patterns
    refine clauseSteps_scoped ?_ (head.sound body) break_plain (tail.sound rest)
    rw [matchLabel?_expressions labelled]
    exact List.forall_mem_map.2 coded

theorem LowersSwitchCases.sound {place path i hasDefault cases clauses}
    (h : LowersSwitchCases slots place hasDefault path i cases clauses) :
    Each S (partsOf (switchForms cases)) → Scoped S place.temps (clauseSteps clauses) [] := by
  match h with
  | .nil => exact fun _ => clauseSteps_nil
  | .cons head tail =>
    intro meets
    obtain ⟨first, rest⟩ := each_partsOf_cons.1 meets
    obtain ⟨coded, body⟩ := each_switchForm.1 first
    exact clauseSteps_scoped coded (head.sound body) (caseEnd_plain _ _ _) (tail.sound rest)

theorem LowersInsertions.sound {path i insertions fillings} (h : LowersInsertions slots path i insertions fillings) :
    Each S (partsOf (insertionForms insertions)) → Scoped S [] (fillingSteps fillings) [] := by
  match h with
  | .nil => simpa [fillingSteps] using fun _ => Scoped.nil
  | .cons head tail =>
    intro meets
    obtain ⟨first, rest⟩ := each_partsOf_cons.1 meets
    obtain ⟨-, body⟩ := each_append.1 first
    exact fillingSteps_scoped (head.sound body) (tail.sound rest)

end

theorem LowersTemplates.sound {i es s} (h : LowersTemplates slots i es s)
    (meets : Each S (partsOf (formsOf es))) : InScope S [] s := by
  induction h with
  | nil => exact plain_nil.inScope
  | @template i name params body span entities statements rest head tail ih =>
    obtain ⟨first, others⟩ := each_partsOf_cons.1 meets
    obtain ⟨keyword, children⟩ := each_append.1 first
    obtain ⟨named, coded⟩ := each_cons.1 keyword
    have shown : InScope S [] [.template name params statements] := by
      refine .single ?_
      rw [Stmt.steps]
      exact (head.sound children).inside.block _ _ (templateLine_fits named (each_map.1 coded)) (by simp)
    exact shown.append (ih others)
  | other shown tail ih =>
    rw [formsOf, each_partsOf_append] at meets
    exact ih meets.2

theorem ofEntities_sound {es s} (lowered : ofEntities slots es = .ok s) (meets : Each S (partsOf (formsOf es))) :
    InScope S [] s := by
  obtain ⟨templates, body, first, second, rfl⟩ := ofEntities_lowers lowered
  exact (first.sound meets).append (second.sound meets)

end

end ComponentCompiler.Program
