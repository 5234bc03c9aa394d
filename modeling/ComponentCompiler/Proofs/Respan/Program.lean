import ComponentCompiler.Proofs.Program.Scope
import ComponentCompiler.Proofs.Respan.Check

/-!
# Programs and positions

Main statement: `generate_respan`.
-/

namespace ComponentCompiler.Program

open Template
open Text.Writer (Step)

def Piece.shown (p : Piece) : String × List Helper := (p.text, Line.helpers [p])

def Line.shown (line : Line) : List (String × List Helper) := line.map Piece.shown

def shownBy : Step (List (String × List Helper)) → List (String × List Helper)
  | .line l | .enter l | .leave l | .push l => l
  | .indent | .dedent | .newline => []

def Steps.shown (steps : Steps) : List (Step (List (String × List Helper))) := steps.map (Step.map Line.shown)

@[simp] theorem Line.shown_append (a b : Line) : Line.shown (a ++ b) = a.shown ++ b.shown := List.map_append

@[simp] theorem Line.shown_cons (p : Piece) (line : Line) : Line.shown (p :: line) = p.shown :: line.shown := rfl

@[simp] theorem Steps.shown_append (a b : Steps) : Steps.shown (a ++ b) = a.shown ++ b.shown := List.map_append

@[simp] theorem Steps.shown_cons (step : Step Line) (steps : Steps) :
    Steps.shown (step :: steps) = step.map Line.shown :: steps.shown := rfl

theorem Line.text_eq_shown (line : Line) : line.text = String.join (line.shown.map Prod.fst) := by
  rw [Line.shown, List.map_map]
  rfl

theorem Line.helpers_eq_shown (line : Line) : line.helpers = line.shown.flatMap Prod.snd := by
  induction line with
  | nil => rfl
  | cons p line ih =>
    rw [Line.shown_cons, List.flatMap_cons, ← ih]
    cases p <;> rfl

section

variable {s t : Steps}

theorem texts_of_shown (same : t.shown = s.shown) : t.map (Step.map Line.text) = s.map (Step.map Line.text) := by
  have seen (steps : Steps) : steps.map (Step.map Line.text) =
      steps.shown.map (Step.map fun line => String.join (line.map Prod.fst)) := by
    rw [Steps.shown, List.map_map]
    refine List.map_congr_left fun step _ => ?_
    cases step <;> simp [Step.map, Line.text_eq_shown]
  rw [seen, seen, same]

theorem helpers_of_shown (same : t.shown = s.shown) : helpers t = helpers s := by
  have seen (steps : Steps) : helpers steps = (steps.shown.flatMap shownBy).flatMap Prod.snd := by
    induction steps with
    | nil => rfl
    | cons step steps ih =>
      rw [Steps.shown_cons, List.flatMap_cons, List.flatMap_append, ← ih]
      cases step with
      | line l | enter l | leave l | push l => exact congrArg (· ++ helpers steps) l.helpers_eq_shown
      | indent | dedent | newline => rfl
  rw [seen, seen, same]

end

theorem Line.shown_join (separator : String) {lines others} (same : others.map Line.shown = lines.map Line.shown) :
    (Line.join separator others).shown = (Line.join separator lines).shown := by
  induction lines generalizing others with
  | nil => rw [List.map_eq_nil_iff.1 same]
  | cons line lines ih =>
    obtain ⟨other, others, rfl, here, rest⟩ := List.map_eq_cons_iff.1 same
    cases lines with
    | nil =>
      cases List.map_eq_nil_iff.1 rest
      exact here
    | cons next lines =>
      obtain ⟨next', others, rfl, -, -⟩ := List.map_eq_cons_iff.1 rest
      simp only [Line.join, Line.shown_append, Line.shown_cons] at ih ⊢
      exact congr (congrArg _ here) (congrArg (_ :: ·) (ih rest))

def display (s : List Stmt) : List (Step (List (String × List Helper))) := (steps s).shown

theorem shown_steps (s : List Stmt) : (steps s).shown = display s := rfl

@[simp] theorem display_cons (s : Stmt) (rest : List Stmt) : display (s :: rest) = s.steps.shown ++ display rest := by
  rw [display, steps_cons, Steps.shown_append]
  rfl

@[simp] theorem display_append (a b : List Stmt) : display (a ++ b) = display a ++ display b := by
  rw [display, steps_append, Steps.shown_append]
  rfl

section

variable {f g : Span → Span}

theorem map_map_same {α β : Type} {k : α → β} {r : α → α} (same : ∀ a, k (r a) = k a) (xs : List α) :
    (xs.map r).map k = xs.map k := by
  rw [List.map_map]
  exact List.map_congr_left fun a _ => same a

theorem display_map {α : Type} {k : α → Stmt} {r : α → α}
    (same : ∀ a, (k (r a)).steps.shown = (k a).steps.shown) (xs : List α) :
    display ((xs.map r).map k) = display (xs.map k) := by
  induction xs with
  | nil => rfl
  | cons x xs ih => simp only [List.map_cons, display_cons, same, ih]

@[simp] theorem liveness_respan (items : List Fragment) :
    Liveness.combine ((items.map (Fragment.respan f)).map Fragment.liveness) =
      Liveness.combine (items.map Fragment.liveness) := by
  rw [List.map_map]
  refine congrArg Liveness.combine (List.map_congr_left fun i _ => ?_)
  cases i <;> rfl

@[simp] theorem renderedCount_respan (es : List Entity) : renderedCount (respanList f es) = renderedCount es := by
  unfold renderedCount
  rw [respanList_eq_map, List.countP_map]
  refine congrArg (List.countP · es) (funext fun e => ?_)
  cases e <;> rfl

@[simp] theorem conditionalReactive_respan (condition : Expr) (elseIfs : List ElseIf) :
    conditionalReactive (condition.respan f) (respanElseIfs f elseIfs) = conditionalReactive condition elseIfs := by
  unfold conditionalReactive
  rw [respanElseIfs_eq_map, List.any_map]
  refine congrArg (condition.reactive || elseIfs.any ·) (funext fun e => ?_)
  cases e
  rfl

@[simp] theorem switchReactive_respan (value : Expr) (cases : List SwitchCase) :
    switchReactive (value.respan f) (respanSwitchCases f cases) = switchReactive value cases := by
  unfold switchReactive
  rw [respanSwitchCases_eq_map, List.any_map]
  refine congrArg (value.reactive || cases.any ·) (funext fun c => ?_)
  obtain ⟨value, body, falls, span⟩ := c
  cases value <;> rfl

@[simp] theorem switchPlace_respan (place : Place) (cases : List SwitchCase) :
    switchPlace place (respanSwitchCases f cases) = switchPlace place cases := by
  unfold switchPlace
  rw [respanSwitchCases_eq_map, List.any_map]
  have falls : ((fun c : SwitchCase => c.fallsThrough) ∘ SwitchCase.respan f) = fun c => c.fallsThrough := by
    funext c
    cases c
    rfl
  rw [falls]

theorem matchLabel?_respan {patterns : List Code} {l l'} (here : matchLabel? patterns = l)
    (there : matchLabel? (patterns.map (Code.respan f)) = l') : l'.map labelSteps = l.map labelSteps := by
  subst here there
  unfold matchLabel?
  rw [List.getLast?_map, ← List.map_dropLast]
  cases patterns.getLast? with
  | none => rfl
  | some last => simp [labelSteps, Function.comp_def, Code.respan]

theorem labelSteps_respan (value : Option Expr) :
    labelSteps (switchLabel (value.map (Expr.respan f))) = labelSteps (switchLabel value) := by
  cases value <;> rfl

theorem textExpression_respan (items : List Fragment) :
    Fragment.textExpression (items.map (Fragment.respan f)) = Fragment.textExpression items := by
  have fixed : (Fragment.isStatic ∘ Fragment.respan f) = Fragment.isStatic := by
    funext i
    cases i <;> rfl
  have shown : (Fragment.staticText ∘ Fragment.respan f) = Fragment.staticText := by
    funext i
    cases i <;> rfl
  have written : (Fragment.inTemplateLiteral ∘ Fragment.respan f) = Fragment.inTemplateLiteral := by
    funext i
    cases i <;> rfl
  simp only [Fragment.textExpression, List.all_map, List.map_map, fixed, shown, written]

theorem handlerSteps_respan (h : Handler) :
    ((handlerSteps (h.respan f)).map ListenerStep.line).map Line.shown =
      ((handlerSteps h).map ListenerStep.line).map Line.shown := by
  have given : (h.respan f).has = h.has := rfl
  have function : isFunction (h.respan f) = isFunction h := rfl
  rw [handlerSteps, handlerSteps, given, function]
  cases h.has .prevent <;> cases h.has .stop <;> cases isFunction h <;> rfl

theorem ofHandlers_respan (handlers : List Handler) :
    (ListenerFunction.ofHandlers (handlers.map (Handler.respan f))).line.shown =
      (ListenerFunction.ofHandlers handlers).line.shown := by
  have dispatched : ∀ hs : List Handler,
      (ListenerFunction.dispatcher ((hs.map (Handler.respan f)).flatMap handlerSteps)).line.shown =
        (ListenerFunction.dispatcher (hs.flatMap handlerSteps)).line.shown := by
    intro hs
    have steps : (((hs.map (Handler.respan f)).flatMap handlerSteps).map ListenerStep.line).map Line.shown =
        ((hs.flatMap handlerSteps).map ListenerStep.line).map Line.shown := by
      simp only [List.flatMap_map, List.map_flatMap, handlerSteps_respan]
    simp only [ListenerFunction.line, Line.shown_append, Line.shown_cons, Line.shown_join " " steps]
  cases handlers with
  | nil => rfl
  | cons h others =>
    cases others with
    | cons second rest => exact dispatched (h :: second :: rest)
    | nil =>
      have touches : touchesEvent (h.respan f) = touchesEvent h := rfl
      have function : isFunction (h.respan f) = isFunction h := rfl
      simp only [ListenerFunction.ofHandlers, List.map_cons, List.map_nil, touches, function]
      split
      · simpa using dispatched [h]
      · split <;> rfl

theorem listenerOptions_respan (handlers : List Handler) :
    listenerOptions (handlers.map (Handler.respan f)) = listenerOptions handlers := by
  simp only [listenerOptions, List.any_map]
  rfl

theorem creationLine_respan (tag : String) (classes : List Fragment) :
    creationLine tag (classes.map (Fragment.respan f)) = creationLine tag classes := by
  unfold creationLine
  dsimp only
  rw [liveness_respan, List.isEmpty_map, map_map_same (k := Fragment.staticText), map_map_same]
  all_goals
    intro c
    cases c <;> rfl

theorem componentLine_respan (i : Inclusion) (place : Place) :
    (componentLine (i.respan f) place).shown = (componentLine i place).shown := by
  have props : (i.props.map (Binding.respan f)).map (fun b => (b.name, propLine b.value)) =
      i.props.map fun b => (b.name, propLine b.value) := by
    refine map_map_same (fun b => ?_) _
    obtain ⟨name, value, span⟩ := b
    cases value with
    | dynamic code initial => cases initial <;> rfl
    | _ => rfl
  have syncs : (i.syncs.map (Sync.respan f)).map (fun s => (s.name, syncLine s)) =
      i.syncs.map fun s => (s.name, syncLine s) :=
    map_map_same (r := Sync.respan f) (fun _ => rfl) _
  have listeners : (Line.object ((i.listeners.map (Listener.respan f)).map fun l =>
      (l.event, (ListenerFunction.ofHandlers l.handlers).line))).shown =
      (Line.object (i.listeners.map fun l => (l.event, (ListenerFunction.ofHandlers l.handlers).line))).shown := by
    unfold Line.object
    rw [List.isEmpty_map, List.isEmpty_map, List.isEmpty_map]
    split
    · rfl
    · simp only [Line.shown_append, Line.shown_cons]
      refine congrArg (fun entries => _ :: entries ++ _) (Line.shown_join ", " ?_)
      simp only [List.map_map, Function.comp_def, Line.shown_cons, Listener.respan, ofHandlers_respan]
  simp only [componentLine, Inclusion.respan, props, syncs, Line.shown_append, listeners]

theorem following_respan (liveness : Liveness) {a b} (same : b.line.shown = a.line.shown) :
    (following liveness b).steps.shown = (following liveness a).steps.shown := by
  unfold following
  split <;> simp only [Stmt.steps, effectSteps, Steps.shown_cons, Steps.shown_append, Step.map, same]

theorem openingStatements_respan (e : Temp) (tag : Tag) :
    display (openingStatements e (tag.respan f)) = display (openingStatements e tag) := by
  have created : (Action.createElement e tag.name (tag.classes.map (Fragment.respan f))).line =
      (Action.createElement e tag.name tag.classes).line := by
    simp only [Action.line, creationLine_respan]
  have bindings := display_map (r := Binding.respan f)
    (k := fun b => following b.value.liveness (.bind e b.name b.value))
    (fun b => by
      obtain ⟨name, value, span⟩ := b
      have alive : (value.respan f).liveness = value.liveness := by cases value <;> rfl
      have line : bindingLine e name (value.respan f) = bindingLine e name value := by cases value <;> rfl
      exact alive ▸ following_respan _ (congrArg Line.shown line)) tag.bindings
  have listeners := display_map (r := Listener.respan f) (k := fun l => .act (.listen e l))
    (fun l => by
      simp only [Stmt.steps, Action.line, Steps.shown_cons, Step.map, Line.shown_append, Listener.respan,
        ofHandlers_respan, listenerOptions_respan]) tag.listeners
  simp only [openingStatements, Tag.respan, List.cons_append, display_cons, display_append, Stmt.steps, created,
    bindings, listeners]

theorem elementStatements_respan (e : Temp) (tag : Tag) (place : Place) {sync sync' body body'}
    (syncs : display sync' = display sync) (inner : display body' = display body) :
    display (elementStatements e (tag.respan f) sync' place body') =
      display (elementStatements e tag sync place body) := by
  have receivers := display_map (r := Receiver.respan f) (k := fun r => .act (.receive e r.code)) (fun _ => rfl)
    tag.receivers
  have received : (tag.respan f).receivers = tag.receivers.map (Receiver.respan f) := rfl
  simp only [elementStatements, closingStatements, display_append, openingStatements_respan, inner, syncs,
    received, receivers]

theorem textStatements_respan (path : Path) (place : Place) (items : List Fragment) :
    display (textStatements path place (items.map (Fragment.respan f))) =
      display (textStatements path place items) := by
  have content : (Piece.content (items.map (Fragment.respan f))).shown = (Piece.content items).shown :=
    congrArg (·, []) (textExpression_respan items)
  have set : (Action.setContent place.real (items.map (Fragment.respan f))).line.shown =
      (Action.setContent place.real items).line.shown := by
    simp only [Action.line, Line.shown_cons, content]
  simp only [textStatements, liveness_respan]
  split
  · simp only [display_cons, following_respan _ set]
  · split <;> simp only [display_cons, Stmt.steps, effectSteps, Steps.shown_append, Steps.shown_cons,
      Step.map, Action.line,
      Line.shown_cons, content]

/-! ### Lowering -/

theorem syncStatements_respan (e : Temp) (kind : SyncKind) (sync : Sync) :
    display (syncStatements e kind (sync.respan f).code) = display (syncStatements e kind sync.code) := by
  cases kind with
  | select multiple => cases multiple <;> rfl
  | _ => rfl

theorem gatherStatements_same {place path count s t} (same : display t = display s) :
    display (gatherStatements place path count t) = display (gatherStatements place path count s) := by
  unfold gatherStatements
  split
  · simp only [List.cons_append, display_cons, display_append, same]
  · exact same

theorem regionStatements_same {reactive place s t} (same : display t = display s) :
    display (regionStatements reactive place t) = display (regionStatements reactive place s) := by
  cases reactive with
  | false => exact same
  | true =>
    simp only [regionStatements, if_true, display_cons, Stmt.steps, Steps.shown_append,
      Steps.shown_cons, shown_steps, same]

theorem switchStatements_respan (m : Temp) (value : Code) {clauses clauses'}
    (same : (clauseSteps clauses').shown = (clauseSteps clauses).shown) :
    display (switchStatements m (value.respan f) clauses') = display (switchStatements m value clauses) := by
  simp only [switchStatements, display_cons, Stmt.steps, Steps.shown_append, Steps.shown_cons, same]
  rfl

theorem loopLine_respan (loop : Loop) : loopLine (loop.respan f) = loopLine loop := by
  obtain ⟨pattern, index, collection⟩ := loop
  cases index <;> rfl

theorem otherwiseSteps_same {l l'} (same : l'.map display = l.map display) :
    (otherwiseSteps l').shown = (otherwiseSteps l).shown := by
  cases l <;> cases l' <;> simp_all [otherwiseSteps, shown_steps]

theorem lastClause_same (m : Temp) {l l'} (same : l'.map display = l.map display) :
    (clauseSteps [lastClause m l']).shown = (clauseSteps [lastClause m l]).shown := by
  cases l <;> cases l' <;> simp_all [lastClause, clauseSteps, steps_append, shown_steps]

variable {slots : SlotTable}

theorem optional_same {name decl decl' optional} (found : slots.find? name = some decl)
    (found' : (SlotTable.respan g slots).find? name = some decl') (known : decl'.optional = optional) :
    decl.optional = optional := by
  rw [Check.find?_respan, found] at found'
  cases found'
  exact known

mutual

theorem Lowers.same {place path e s s'} (h : Lowers slots place path e s)
    (h' : Lowers (SlotTable.respan g slots) place path (e.respan f) s') : display s' = display s := by
  match h with
  | .tag content =>
    cases h' with
    | tag content' => exact elementStatements_respan _ _ place rfl (content.same content')
  | .synced content =>
    cases h' with
    | synced content' =>
      exact elementStatements_respan _ _ place (syncStatements_respan _ _ _) (content.same content')
  | .text =>
    cases h' with
    | text => exact textStatements_respan path place _
  | .component content =>
    cases h' with
    | component content' =>
      obtain ⟨both, shown⟩ := content.same content'
      rename_i fillings fillings'
      cases fillings with
      | nil =>
        cases List.isEmpty_iff.1 both
        simp only [display_cons, Stmt.steps, Steps.shown_cons, Step.map, Line.shown_append, componentLine_respan]
      | cons filling fillings =>
        cases fillings' with
        | nil => cases both
        | cons filling' fillings' =>
          simp only [display_cons, Stmt.steps, Steps.shown_append, Steps.shown_cons, Step.map, Line.shown_append,
            componentLine_respan, shown]
  | .conditional put content others final =>
    cases h' with
    | conditional put' content' others' final' =>
      rw [conditionalReactive_respan] at put' ⊢
      rw [respanElseIfs_eq_map, List.length_map] at final'
      cases put'.trans put.symm
      have first := content.same content'
      have branches := others.same others'
      have last := otherwiseSteps_same (final.same final')
      refine regionStatements_same ?_
      simp only [display_cons, Stmt.steps, Steps.shown_append, Steps.shown_cons, shown_steps, first, branches, last]
      rfl
  | .each put content =>
    cases h' with
    | each put' content' =>
      cases put'.trans put.symm
      have inner := content.same content'
      refine regionStatements_same ?_
      simp only [display_cons, Stmt.steps, Steps.shown_append, Steps.shown_cons, shown_steps, inner, loopLine_respan]
  | .choice put content final =>
    cases h' with
    | choice put' content' final' =>
      rw [respanMatchCases_eq_map, List.length_map] at final'
      cases put'.trans put.symm
      have clauses := content.same content'
      have last := lastClause_same ⟨.subject, path⟩ (final.same final')
      refine regionStatements_same (switchStatements_respan _ _ ?_)
      simp only [clauseSteps_append, Steps.shown_append, clauses, last]
  | .switch put sole content =>
    cases h' with
    | switch put' sole' content' =>
      rw [switchReactive_respan] at put' ⊢
      rw [Check.any_isDefault_respan, switchPlace_respan] at content'
      cases put'.trans put.symm
      have clauses := content.same content'
      refine regionStatements_same (switchStatements_respan _ _ ?_)
      simp only [clauseSteps_append, Steps.shown_append, Check.any_isDefault_respan, clauses]
  | .requiredSlot found required =>
    cases h' with
    | requiredSlot => rfl
    | optionalSlot found' optional => cases required.symm.trans (optional_same found found' optional)
  | .optionalSlot found optional =>
    cases h' with
    | optionalSlot => rfl
    | requiredSlot found' required => cases optional.symm.trans (optional_same found found' required)
  | .fallbackSlot found optional content =>
    cases h' with
    | fallbackSlot found' optional' content' =>
      have inner := content.same content'
      simp only [display_cons, Stmt.steps, Steps.shown_append, Steps.shown_cons, shown_steps, inner]
  | .template =>
    cases h' with
    | template => rfl
  | .templateUse =>
    cases h' with
    | templateUse => simp only [display_cons, Stmt.steps, Action.line, List.flatMap_map, Code.respan]

theorem LowersList.same {place path es s s'} (h : LowersList slots place path es s)
    (h' : LowersList (SlotTable.respan g slots) place path (respanList f es) s') : display s' = display s := by
  match h with
  | .gathered put content =>
    cases h' with
    | gathered put' content' =>
      rw [renderedCount_respan] at put' ⊢
      rw [put', ← put] at content'
      exact gatherStatements_same (content.same content')

theorem LowersFrom.same {place path i es s s'} (h : LowersFrom slots place path i es s)
    (h' : LowersFrom (SlotTable.respan g slots) place path i (respanList f es) s') : display s' = display s := by
  match h with
  | .nil =>
    cases h'
    rfl
  | .cons head tail =>
    cases h' with
    | cons head' tail' => rw [display_append, display_append, head.same head', tail.same tail']

theorem LowersOptional.same {place path es s s'} (h : LowersOptional slots place path es s)
    (h' : LowersOptional (SlotTable.respan g slots) place path (respanOptional f es) s') :
    s'.map display = s.map display := by
  match h with
  | .none =>
    cases h'
    rfl
  | .some content =>
    cases h' with
    | some content' => exact congrArg some (content.same content')

theorem LowersElseIfs.same {place path i es s s'} (h : LowersElseIfs slots place path i es s)
    (h' : LowersElseIfs (SlotTable.respan g slots) place path i (respanElseIfs f es) s') :
    (branchSteps s').shown = (branchSteps s).shown := by
  match h with
  | .nil =>
    cases h'
    rfl
  | .cons head tail =>
    cases h' with
    | cons head' tail' =>
      have first := head.same head'
      have rest := tail.same tail'
      simp only [branchSteps, Steps.shown_append, Steps.shown_cons, shown_steps, first, rest]
      rfl

theorem LowersMatchCases.same {place path i cs s s'} (h : LowersMatchCases slots place path i cs s)
    (h' : LowersMatchCases (SlotTable.respan g slots) place path i (respanMatchCases f cs) s') :
    (clauseSteps s').shown = (clauseSteps s).shown := by
  match h with
  | .nil =>
    cases h'
    rfl
  | .skip unlabelled tail =>
    cases h' with
    | skip _ tail' => exact tail.same tail'
    | cons labelled => cases matchLabel?_respan unlabelled labelled
  | .cons labelled head tail =>
    cases h' with
    | skip unlabelled => cases matchLabel?_respan labelled unlabelled
    | cons labelled' head' tail' =>
      have label : labelSteps _ = labelSteps _ := Option.some.inj (matchLabel?_respan labelled labelled')
      have first := head.same head'
      have rest := tail.same tail'
      simp only [clauseSteps, steps_append, Steps.shown_append, shown_steps, label, first, rest]

theorem LowersSwitchCases.same {place hasDefault path i cs s s'}
    (h : LowersSwitchCases slots place hasDefault path i cs s)
    (h' : LowersSwitchCases (SlotTable.respan g slots) place hasDefault path i (respanSwitchCases f cs) s') :
    (clauseSteps s').shown = (clauseSteps s).shown := by
  match h with
  | .nil =>
    cases h'
    rfl
  | .cons head tail =>
    cases h' with
    | cons head' tail' =>
      have first := head.same head'
      have rest := tail.same tail'
      simp only [clauseSteps, caseEnd, respanSwitchCases_eq_map, List.isEmpty_map, steps_append, Steps.shown_append,
        shown_steps, labelSteps_respan, first, rest]

theorem LowersInsertions.same {path i is s s'} (h : LowersInsertions slots path i is s)
    (h' : LowersInsertions (SlotTable.respan g slots) path i (respanInsertions f is) s') :
    s'.isEmpty = s.isEmpty ∧ (fillingSteps s').shown = (fillingSteps s).shown := by
  match h with
  | .nil =>
    cases h'
    exact ⟨rfl, rfl⟩
  | .cons head tail =>
    cases h' with
    | cons head' tail' =>
      have first := head.same head'
      have rest := (tail.same tail').2
      simp only [List.isEmpty_cons, fillingSteps, Steps.shown_append, Steps.shown_cons,
        shown_steps, first, rest, true_and]

end

theorem LowersTemplates.same {i es s s'} (h : LowersTemplates slots i es s)
    (h' : LowersTemplates (SlotTable.respan g slots) i (respanList f es) s') : display s' = display s := by
  induction h generalizing s' with
  | nil =>
    cases h'
    rfl
  | template head tail ih =>
    cases h' with
    | template head' tail' =>
      simp only [display_cons, Stmt.steps, Steps.shown_append, Steps.shown_cons, shown_steps, head.same head', ih tail']
    | other shown => cases shown
  | @other i entity entities rest shown tail ih =>
    cases entity with
    | template => cases shown
    | _ =>
      cases h' with
      | other _ tail' => exact ih tail'

theorem ofEntities_same {es s s'} (here : ofEntities slots es = .ok s)
    (there : ofEntities (SlotTable.respan g slots) (respanList f es) = .ok s') : display s' = display s := by
  obtain ⟨templates, body, hoisted, shown, rfl⟩ := ofEntities_lowers here
  obtain ⟨templates', body', hoisted', shown', rfl⟩ := ofEntities_lowers there
  rw [display_append, display_append, hoisted.same hoisted', shown.same shown']

/-- A program is the same wherever its component stands. -/
theorem generate_respan {c : Component} {script additions runtime text text'}
    (here : generate c script additions runtime = .ok text)
    (there : generate ⟨c.hasType, SlotTable.respan g c.slots, c.creation, respanList f c.entities⟩
      script additions runtime =
      .ok text') : text' = text := by
  obtain ⟨s, lowered, made⟩ := bind_ok here
  obtain ⟨t, lowered', made'⟩ := bind_ok there
  have same : (steps t).shown = (steps s).shown := ofEntities_same lowered lowered'
  have imported : importedNames (steps t) additions = importedNames (steps s) additions := by
    rw [importedNames, importedNames, helpers_of_shown same]
  rw [← Except.ok.inj made, ← Except.ok.inj made']
  refine congrArg (fun texts => (({} : Text.Writer).run texts).code) ?_
  simp only [moduleSteps, componentSteps, imported, List.map_append, List.map_cons, texts_of_shown same]

end

end ComponentCompiler.Program
