import ComponentCompiler.Proofs.Dom.Realises

/-!
# Branches, loops and switches

`Branching`, `Matching` and `Switching` pair the parts of a statement and of its directive.
-/

namespace ComponentCompiler.Program.Dom

open Template

variable {σ ν : Type} {I : Interpretation σ ν} {W : Temp → Prop} {place : Place} {alone : Prop}

variable (I W place alone) in
inductive Otherwise : Option (List Stmt) → Option (List Entity) → Prop where
  | none : Otherwise none none
  | some {s body} (content : Realises I W place alone s (meanings I body)) :
      Otherwise (some s) (some body)

variable (I W place alone) in
inductive Branching : List Branch → List ElseIf → Prop where
  | nil : Branching [] []
  | cons {condition s body branches elseIfs} (head : Realises I W place alone s (meanings I body))
      (tail : Branching branches elseIfs) :
      Branching (.mk condition.code s :: branches) (.mk condition body :: elseIfs)

section

variable {m : Machine σ ν} {p : Nat}

theorem Otherwise.run {last body} (h : Otherwise I W place alone last body) (ready : Ready m place alone p) :
    Adds (runOtherwise I last m) m W p (optionalMeaning I body m.world) := by
  cases h with
  | none => exact Adds.nothing m
  | some content => exact content ready

theorem Branching.run {branches elseIfs} (h : Branching I W place alone branches elseIfs)
    {otherwise : Machine σ ν → Option (Machine σ ν × Flow)} {r : σ → List Tree × σ} (ready : Ready m place alone p)
    (last : ∀ w, Adds (otherwise { m with world  := w }) { m with world := w } W p (r w)) :
    Adds (runBranches I branches otherwise m) m W p (elseMeaning I elseIfs r m.world) := by
  induction h generalizing m with
  | nil => exact last m.world
  | cons head tail ih =>
    rename_i condition s body branches elseIfs
    rw [runBranches, elseMeaning]
    obtain ⟨yes, w⟩ := I.truth condition.code m.world
    cases yes with
    | true => exact (head (ready.world w)).world ready.old
    | false => exact (ih (ready.world w) last).world ready.old

theorem Realises.conditional {condition s branches last body elseIfs otherwise span}
    (first : Realises I W place alone s (meanings I body)) (others : Branching I W place alone branches elseIfs)
    (final : Otherwise I W place alone last otherwise) :
    Realises I W place alone [.conditional condition.code s branches last]
      (meaning I (.conditional condition body elseIfs otherwise span)) := by
  intro m p ready
  rw [runList_singleton, runStmt, meaning]
  obtain ⟨yes, w⟩ := I.truth condition.code m.world
  cases yes with
  | true => exact (first (ready.world w)).world ready.old
  | false => exact (others.run (ready.world w) fun w => final.run (ready.world w)).world ready.old

theorem Realises.rounds {loop s body} (content : Realises I W place.notLone alone s (meanings I body))
    (outside : Outside W place.node) (left i : Nat) (ready : Ready m place.notLone alone p) :
    Adds (runRounds (fun i m => runList I s { m with world := I.enter loop i m.world }) left i m) m W p
      (rounds (fun i w => meanings I body (I.enter loop i w)) left i m.world) := by
  induction left generalizing i m with
  | zero => exact Adds.nothing m
  | succ left ih =>
    have round := (content (ready.world (I.enter loop i m.world))).world ready.old
    refine round.andThen ready.old fun m' g world => ?_
    rw [← world]
    exact ih (i + 1) (ready.gained g outside nofun)

theorem Realises.loop {loop s body span} {alone' : Prop}
    (content : Realises I W place.notLone alone s (meanings I body)) (outside : Outside W place.node) :
    Realises I W place alone' [.loop loop s] (meaning I (.each loop body span)) := by
  intro m p ready
  rw [runList_singleton, runStmt, meaning]
  obtain ⟨count, w⟩ := I.rounds loop m.world
  have here : Ready { m with world := w } place.notLone alone p :=
    ⟨(ready.world w).node, ready.old, fun _ lone => absurd lone Bool.false_ne_true⟩
  exact ((Realises.rounds content outside count 0 here).world ready.old).caught

theorem Adds.broken {s r} (a : Adds (runList I s m) m W p r) (rest : Machine σ ν → Option (Machine σ ν × Flow)) :
    Adds (Dom.caught (Dom.andThen (runList I (s ++ [.act .break]) m) rest)) m W p r := by
  obtain ⟨m', ran, world, g⟩ := a
  refine ⟨m', ?_, world, g⟩
  rw [runList_append, ran]
  rfl

theorem Adds.intoNext {o} {k : Machine σ ν → Option (Machine σ ν × Flow)} {r} {r' : σ → List Tree × σ}
    (a : Adds o m W p r) (old : p < m.heap.size)
    (next : ∀ m', Gains W m m' p r.1 → m'.world = r.2 → Adds (Dom.caught (k m')) m' W p (r' r.2)) :
    Adds (Dom.caught (Dom.andThen o k)) m W p (followedBy r r') := by
  obtain ⟨m', rfl, world, g⟩ := a
  obtain ⟨m'', ran, world', g'⟩ := next m' g world
  exact ⟨m'', ran, world', g.trans g' old⟩

theorem Realises.switchStatements {t value clauses} {r : ν → σ → List Tree × σ}
    (content : ∀ {m p v}, Ready m place alone p → m.subjects t = some v →
      Adds (caught (seekClauses I v clauses (fun m => defaultClauses I clauses m) m)) m W p (r v m.world)) :
    Realises I W place alone (switchStatements t value clauses) fun w => r (I.value value w).1 (I.value value w).2 := by
  intro m p ready
  have seen : (m.observe t (I.value value m.world).1).subjects t = some (I.value value m.world).1 := if_pos rfl
  have here : Ready (m.observe t (I.value value m.world).1) place alone p := by
    refine ⟨?_, ready.old, ready.empty⟩
    rw [← ready.node]
    cases place.node <;> rfl
  have found := content (here.world (I.value value m.world).2) seen
  rw [Program.switchStatements, runList_act rfl (by simp), runList_singleton, runStmt]
  rw [show Machine.subjects { m.observe t (I.value value m.world).1 with
    world := (I.value value m.world).2 } t = _ from seen]
  exact found.since rfl rfl rfl rfl ready.old

variable (I W place alone) in
inductive Matching : List Clause → List MatchCase → Prop where
  | nil : Matching [] []
  | skip {patterns body span clauses cases} (unlabelled : matchLabel? patterns = none)
      (tail : Matching clauses cases) :
      Matching clauses (.mk patterns body span :: cases)
  | cons {patterns body span label s clauses cases} (labelled : matchLabel? patterns = some label)
      (head : Realises I W place alone s (meanings I body)) (tail : Matching clauses cases) :
      Matching (.mk label (s ++ [.act .break]) :: clauses) (.mk patterns body span :: cases)

variable {clauses : List Clause} {otherwise : Machine σ ν → Option (Machine σ ν × Flow)} {r : σ → List Tree × σ} {v : ν}

theorem Matching.seek {cases : List MatchCase} (h : Matching I W place alone clauses cases) (ending : List Clause)
    (ready : Ready m place alone p)
    (last : ∀ w, Adds (caught (seekClauses I v ending otherwise { m with world := w }))
      { m with world := w } W p (r w)) :
    Adds (caught (seekClauses I v (clauses ++ ending) otherwise m)) m W p (chosenCase I v cases r m.world) := by
  induction h generalizing m with
  | nil => exact last m.world
  | skip unlabelled tail ih =>
    rename_i patterns body span clauses cases
    have none : patterns = [] := List.getLast?_eq_none_iff.1 (Option.map_eq_none_iff.1 unlabelled)
    subst none
    exact ih ready last
  | cons labelled head tail ih =>
    rename_i patterns body span label s clauses cases
    obtain ⟨others, final, rfl, rfl⟩ := matchLabel?_values labelled
    rw [List.cons_append, seekClauses, chosenCase]
    rw [show I.matchesLabel v (.values others final) m.world = I.matchesAny v (others ++ [final]) m.world from rfl]
    obtain ⟨hit, w⟩ := I.matchesAny v (others ++ [final]) m.world
    cases hit with
    | true => exact ((head (ready.world w)).broken _).world ready.old
    | false => exact (ih (ready.world w) last).world ready.old

theorem Matching.default {cases} (h : Matching I W place alone clauses cases) (ending : List Clause) :
    defaultClauses I (clauses ++ ending) m = defaultClauses I ending m := by
  induction h with
  | nil => rfl
  | skip _ _ ih => exact ih
  | cons labelled head tail ih =>
    obtain ⟨others, final, rfl, -⟩ := matchLabel?_values labelled
    rw [List.cons_append, defaultClauses, if_neg nofun, ih]

theorem exhaustive_run {t} (seen : m.subjects t = some v) :
    Adds (caught (defaultClauses I [exhaustiveClause t] m)) m W p ([], m.world) := by
  refine ⟨m, ?_, rfl, Gains.nothing rfl rfl rfl rfl⟩
  have ran : runAction I (.exhaustive t) m = some m := by
    rw [runAction, seen]
    rfl
  rw [exhaustiveClause, defaultClauses, if_pos rfl, runList_act ran (by simp)]
  rfl

theorem Realises.choice {t : Temp} {value : Expr} {cases : List MatchCase} {final : Option (List Stmt)}
    {default : Option (List Entity)} {span : Span} (content : Matching I W place alone clauses cases)
    (last : Otherwise I W place alone final default) :
    Realises I W place alone (Program.switchStatements t value.code (clauses ++ [lastClause t final]))
      (meaning I (.choice value cases default span)) := by
  refine Realises.switchStatements (r := fun v w => chosenCase I v cases (fun w => optionalMeaning I default w) w) ?_
  intro m p v ready seen
  refine content.seek [lastClause t final] ready fun w => ?_
  cases last with
  | none =>
    show Adds (Dom.caught (defaultClauses I (clauses ++ [exhaustiveClause t]) { m with world := w })) _ W p ([], w)
    rw [content.default]
    exact exhaustive_run seen
  | some body =>
    rename_i s body'
    show Adds (Dom.caught (defaultClauses I (clauses ++ [.mk .default (s ++ [.act .break])])
      { m with world := w })) _ W p _
    rw [content.default, defaultClauses, if_pos rfl]
    exact (body (ready.world w)).broken _

variable (I W place alone) (hasDefault : Bool) in
inductive Switching : List Clause → List SwitchCase → Prop where
  | nil : Switching [] []
  | cons {value body falls span s clauses cases} (head : Realises I W place alone s (meanings I body))
      (tail : Switching clauses cases) :
      Switching (.mk (switchLabel value) (s ++ caseEnd falls hasDefault cases) :: clauses)
        (.mk value body falls span :: cases)

/-- What follows the clauses for the cases: with a default case nothing, and else a clause that no case falls into. -/
def ending (hasDefault : Bool) (t : Temp) : List Clause := if hasDefault then [] else [exhaustiveClause t]

variable {hasDefault : Bool} {cases : List SwitchCase} {t : Temp}

theorem Realises.enter {s body falls} (head : Realises I W place alone s (meanings I body))
    (steady : place.lone = true → falls = false) (outside : Outside W place.node) (ready : Ready m place alone p)
    (rest : ∀ {m'}, place.lone = false → Ready m' place alone p → (cases = [] → hasDefault = true) →
      Adds (caught (runClauses I clauses m')) m' W p (fallenCases I cases m'.world)) :
    Adds (Dom.caught (Dom.andThen (runList I (s ++ caseEnd falls hasDefault cases) m)
      fun m => runClauses I clauses m)) m W p
      (falling (meanings I body m.world) falls fun w => fallenCases I cases w) := by
  cases falls with
  | false => exact (head ready).broken _
  | true =>
    have single : place.lone = false := by
      cases lone : place.lone with
      | false => rfl
      | true => cases steady lone
    by_cases stops : cases = [] ∧ hasDefault = false
    · obtain ⟨rfl, rfl⟩ := stops
      have same : falling (meanings I body m.world) true (fun w => fallenCases I [] w) = meanings I body m.world := by
        simp [falling, followedBy, fallenCases]
      rw [same]
      exact (head ready).broken _
    · have goes : caseEnd true hasDefault cases = [] := by
        cases cases with
        | nil => cases hasDefault <;> simp_all [caseEnd]
        | cons c cases => rfl
      rw [goes, List.append_nil]
      refine (head ready).intoNext ready.old fun m' g world => ?_
      rw [← world]
      refine rest single (ready.gained g outside fun lone => by simp [single] at lone) fun none => ?_
      cases hasDefault with
      | true => rfl
      | false => exact absurd ⟨none, rfl⟩ stops

theorem Switching.fall (h : Switching I W place alone hasDefault clauses cases) (single : place.lone = false)
    (outside : Outside W place.node) (ready : Ready m place alone p) (none : cases = [] → hasDefault = true) :
    Adds (caught (runClauses I (clauses ++ ending hasDefault t) m)) m W p (fallenCases I cases m.world) := by
  induction h generalizing m with
  | nil =>
    rw [none rfl]
    exact Adds.nothing m
  | cons head tail ih =>
    refine head.enter (fun lone => ?_) outside ready fun _ ready none => ih ready none
    rw [single] at lone
    cases lone

theorem Switching.seek (h : Switching I W place alone hasDefault clauses cases)
    (steady : place.lone = true → cases.any (·.fallsThrough) = false) (outside : Outside W place.node)
    (ready : Ready m place alone p)
    (last : ∀ w, Adds (caught (otherwise { m with world := w })) { m with world := w } W p (r w)) :
    Adds (caught (seekClauses I v (clauses ++ ending hasDefault t) otherwise m)) m W p
      (soughtCase I v cases r m.world) := by
  induction h generalizing m with
  | nil =>
    have skipped : seekClauses I v (ending hasDefault t) otherwise m = otherwise m := by cases hasDefault <;> rfl
    rw [List.nil_append, skipped]
    exact last m.world
  | cons head tail ih =>
    rename_i value body falls span s clauses cases
    simp only [List.any_cons, Bool.or_eq_false_iff] at steady
    rw [List.cons_append, seekClauses, soughtCase]
    obtain ⟨hit, w⟩ := I.matchesLabel v (switchLabel value) m.world
    cases hit with
    | true =>
      refine (head.enter (fun lone => (steady lone).1) outside (ready.world w) ?_).world ready.old
      exact fun single ready none => tail.fall single outside ready none
    | false => exact (ih (fun lone => (steady lone).2) (ready.world w) last).world ready.old

theorem Switching.default (h : Switching I W place alone hasDefault clauses cases)
    (steady : place.lone = true → cases.any (·.fallsThrough) = false) (outside : Outside W place.node)
    (ready : Ready m place alone p) (seen : m.subjects t = some v) :
    Adds (caught (defaultClauses I (clauses ++ ending hasDefault t) m)) m W p (defaultCase I cases m.world) := by
  induction h with
  | nil =>
    cases hasDefault with
    | true => exact Adds.nothing m
    | false => exact exhaustive_run seen
  | cons head tail ih =>
    rename_i value body falls span s clauses cases
    simp only [List.any_cons, Bool.or_eq_false_iff] at steady
    rw [List.cons_append, defaultClauses, defaultCase]
    cases value with
    | none =>
      refine head.enter (fun lone => (steady lone).1) outside ready ?_
      exact fun single ready none => tail.fall single outside ready none
    | some value => exact ih fun lone => (steady lone).2

theorem Realises.switch {value span} (content : Switching I W place alone hasDefault clauses cases)
    (steady : place.lone = true → cases.any (·.fallsThrough) = false) (outside : Outside W place.node) :
    Realises I W place alone (Program.switchStatements t value.code (clauses ++ ending hasDefault t))
      (meaning I (.switch value cases span)) := by
  refine Realises.switchStatements (r := fun v w => soughtCase I v cases (fun w => defaultCase I cases w) w) ?_
  intro m p v ready seen
  exact content.seek steady outside ready fun w => content.default steady outside (ready.world w) seen

end

end ComponentCompiler.Program.Dom
