import ComponentCompiler.Proofs.Check.Blocks
import ComponentCompiler.Proofs.Program.Accepted
import Mathlib.Data.List.TakeWhile

/-!
# What a switch executes

An `Engine` runs statements in a state of any kind. Main statement: `lowered_switch_executes`.
-/

namespace ComponentCompiler.Program

open Template

mutual

/-- Neither a `break` of a switch around the statement nor a call for a value that is unexpected there. -/
def Stmt.isInner : Stmt → Bool
  | .act .break | .act (.exhaustive _) => false
  | .conditional _ body elseIfs otherwise => allInner body && branchesInner elseIfs && optionalInner otherwise
  | _ => true

def allInner : List Stmt → Bool
  | [] => true
  | s :: rest => s.isInner && allInner rest

def optionalInner : Option (List Stmt) → Bool
  | none => true
  | some body => allInner body

def branchesInner : List Branch → Bool
  | [] => true
  | .mk _ body :: rest => allInner body && branchesInner rest

end

structure Engine (σ : Type) where
  equal : Temp → Code → σ → Bool × σ
  /-- The state after a statement, and whether a `break` in it ends what stands around it. -/
  exec : Stmt → σ → σ × Bool
  inner_goes_on : ∀ s w, s.isInner = true → (exec s w).2 = false

def Label.codes : Label → List Code
  | .default => []
  | .values others last => others ++ [last]

def Clause.body : Clause → List Stmt
  | .mk _ body => body

namespace Engine

variable {σ α : Type} (E : Engine σ) (m : Temp)

def run : List Stmt → σ → List Stmt × σ
  | [], w => ([], w)
  | .act .break :: _, w => ([], w)
  | s :: rest, w =>
    if (E.exec s w).2 then ([s], (E.exec s w).1)
    else (s :: (run rest (E.exec s w).1).1, (run rest (E.exec s w).1).2)

def meets : List Code → σ → Bool × σ
  | [], w => (false, w)
  | code :: codes, w => if (E.equal m code w).1 then E.equal m code w else meets codes (E.equal m code w).2

def seek (codes : α → List Code) : List α → σ → Option (List α) × σ
  | [], w => (none, w)
  | a :: rest, w =>
    if (E.meets m (codes a) w).1 then (some (a :: rest), (E.meets m (codes a) w).2)
    else seek codes rest (E.meets m (codes a) w).2

def switch (clauses : List Clause) (w : σ) : List Stmt × σ :=
  let found := E.seek m (·.label.codes) clauses w
  E.run ((found.1.getD (clauses.dropWhile (·.label ≠ .default))).flatMap Clause.body) found.2

end Engine

structure Arm where
  codes? : Option (List Code)
  body : List Stmt
  fallsThrough : Bool

def Arm.codes (arm : Arm) : List Code := arm.codes?.getD []

def passage : List Arm → List Stmt
  | [] => []
  | arm :: arms => arm.body ++ if arm.fallsThrough then passage arms else []

namespace Engine

variable {σ : Type} (E : Engine σ) (m : Temp)

def whole (body : List Stmt) (w : σ) : List Stmt × σ := (body, body.foldl (fun w s => (E.exec s w).1) w)

/-- The bodies from the first equal case on, else from the default on, else the call for unexpected values. -/
def choose (arms : List Arm) (w : σ) : List Stmt × σ :=
  let found := E.seek m Arm.codes arms w
  let default := if arms.any (·.codes?.isNone) then some (arms.dropWhile (·.codes?.isSome)) else none
  E.whole (((found.1 <|> default).map passage).getD [.act (.exhaustive m)]) found.2

end Engine

@[simp] theorem allInner_eq (s : List Stmt) : allInner s = s.all Stmt.isInner := by
  induction s with
  | nil => rfl
  | cons s rest ih => rw [allInner, ih, List.all_cons]

@[simp] theorem isInner_following (liveness : Liveness) (a : Action) :
    (following liveness a).isInner = (decide (liveness = .reactive) || (Stmt.act a).isInner) := by
  cases liveness <;> rfl

theorem regionStatements_inner {reactive place body} (inner : body.all Stmt.isInner = true) :
    (regionStatements reactive place body).all Stmt.isInner = true := by
  cases reactive with
  | true => rfl
  | false => exact inner

mutual

theorem Lowers.inner {slots} {place path e s} (h : Lowers slots place path e s) : s.all Stmt.isInner = true := by
  match h with
  | .tag content =>
    simp [elementStatements, openingStatements, closingStatements, Stmt.isInner, List.all_map, Function.comp_def,
      content.inner]
  | .synced content =>
    rename_i kind _ _ _ _
    have tied (e : Temp) (signal : Code) : (syncStatements e kind signal).all Stmt.isInner = true := by
      rcases kind with _ | _ | _ | (_ | _) <;> rfl
    simp [elementStatements, openingStatements, closingStatements, Stmt.isInner, List.all_map, Function.comp_def,
      content.inner, tied]
  | .text =>
    unfold textStatements
    dsimp only
    split
    · simp [Stmt.isInner]
    · split <;> rfl
  | .conditional put content others final =>
    refine regionStatements_inner ?_
    rw [List.all_cons, Stmt.isInner, allInner_eq, content.inner, others.inner, final.inner]
    rfl
  | .each put content => exact regionStatements_inner rfl
  | .choice put content final => exact regionStatements_inner rfl
  | .switch put sole content => exact regionStatements_inner rfl
  | .component _ | .requiredSlot _ _ | .optionalSlot _ _ | .fallbackSlot _ _ _ | .template | .templateUse => rfl

theorem LowersList.inner {slots} {place path es s} (h : LowersList slots place path es s) :
    s.all Stmt.isInner = true := by
  match h with
  | .gathered put content =>
    unfold gatherStatements
    split <;> simp [Stmt.isInner, content.inner]

theorem LowersFrom.inner {slots} {place path i es s} (h : LowersFrom slots place path i es s) :
    s.all Stmt.isInner = true := by
  match h with
  | .nil => rfl
  | .cons head tail => rw [List.all_append, head.inner, tail.inner]; rfl

theorem LowersOptional.inner {slots} {place path es s} (h : LowersOptional slots place path es s) :
    optionalInner s = true := by
  match h with
  | .none => rfl
  | .some content => rw [optionalInner, allInner_eq, content.inner]

theorem LowersElseIfs.inner {slots} {place path i elseIfs branches}
    (h : LowersElseIfs slots place path i elseIfs branches) : branchesInner branches = true := by
  match h with
  | .nil => rfl
  | .cons head tail => rw [branchesInner, allInner_eq, head.inner, tail.inner]; rfl

end

namespace Engine

variable {σ α : Type} (E : Engine σ) {m : Temp}

theorem run_left {body} (inner : body.all Stmt.isInner = true) {rest} (left : ∀ w, E.run rest w = ([], w)) (w : σ) :
    E.run (body ++ rest) w = E.whole body w := by
  induction body generalizing w with
  | nil => exact left w
  | cons s body ih =>
    rw [List.all_cons, Bool.and_eq_true] at inner
    rw [List.cons_append, run, E.inner_goes_on s w inner.1, ih inner.2]
    · rfl
    · rintro rfl
      exact Bool.false_ne_true inner.1

theorem run_exhaustive (w : σ) : E.run [.act (.exhaustive m)] w = E.whole [.act (.exhaustive m)] w := by
  simp only [run, ite_self]
  rfl

theorem seek_some {codes : α → List Code} {xs entered w} (found : (E.seek m codes xs w).1 = some entered) :
    entered ≠ [] ∧ entered <:+ xs := by
  induction xs generalizing w with
  | nil => cases found
  | cons x xs ih =>
    rw [seek] at found
    split at found
    · cases found
      exact ⟨List.cons_ne_nil _ _, List.suffix_rfl⟩
    · exact ⟨(ih found).1, (ih found).2.trans (List.suffix_cons _ _)⟩

end Engine

def Arm.label (arm : Arm) : Label := (arm.codes?.bind matchLabel?).getD .default

def clausesOf (hasDefault : Bool) : List Arm → List Clause
  | [] => []
  | arm :: arms =>
    .mk arm.label (arm.body ++ if !arm.fallsThrough || (arms.isEmpty && !hasDefault) then [.act .break] else []) ::
      clausesOf hasDefault arms

def lastClauses (m : Temp) (hasDefault : Bool) : List Clause := if hasDefault then [] else [exhaustiveClause m]

/-- Every case but the default has a code, and the bodies hold no `break` of their own. -/
structure Arm.Proper (arm : Arm) : Prop where
  coded : arm.codes? ≠ some []
  inner : arm.body.all Stmt.isInner = true

section

variable {m : Temp} {hasDefault : Bool} {arms : List Arm}

theorem Arm.Proper.label {arm : Arm} (proper : arm.Proper) :
    arm.label.codes = arm.codes ∧ (arm.label ≠ .default ↔ arm.codes?.isSome = true) := by
  obtain ⟨codes?, body, falls⟩ := arm
  match codes? with
  | none => exact ⟨rfl, by simp [Arm.label]⟩
  | some codes =>
    cases labelled : matchLabel? codes with
    | none =>
      exact absurd (congrArg some (List.getLast?_eq_none_iff.1 (Option.map_eq_none_iff.1 labelled))) proper.coded
    | some label =>
      obtain ⟨others, last, rfl, all⟩ := matchLabel?_values labelled
      simp [Arm.label, Arm.codes, labelled, Label.codes, all]

theorem passage_inner (proper : ∀ arm ∈ arms, arm.Proper) : (passage arms).all Stmt.isInner = true := by
  induction arms with
  | nil => rfl
  | cons arm arms ih =>
    obtain ⟨here, proper⟩ := List.forall_mem_cons.1 proper
    rw [passage, List.all_append, here.inner]
    split
    · exact ih proper
    · rfl

theorem dropWhile_clausesOf (proper : ∀ arm ∈ arms, arm.Proper) :
    (clausesOf hasDefault arms ++ lastClauses m hasDefault).dropWhile (·.label ≠ .default) =
      clausesOf hasDefault (arms.dropWhile (·.codes?.isSome)) ++ lastClauses m hasDefault := by
  induction arms with
  | nil => cases hasDefault <;> rfl
  | cons arm arms ih =>
    obtain ⟨here, proper⟩ := List.forall_mem_cons.1 proper
    rw [clausesOf, List.cons_append, List.dropWhile_cons, List.dropWhile_cons]
    simp only [Clause.label, here.label.2, decide_eq_true_eq]
    split
    · exact ih proper
    · rfl

theorem exists_passage (going : arms ≠ [] ∨ hasDefault = true) :
    ∃ rest, (clausesOf hasDefault arms ++ lastClauses m hasDefault).flatMap Clause.body = passage arms ++ rest ∧
      (rest = [] ∨ ∃ behind, rest = .act .break :: behind) := by
  induction arms with
  | nil =>
    obtain absurd | rfl := going
    · exact (absurd rfl).elim
    · exact ⟨[], rfl, .inl rfl⟩
  | cons arm arms ih =>
    rw [clausesOf, List.cons_append, List.flatMap_cons, Clause.body, passage]
    simp only [List.append_assoc]
    cases falls : arm.fallsThrough with
    | false => exact ⟨_, rfl, .inr ⟨_, rfl⟩⟩
    | true =>
      by_cases last : arms = [] ∧ hasDefault = false
      · obtain ⟨rfl, rfl⟩ := last
        exact ⟨_, rfl, .inr ⟨_, rfl⟩⟩
      · obtain ⟨rest, cut, ends⟩ := ih (by grind)
        refine ⟨rest, ?_, ends⟩
        have goes : (arms.isEmpty && !hasDefault) = false := by grind
        rw [cut, goes]
        rfl

end

namespace Engine

variable {σ : Type} (E : Engine σ) {m : Temp} {hasDefault : Bool} {arms : List Arm}

theorem run_passage (proper : ∀ arm ∈ arms, arm.Proper) (going : arms ≠ [] ∨ hasDefault = true) (w : σ) :
    E.run ((clausesOf hasDefault arms ++ lastClauses m hasDefault).flatMap Clause.body) w =
      E.whole (passage arms) w := by
  obtain ⟨rest, cut, ends⟩ := exists_passage (m := m) going
  rw [cut]
  refine E.run_left (passage_inner proper) (fun w => ?_) w
  obtain rfl | ⟨behind, rfl⟩ := ends <;> rw [run]

theorem seek_clausesOf (proper : ∀ arm ∈ arms, arm.Proper) (w : σ) :
    E.seek m (·.label.codes) (clausesOf hasDefault arms ++ lastClauses m hasDefault) w =
      ((E.seek m Arm.codes arms w).1.map (clausesOf hasDefault · ++ lastClauses m hasDefault),
        (E.seek m Arm.codes arms w).2) := by
  induction arms generalizing w with
  | nil => cases hasDefault <;> rfl
  | cons arm arms ih =>
    obtain ⟨here, proper⟩ := List.forall_mem_cons.1 proper
    rw [clausesOf, List.cons_append, seek, seek]
    simp only [Clause.label, here.label.1]
    split
    · rfl
    · exact ih proper _

theorem switch_clausesOf (proper : ∀ arm ∈ arms, arm.Proper) (known : hasDefault = arms.any (·.codes?.isNone)) (w : σ) :
    E.switch m (clausesOf hasDefault arms ++ lastClauses m hasDefault) w = E.choose m arms w := by
  rw [switch, E.seek_clausesOf proper, dropWhile_clausesOf proper]
  simp only [choose, ← known]
  cases found : (E.seek m Arm.codes arms w).1 with
  | some entered =>
    obtain ⟨some, suffix⟩ := E.seek_some found
    exact E.run_passage (fun arm mem => proper arm (suffix.subset mem)) (.inl some) _
  | none =>
    cases hasDefault with
    | true => exact E.run_passage (fun arm mem => proper arm (List.dropWhile_subset _ mem)) (.inr rfl) _
    | false =>
      have all : arms.dropWhile (·.codes?.isSome) = [] := by
        refine List.dropWhile_eq_nil_iff.2 fun arm mem => ?_
        exact Option.isSome_iff_ne_none.2 (by simpa using List.any_eq_false.1 known.symm arm mem)
      simp only [all]
      exact E.run_exhaustive _

theorem exhaustive_mem_choose (proper : ∀ arm ∈ arms, arm.Proper) (w : σ) :
    .act (.exhaustive m) ∈ (E.choose m arms w).1 ↔
      arms.any (·.codes?.isNone) = false ∧ (E.seek m Arm.codes arms w).1 = none := by
  simp only [choose, whole]
  have absent {part : List Arm} (sub : part ⊆ arms) : ¬ .act (.exhaustive m) ∈ passage part := fun mem =>
    Bool.false_ne_true (List.all_eq_true.1 (passage_inner fun arm listed => proper arm (sub listed)) _ mem)
  cases found : (E.seek m Arm.codes arms w).1 with
  | some entered => exact iff_of_false (absent (E.seek_some found).2.subset) nofun
  | none =>
    cases arms.any (·.codes?.isNone) with
    | true => exact iff_of_false (absent (List.dropWhile_subset _)) nofun
    | false => exact iff_of_true List.mem_cons_self ⟨rfl, rfl⟩

end Engine

def patternArms (bodies : Nat → List Stmt) (cases : List MatchCase) : List Arm :=
  cases.mapIdx fun k c => ⟨some c.patterns, bodies k, false⟩

def matchArms (bodies : Nat → List Stmt) (cases : List MatchCase) (default : Option (List Entity)) : List Arm :=
  patternArms bodies cases ++ default.toList.map fun _ => ⟨none, bodies cases.length, false⟩

def switchArms (bodies : Nat → List Stmt) (cases : List SwitchCase) : List Arm :=
  cases.mapIdx fun k c => ⟨c.value.map ([·.code]), bodies k, c.fallsThrough⟩

/-- The contents of cases, of which the first is numbered `i`, are lowered to `bodies`. -/
def BodiesLower (slots : SlotTable) (place : Place) (path : Path) (i : Nat) (contents : List (List Entity))
    (bodies : Nat → List Stmt) : Prop :=
  ∀ k content, contents[k]? = some content → lowerList slots place (path ++ [i + k]) content = .ok (bodies k)

section

variable {slots : SlotTable} {place : Place} {path : Path} {i : Nat} {bodies : Nat → List Stmt}

theorem BodiesLower.cons {content contents} (lower : BodiesLower slots place path i (content :: contents) bodies) :
    gather place (path ++ [i]) (renderedCount content) (lowerFrom slots · (path ++ [i]) 0 content) = .ok (bodies 0) ∧
      BodiesLower slots place path (i + 1) contents fun k => bodies (k + 1) := by
  refine ⟨lower 0 content rfl, fun k content found => ?_⟩
  rw [Nat.add_right_comm]
  exact lower (k + 1) content found

theorem BodiesLower.inner {contents} (lower : BodiesLower slots place path i contents bodies) {k}
    (bound : k < contents.length) : (bodies k).all Stmt.isInner = true :=
  (lowerList_lowers (lower k _ (List.getElem?_eq_getElem bound))).inner

theorem regional_eq {reactive} {body : Place → Lowering (List Stmt)} {s}
    (ran : body (regionPlace reactive place) = .ok s) :
    regional reactive place body = .ok (regionStatements reactive place s) := by
  cases reactive with
  | false => exact ran
  | true =>
    simp only [regional, if_pos]
    exact congrArg (· >>= fun s => pure [Stmt.region place s]) ran

/-! A match -/

theorem clausesOf_append {hasDefault arms} (stop : ∀ arm ∈ arms, arm.fallsThrough = false) (rest : List Arm) :
    clausesOf hasDefault (arms ++ rest) = clausesOf hasDefault arms ++ clausesOf hasDefault rest := by
  induction arms with
  | nil => rfl
  | cons arm arms ih =>
    obtain ⟨here, stop⟩ := List.forall_mem_cons.1 stop
    rw [List.cons_append, clausesOf, clausesOf, ih stop, here]
    rfl

theorem lowerMatchCases_ok (hasDefault : Bool) {cases} (labelled : ∀ c ∈ cases, c.patterns ≠ [])
    (lower : BodiesLower slots place path i (cases.map MatchCase.body) bodies) :
    lowerMatchCases slots place path i cases = .ok (clausesOf hasDefault (patternArms bodies cases)) := by
  induction cases generalizing i bodies with
  | nil => rfl
  | cons c cases ih =>
    obtain ⟨patterns, body, span⟩ := c
    obtain ⟨here, later⟩ := lower.cons
    obtain ⟨named, labelled⟩ := List.forall_mem_cons.1 labelled
    rw [lowerMatchCases, patternArms, List.mapIdx_cons]
    cases found : matchLabel? patterns with
    | none => exact absurd (List.getLast?_eq_none_iff.1 (Option.map_eq_none_iff.1 found)) named
    | some label =>
      have label_eq : label = Arm.label ⟨some patterns, bodies 0, false⟩ := by simp [Arm.label, found]
      simp only [MatchCase.body] at here
      simp only [here, ih labelled later, label_eq]
      rfl

theorem lowerEntity_choice {value cases default span} (labelled : ∀ c ∈ cases, c.patterns ≠ [])
    (lower : BodiesLower slots (regionPlace value.reactive place) path 0
      (cases.map MatchCase.body ++ default.toList) bodies) :
    lowerEntity slots place path (.choice value cases default span) =
      .ok (regionStatements value.reactive place (switchStatements ⟨.subject, path⟩ value.code
        (clausesOf default.isSome (matchArms bodies cases default) ++
          lastClauses ⟨.subject, path⟩ default.isSome))) := by
  have first : BodiesLower slots (regionPlace value.reactive place) path 0 (cases.map MatchCase.body) bodies :=
    fun k content found => lower k content (by
      rw [List.getElem?_append_left (List.getElem?_eq_some_iff.1 found).1]
      exact found)
  have stop : ∀ arm ∈ patternArms bodies cases, arm.fallsThrough = false := by
    intro arm mem
    obtain ⟨k, bound, rfl⟩ := List.mem_mapIdx.1 mem
    rfl
  rw [lowerEntity, matchArms, clausesOf_append stop]
  refine regional_eq ?_
  rw [lowerMatchCases_ok default.isSome labelled first]
  cases default with
  | none =>
    rw [clausesOf.eq_def _ (List.map _ _), List.append_assoc]
    rfl
  | some content =>
    have ran := lower cases.length content (by simp)
    rw [Nat.zero_add] at ran
    have last : lowerOptional slots (regionPlace value.reactive place) (path ++ [cases.length]) (some content) =
        .ok (some (bodies cases.length)) := by
      rw [lowerOptional]
      exact congrArg (· >>= fun s => pure (some s)) ran
    rw [last, show lastClauses _ (some content).isSome = [] from rfl, List.append_nil]
    rfl

/-! A switch -/

theorem lowerSwitchCases_ok {hasDefault cases}
    (lower : BodiesLower slots place path i (cases.map SwitchCase.body) bodies) :
    lowerSwitchCases slots place hasDefault path i cases = .ok (clausesOf hasDefault (switchArms bodies cases)) := by
  induction cases generalizing i bodies with
  | nil => rfl
  | cons c cases ih =>
    obtain ⟨value, body, falls, span⟩ := c
    obtain ⟨here, later⟩ := lower.cons
    have empty : cases.isEmpty = (switchArms (fun k => bodies (k + 1)) cases).isEmpty := by
      cases cases <;> simp [switchArms]
    have label_eq : switchLabel value = Arm.label ⟨value.map ([·.code]), bodies 0, falls⟩ := by
      cases value <;> rfl
    rw [lowerSwitchCases, switchArms, List.mapIdx_cons]
    simp only [SwitchCase.body] at here
    simp only [here, ih later, empty, label_eq]
    rfl

theorem lowerEntity_switch {value cases span} (sole : (cases.filter (·.isDefault)).length ≤ 1)
    (lower : BodiesLower slots (switchPlace (regionPlace (switchReactive value cases) place) cases) path 0
      (cases.map SwitchCase.body) bodies) :
    lowerEntity slots place path (.switch value cases span) =
      .ok (regionStatements (switchReactive value cases) place (switchStatements ⟨.subject, path⟩ value.code
        (clausesOf (cases.any (·.isDefault)) (switchArms bodies cases) ++
          lastClauses ⟨.subject, path⟩ (cases.any (·.isDefault))))) := by
  rw [lowerEntity]
  refine regional_eq ?_
  have single : extraDefaults cases = [] := List.drop_eq_nil_of_le sole
  rw [single]
  dsimp only
  rw [lowerSwitchCases_ok lower]
  rfl

theorem any_switchArms (bodies : Nat → List Stmt) (cases : List SwitchCase) :
    cases.any (·.isDefault) = (switchArms bodies cases).any (·.codes?.isNone) := by
  induction cases generalizing bodies with
  | nil => rfl
  | cons c cases ih =>
    rw [switchArms, List.mapIdx_cons, List.any_cons, List.any_cons, Option.isNone_map]
    exact congrArg _ (ih fun k => bodies (k + 1))

end

/-- The switch of a match executes exactly the body of the first case that has an equal pattern, else the default,
else the call for unexpected values. That of a switch executes the bodies from the first equal case, else from the
default wherever it stands, through the first case that does not fall through or the last one. In both, the call
for unexpected values is made just if there is no default and no case is equal. -/
theorem lowered_switch_executes (slots : SlotTable) (place : Place) (path : Path) (value : Expr) (span : Span)
    (bodies : Nat → List Stmt) :
    (∀ (cases : List MatchCase) (default : Option (List Entity)), (∀ c ∈ cases, c.patterns ≠ []) →
      BodiesLower slots (regionPlace value.reactive place) path 0 (cases.map MatchCase.body ++ default.toList) bodies →
      ∃ clauses, lowerEntity slots place path (.choice value cases default span) =
          .ok (regionStatements value.reactive place (switchStatements ⟨.subject, path⟩ value.code clauses)) ∧
        ∀ {σ : Type} (E : Engine σ) (w : σ),
          E.switch ⟨.subject, path⟩ clauses w = E.choose ⟨.subject, path⟩ (matchArms bodies cases default) w ∧
          (.act (.exhaustive ⟨.subject, path⟩) ∈ (E.switch ⟨.subject, path⟩ clauses w).1 ↔
            default = none ∧ (E.seek ⟨.subject, path⟩ Arm.codes (matchArms bodies cases default) w).1 = none)) ∧
    (∀ cases : List SwitchCase, (cases.filter (·.isDefault)).length ≤ 1 →
      BodiesLower slots (switchPlace (regionPlace (switchReactive value cases) place) cases) path 0
        (cases.map SwitchCase.body) bodies →
      ∃ clauses, lowerEntity slots place path (.switch value cases span) =
          .ok (regionStatements (switchReactive value cases) place
            (switchStatements ⟨.subject, path⟩ value.code clauses)) ∧
        ∀ {σ : Type} (E : Engine σ) (w : σ),
          E.switch ⟨.subject, path⟩ clauses w = E.choose ⟨.subject, path⟩ (switchArms bodies cases) w ∧
          (.act (.exhaustive ⟨.subject, path⟩) ∈ (E.switch ⟨.subject, path⟩ clauses w).1 ↔
            cases.any (·.isDefault) = false ∧
              (E.seek ⟨.subject, path⟩ Arm.codes (switchArms bodies cases) w).1 = none)) := by
  constructor
  · intro cases default labelled lower
    have proper : ∀ arm ∈ matchArms bodies cases default, arm.Proper := by
      intro arm mem
      obtain mem | mem := List.mem_append.1 mem
      · obtain ⟨k, bound, rfl⟩ := List.mem_mapIdx.1 mem
        exact ⟨fun none => labelled _ (List.getElem_mem bound) (Option.some.inj none), lower.inner (by simp; omega)⟩
      · obtain ⟨content, found, rfl⟩ := List.mem_map.1 mem
        exact ⟨nofun, lower.inner (by simp [Option.mem_toList.1 found])⟩
    have known : default.isSome = (matchArms bodies cases default).any (·.codes?.isNone) := by
      have coded : (patternArms bodies cases).any (·.codes?.isNone) = false := List.any_eq_false.2 fun arm mem => by
        obtain ⟨k, bound, rfl⟩ := List.mem_mapIdx.1 mem
        exact Bool.false_ne_true
      rw [matchArms, List.any_append, coded]
      cases default <;> rfl
    refine ⟨_, lowerEntity_choice labelled lower, fun E w => ?_⟩
    rw [E.switch_clausesOf proper known]
    rw [E.exhaustive_mem_choose proper, ← known, Option.isSome_eq_false_iff, Option.isNone_iff_eq_none]
    exact ⟨rfl, .rfl⟩
  · intro cases sole lower
    have proper : ∀ arm ∈ switchArms bodies cases, arm.Proper := by
      intro arm mem
      obtain ⟨k, bound, rfl⟩ := List.mem_mapIdx.1 mem
      exact ⟨by cases cases[k].value <;> simp, lower.inner (by simpa using bound)⟩
    refine ⟨_, lowerEntity_switch sole lower, fun E w => ?_⟩
    rw [E.switch_clausesOf proper (any_switchArms bodies cases), any_switchArms bodies cases]
    exact ⟨rfl, E.exhaustive_mem_choose proper w⟩

def Engine.fixed (text : String) : Engine Unit where
  equal _ code _ := (code.text = text, ())
  exec _ w := (w, false)
  inner_goes_on _ _ _ := rfl

/-- A match without a default, and a switch whose default stands between a case that falls into it and one that it
falls into. -/
theorem executed_of_fixed_subjects :
    let code (text : String) : Code := ⟨text, false, ⟨0, 0⟩⟩
    let body (text : String) : List Entity := [.text [.static text] ⟨0, 0⟩]
    let shown (text : String) : Stmt := .act (.appendText .parent [.static text])
    let choices : List MatchCase := [.mk [code "1", code "2"] (body "a") ⟨0, 0⟩, .mk [code "2"] (body "b") ⟨0, 0⟩]
    let cases : List SwitchCase :=
      [.mk (some ⟨code "1", false⟩) (body "a") true ⟨0, 0⟩, .mk none (body "b") true ⟨0, 0⟩,
      .mk (some ⟨code "2", false⟩) (body "c") false ⟨0, 0⟩, .mk (some ⟨code "3", false⟩) (body "d") true ⟨0, 0⟩]
    (∃ clauses, lowerEntity [] .scope [] (.choice ⟨code "x", false⟩ choices none ⟨0, 0⟩) =
        .ok (switchStatements ⟨.subject, []⟩ (code "x") clauses) ∧
      ((Engine.fixed "2").switch ⟨.subject, []⟩ clauses ()).1 = [shown "a"] ∧
      ((Engine.fixed "3").switch ⟨.subject, []⟩ clauses ()).1 = [.act (.exhaustive ⟨.subject, []⟩)]) ∧
    ∃ clauses, lowerEntity [] .scope [] (.switch ⟨code "x", false⟩ cases ⟨0, 0⟩) =
        .ok (switchStatements ⟨.subject, []⟩ (code "x") clauses) ∧
      ((Engine.fixed "1").switch ⟨.subject, []⟩ clauses ()).1 = [shown "a", shown "b", shown "c"] ∧
      ((Engine.fixed "3").switch ⟨.subject, []⟩ clauses ()).1 = [shown "d"] ∧
      ((Engine.fixed "4").switch ⟨.subject, []⟩ clauses ()).1 = [shown "b", shown "c"] := by
  intro code body shown choices cases
  let bodies : Nat → List Stmt := fun k => [shown (["a", "b", "c", "d"].getD k "")]
  have executes := lowered_switch_executes [] .scope [] ⟨code "x", false⟩ ⟨0, 0⟩ bodies
  constructor
  · obtain ⟨clauses, emitted, runs⟩ := executes.1 choices none (by simp [choices, MatchCase.patterns]) (by
      rintro (_ | _ | k) content found <;> cases found <;> rfl)
    exact ⟨clauses, emitted, by rw [(runs _ ()).1]; rfl, by rw [(runs _ ()).1]; rfl⟩
  · obtain ⟨clauses, emitted, runs⟩ := executes.2 cases (by decide) (by
      rintro (_ | _ | _ | _ | k) content found <;> cases found <;> rfl)
    exact ⟨clauses, emitted, by rw [(runs _ ()).1]; rfl, by rw [(runs _ ()).1]; rfl, by rw [(runs _ ()).1]; rfl⟩

end ComponentCompiler.Program
