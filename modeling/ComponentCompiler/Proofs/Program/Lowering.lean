import ComponentCompiler.Program.Module

/-!
# What lowering emits

`Lowers` lists the statements that an entity is lowered to, without the monad and its errors. Lowering fails for what is
wrong with the first entity of `reached` with which something is.
-/

namespace ComponentCompiler.Program

open Template

def gatherPlace (place : Place) (path : Path) (count : Nat) : Place :=
  if place.isReal && 2 ≤ count then ⟨place.real, .temp ⟨.fragment, path⟩, false⟩
  else if count = 1 then place else place.notLone

def gatherStatements (place : Place) (path : Path) (count : Nat) (statements : List Stmt) : List Stmt :=
  if place.isReal && 2 ≤ count then
    .act (.createFragment ⟨.fragment, path⟩) :: statements ++ [.act (.append place.real ⟨.fragment, path⟩)]
  else statements

def regionPlace (reactive : Bool) (place : Place) : Place := if reactive then .scope else place

def regionStatements (reactive : Bool) (place : Place) (statements : List Stmt) : List Stmt :=
  if reactive then [.region place statements] else statements

def Clause.label : Clause → Label
  | .mk label _ => label

def Label.expressions : Label → List String
  | .default => []
  | .values others last => (others ++ [last]).map Code.text

theorem matchLabel?_values {patterns label} (labelled : matchLabel? patterns = some label) :
    ∃ others last, label = .values others last ∧ others ++ [last] = patterns := by
  obtain ⟨last, found, rfl⟩ := Option.map_eq_some_iff.1 labelled
  obtain ⟨others, rfl⟩ := List.getLast?_eq_some_iff.1 found
  exact ⟨others, last, by simp, rfl⟩

theorem matchLabel?_expressions {patterns label} (labelled : matchLabel? patterns = some label) :
    label.expressions = patterns.map Code.text := by
  obtain ⟨others, last, rfl, rfl⟩ := matchLabel?_values labelled
  rfl

def lastClause (m : Temp) : Option (List Stmt) → Clause
  | some body => .mk .default (body ++ [.act .break])
  | none => exhaustiveClause m

def caseEnd (fallsThrough hasDefault : Bool) (others : List SwitchCase) : List Stmt :=
  if !fallsThrough || (others.isEmpty && !hasDefault) then [.act .break] else []

section

variable (slots : SlotTable)

mutual

inductive Lowers : Place → Path → Entity → List Stmt → Prop where
  | tag {place path tag body inner}
      (content : LowersList (.element ⟨.element, path⟩) path body inner) :
      Lowers place path (.tag tag body) (elementStatements ⟨.element, path⟩ tag [] place inner)
  | synced {place path kind sync tag body inner}
      (content : LowersList (.element ⟨.element, path⟩) path body inner) :
      Lowers place path (.synced kind sync tag body)
        (elementStatements ⟨.element, path⟩ tag (syncStatements ⟨.element, path⟩ kind sync.code) place inner)
  | text {place path items span} : Lowers place path (.text items span) (textStatements path place items)
  | component {place path inclusion insertions fillings}
      (content : LowersInsertions path 0 insertions fillings) :
      Lowers place path (.component inclusion insertions) [.component inclusion place fillings]
  | conditional {place inner : Place} {path condition body elseIfs otherwise span first branches last}
      (put : inner = regionPlace (conditionalReactive condition elseIfs) place)
      (content : LowersList inner (path ++ [0]) body first)
      (others : LowersElseIfs inner path 1 elseIfs branches)
      (final : LowersOptional inner (path ++ [elseIfs.length + 1]) otherwise last) :
      Lowers place path (.conditional condition body elseIfs otherwise span)
        (regionStatements (conditionalReactive condition elseIfs) place
          [.conditional condition.code first branches last])
  | each {place inner : Place} {path loop body span statements}
      (put : inner = regionPlace loop.collection.reactive place)
      (content : LowersList inner.notLone path body statements) :
      Lowers place path (.each loop body span)
        (regionStatements loop.collection.reactive place [.loop loop statements])
  | choice {place inner : Place} {path value cases default span clauses last}
      (put : inner = regionPlace value.reactive place)
      (content : LowersMatchCases inner path 0 cases clauses)
      (final : LowersOptional inner (path ++ [cases.length]) default last) :
      Lowers place path (.choice value cases default span)
        (regionStatements value.reactive place
          (switchStatements ⟨.subject, path⟩ value.code (clauses ++ [lastClause ⟨.subject, path⟩ last])))
  | switch {place inner : Place} {path value cases span clauses}
      (put : inner = regionPlace (switchReactive value cases) place)
      (sole : extraDefaults cases = [])
      (content : LowersSwitchCases (switchPlace inner cases) (cases.any (·.isDefault)) path 0 cases clauses) :
      Lowers place path (.switch value cases span)
        (regionStatements (switchReactive value cases) place
          (switchStatements ⟨.subject, path⟩ value.code
            (clauses ++ if cases.any (·.isDefault) then [] else [exhaustiveClause ⟨.subject, path⟩])))
  | requiredSlot {place path name span decl} (found : slots.find? name = some decl)
      (required : decl.optional = false) :
      Lowers place path (.slot name none span) [.act (.slot name place)]
  | optionalSlot {place path name span decl} (found : slots.find? name = some decl)
      (optional : decl.optional = true) :
      Lowers place path (.slot name none span) [.act (.optionalSlot name place)]
  | fallbackSlot {place path name fallback span decl statements} (found : slots.find? name = some decl)
      (optional : decl.optional = true) (content : LowersList .scope path fallback statements) :
      Lowers place path (.slot name (some fallback) span) [.fallbackSlot name place statements]
  | template {place path name params body span} : Lowers place path (.template name params body span) []
  | templateUse {place path name args span} :
      Lowers place path (.templateUse name args span) [.act (.templateUse name place args)]

inductive LowersList : Place → Path → List Entity → List Stmt → Prop where
  | gathered {place inner : Place} {path body statements}
      (put : inner = gatherPlace place path (renderedCount body))
      (content : LowersFrom inner path 0 body statements) :
      LowersList place path body (gatherStatements place path (renderedCount body) statements)

/-- A list whose first entity is numbered `i`, all of it at the same place. -/
inductive LowersFrom : Place → Path → Nat → List Entity → List Stmt → Prop where
  | nil {place path i} : LowersFrom place path i [] []
  | cons {place path i entity entities first rest} (head : Lowers place (path ++ [i]) entity first)
      (tail : LowersFrom place path (i + 1) entities rest) :
      LowersFrom place path i (entity :: entities) (first ++ rest)

inductive LowersOptional : Place → Path → Option (List Entity) → Option (List Stmt) → Prop where
  | none {place path} : LowersOptional place path none none
  | some {place path body statements} (content : LowersList place path body statements) :
      LowersOptional place path (some body) (some statements)

inductive LowersElseIfs : Place → Path → Nat → List ElseIf → List Branch → Prop where
  | nil {place path i} : LowersElseIfs place path i [] []
  | cons {place path i condition body elseIfs statements branches}
      (head : LowersList place (path ++ [i]) body statements)
      (tail : LowersElseIfs place path (i + 1) elseIfs branches) :
      LowersElseIfs place path i (.mk condition body :: elseIfs) (.mk condition.code statements :: branches)

inductive LowersMatchCases : Place → Path → Nat → List MatchCase → List Clause → Prop where
  | nil {place path i} : LowersMatchCases place path i [] []
  | skip {place path i patterns body span cases clauses} (unlabelled : matchLabel? patterns = none)
      (tail : LowersMatchCases place path (i + 1) cases clauses) :
      LowersMatchCases place path i (.mk patterns body span :: cases) clauses
  | cons {place path i patterns body span cases label statements clauses} (labelled : matchLabel? patterns = some label)
      (head : LowersList place (path ++ [i]) body statements)
      (tail : LowersMatchCases place path (i + 1) cases clauses) :
      LowersMatchCases place path i (.mk patterns body span :: cases)
        (.mk label (statements ++ [.act .break]) :: clauses)

inductive LowersSwitchCases :
    Place → Bool → Path → Nat → List SwitchCase → List Clause → Prop where
  | nil {place hasDefault path i} : LowersSwitchCases place hasDefault path i [] []
  | cons {place hasDefault path i value body falls span cases statements clauses}
      (head : LowersList place (path ++ [i]) body statements)
      (tail : LowersSwitchCases place hasDefault path (i + 1) cases clauses) :
      LowersSwitchCases place hasDefault path i (.mk value body falls span :: cases)
        (.mk (switchLabel value) (statements ++ caseEnd falls hasDefault cases) :: clauses)

inductive LowersInsertions : Path → Nat → List Insertion → List Filling → Prop where
  | nil {path i} : LowersInsertions path i [] []
  | cons {path i slot body span insertions statements fillings}
      (head : LowersList .scope (path ++ [i]) body statements)
      (tail : LowersInsertions path (i + 1) insertions fillings) :
      LowersInsertions path i (.mk slot body span :: insertions) (.mk slot statements :: fillings)

end

inductive LowersTemplates : Nat → List Entity → List Stmt → Prop where
  | nil {i} : LowersTemplates i [] []
  | template {i name params body span entities statements rest}
      (head : LowersList slots .scope [i] body statements)
      (tail : LowersTemplates (i + 1) entities rest) :
      LowersTemplates i (.template name params body span :: entities)
        (.template name params statements :: rest)
  | other {i entity entities rest} (shown : isRendered entity = true)
      (tail : LowersTemplates (i + 1) entities rest) :
      LowersTemplates i (entity :: entities) rest

/-! ### What stands in the way -/

def violation? : Entity → Option LoweringError
  | .slot name fallback span =>
    match slots.find? name with
    | none => some (.unknownSlot name span)
    | some decl => if !decl.optional && fallback.isSome then some (.requiredSlotFallback name span) else none
  | .switch _ cases _ => (cases.filter (·.isDefault))[1]?.map fun second => .duplicateDefault second.span
  | .insertion i => some (.misplacedInsertion i.span)
  | _ => none

def isOptionalSlot (name : String) : Bool := (slots.find? name).any (·.optional)

mutual

/-- The entity and what lowering comes to below it. Local templates are passed over. -/
def reached : Entity → List Entity
  | .tag tag body => .tag tag body :: reachedList body
  | .synced kind sync tag body => .synced kind sync tag body :: reachedList body
  | .text items span => [.text items span]
  | .component inclusion insertions => .component inclusion insertions :: reachedInsertions insertions
  | .conditional condition body elseIfs otherwise span =>
    .conditional condition body elseIfs otherwise span ::
      reachedList body ++ reachedElseIfs elseIfs ++ reachedOptional otherwise
  | .each loop body span => .each loop body span :: reachedList body
  | .choice value cases default span =>
    .choice value cases default span :: reachedMatchCases cases ++ reachedOptional default
  | .switch value cases span => .switch value cases span :: reachedSwitchCases cases
  | .slot name fallback span =>
    .slot name fallback span :: if isOptionalSlot slots name then reachedOptional fallback else []
  | .insertion insertion => [.insertion insertion]
  | .template .. => []
  | .templateUse name args span => [.templateUse name args span]

def reachedList : List Entity → List Entity
  | [] => []
  | entity :: entities => reached entity ++ reachedList entities

def reachedOptional : Option (List Entity) → List Entity
  | none => []
  | some body => reachedList body

def reachedElseIfs : List ElseIf → List Entity
  | [] => []
  | .mk _ body :: elseIfs => reachedList body ++ reachedElseIfs elseIfs

/-- A case without patterns is passed over. -/
def reachedMatchCases : List MatchCase → List Entity
  | [] => []
  | .mk patterns body _ :: cases =>
    (if patterns.isEmpty then [] else reachedList body) ++ reachedMatchCases cases

def reachedSwitchCases : List SwitchCase → List Entity
  | [] => []
  | .mk _ body _ _ :: cases => reachedList body ++ reachedSwitchCases cases

def reachedInsertions : List Insertion → List Entity
  | [] => []
  | .mk _ body _ :: insertions => reachedList body ++ reachedInsertions insertions

end

/-- What lowering comes to in the bodies of the local templates of a list. -/
def reachedTemplates : List Entity → List Entity
  | [] => []
  | .template _ _ body _ :: entities => reachedList slots body ++ reachedTemplates entities
  | _ :: entities => reachedTemplates entities

def firstViolation? (entities : List Entity) : Option LoweringError :=
  entities.findSome? (violation? slots)

end

/-! ### Lowering by cases -/

theorem bind_ok {m : Lowering α} {f : α → Lowering β} {b} (h : m >>= f = .ok b) : ∃ a, m = .ok a ∧ f a = .ok b := by
  cases m with
  | error e => cases h
  | ok a => exact ⟨a, rfl, h⟩

/-- Lowering fails for the given fault, or there is none and its result has `P`. -/
def Lowered (fault : Option LoweringError) (P : α → Prop) : Lowering α → Prop
  | .error e => fault = some e
  | .ok a => fault = none ∧ P a

namespace Lowered

variable {fault fault' : Option LoweringError} {P : α → Prop} {Q : β → Prop} {m : Lowering α} {f : α → Lowering β}

theorem pure {a} (h : P a) : Lowered none P (pure a) := ⟨rfl, h⟩

theorem bind (first : Lowered fault P m) (next : ∀ a, P a → Lowered fault' Q (f a)) :
    Lowered (fault.or fault') Q (m >>= f) := by
  cases m with
  | error e =>
    cases (first : fault = some e)
    rfl
  | ok a =>
    obtain ⟨rfl, holds⟩ := first
    exact next a holds

theorem last {g : α → β} (first : Lowered fault P m) (next : ∀ a, P a → Q (g a)) :
    Lowered fault Q (m >>= fun a => Pure.pure (g a)) := by
  cases m with
  | error e => exact first
  | ok a => exact ⟨first.1, next a first.2⟩

theorem mono {Q : α → Prop} (h : Lowered fault P m) (weaker : ∀ a, P a → Q a) : Lowered fault Q m := by
  cases m with
  | error e => exact h
  | ok a => exact ⟨h.1, weaker a h.2⟩

theorem holds {a} (h : Lowered fault P m) (ran : m = .ok a) : P a := by
  subst ran
  exact h.2

theorem error_iff {e} (h : Lowered fault P m) : m = .error e ↔ fault = some e := by
  cases m with
  | error e' =>
    have same : fault = some e' := h
    simp [same]
  | ok a => simp [h.1]

end Lowered

section

variable (slots : SlotTable)

theorem firstViolation?_cons (e : Entity) (es : List Entity) :
    firstViolation? slots (e :: es) = (violation? slots e).or (firstViolation? slots es) := by
  rw [firstViolation?, List.findSome?_cons]
  cases violation? slots e <;> rfl

@[simp] theorem firstViolation?_append (a b : List Entity) :
    firstViolation? slots (a ++ b) = (firstViolation? slots a).or (firstViolation? slots b) :=
  List.findSome?_append

theorem firstViolation?_sound {e} (sound : violation? slots e = none) (es : List Entity) :
    firstViolation? slots (e :: es) = firstViolation? slots es := by
  rw [firstViolation?_cons, sound, Option.none_or]

theorem extraDefaults_head (cases : List SwitchCase) :
    (extraDefaults cases).head? = (cases.filter (·.isDefault))[1]? := by
  rw [extraDefaults, List.head?_drop]

end

section

variable {slots : SlotTable} {fault : Option LoweringError} {place : Place} {path : Path}

theorem gather_lowered {es}
    (content : ∀ p, Lowered fault (LowersFrom slots p path 0 es) (lowerFrom slots p path 0 es)) :
    Lowered fault (LowersList slots place path es) (lowerList slots place path es) := by
  have gathered {s} := @LowersList.gathered slots place _ path es s rfl
  unfold gatherPlace gatherStatements at gathered
  unfold lowerList gather
  split at gathered
  · rename_i wide
    rw [if_pos wide]
    exact (content _).last fun _ => gathered
  · rename_i narrow
    rw [if_neg narrow]
    exact (content _).mono fun _ => gathered

theorem regional_lowered {reactive} {Q : List Stmt → Prop} {body : Place → Lowering (List Stmt)}
    (content : Lowered fault (fun s => Q (regionStatements reactive place s)) (body (regionPlace reactive place))) :
    Lowered fault Q (regional reactive place body) := by
  cases reactive with
  | false => exact content
  | true => exact content.last fun _ => id

end

section

variable {slots : SlotTable}

mutual

theorem lowerEntity_lowered (e : Entity) (place : Place) (path : Path) :
    Lowered (firstViolation? slots (reached slots e)) (Lowers slots place path e) (lowerEntity slots place path e) := by
  match e with
  | .tag tag body =>
    rw [lowerEntity, reached, firstViolation?_sound slots rfl]
    exact (gather_lowered (lowerFrom_lowered body · path 0)).last fun _ content => .tag content
  | .synced kind sync tag body =>
    rw [lowerEntity, reached, firstViolation?_sound slots rfl]
    exact (gather_lowered (lowerFrom_lowered body · path 0)).last fun _ content => .synced content
  | .text items span =>
    rw [lowerEntity, reached]
    exact .pure .text
  | .component inclusion insertions =>
    rw [lowerEntity, reached, firstViolation?_sound slots rfl]
    exact (lowerInsertions_lowered insertions path 0).last fun _ content => .component content
  | .conditional condition body elseIfs otherwise span =>
    rw [lowerEntity, reached, List.cons_append, List.cons_append, firstViolation?_sound slots rfl,
      firstViolation?_append,
      firstViolation?_append, Option.or_assoc]
    refine regional_lowered ((gather_lowered (lowerFrom_lowered body · _ 0)).bind fun _ content => ?_)
    refine (lowerElseIfs_lowered elseIfs _ path 1).bind fun _ others => ?_
    exact (lowerOptional_lowered otherwise _ _).last fun _ final => .conditional rfl content others final
  | .each loop body span =>
    rw [lowerEntity, reached, firstViolation?_sound slots rfl]
    exact regional_lowered ((gather_lowered (lowerFrom_lowered body · path 0)).last fun _ content => .each rfl content)
  | .choice value cases default span =>
    rw [lowerEntity, reached, List.cons_append, firstViolation?_sound slots rfl, firstViolation?_append]
    refine regional_lowered ((lowerMatchCases_lowered cases _ path 0).bind fun _ content => ?_)
    refine (lowerOptional_lowered default _ _).last fun last final => ?_
    cases last <;> exact .choice rfl content final
  | .switch value cases span =>
    rw [lowerEntity, reached, firstViolation?_cons]
    refine regional_lowered ?_
    have second := extraDefaults_head cases
    dsimp only [violation?]
    rw [← second]
    cases sole : extraDefaults cases with
    | cons extra others => rfl
    | nil => exact (lowerSwitchCases_lowered cases _ _ path 0).last fun _ content => .switch rfl sole content
  | .slot name fallback span =>
    rw [lowerEntity, reached, firstViolation?_cons]
    cases found : slots.find? name with
    | none =>
      simp only [slotStatements, violation?, found]
      rfl
    | some decl =>
      cases optional : decl.optional with
      | false =>
        cases fallback with
        | none =>
          simp only [slotStatements, found, optional]
          exact ⟨by simp [violation?, isOptionalSlot, found, optional, firstViolation?], .requiredSlot found optional⟩
        | some body =>
          simp only [slotStatements, violation?, found, optional, lowerFallback]
          rfl
      | true =>
        simp only [slotStatements, violation?, isOptionalSlot, found, optional, Option.any_some, if_true]
        cases fallback with
        | none => exact ⟨rfl, .optionalSlot found optional⟩
        | some body =>
          exact (gather_lowered (lowerFrom_lowered body · path 0)).last fun _ content =>
            .fallbackSlot found optional content
  | .insertion insertion =>
    rw [lowerEntity, reached]
    rfl
  | .template name params body span =>
    rw [lowerEntity, reached]
    exact .pure .template
  | .templateUse name args span =>
    rw [lowerEntity, reached]
    exact .pure .templateUse

theorem lowerFrom_lowered (es : List Entity) (place : Place) (path : Path) (i : Nat) :
    Lowered (firstViolation? slots (reachedList slots es)) (LowersFrom slots place path i es)
      (lowerFrom slots place path i es) := by
  match es with
  | [] => exact .pure .nil
  | e :: es =>
    rw [lowerFrom, reachedList, firstViolation?_append]
    refine (lowerEntity_lowered e _ _).bind fun _ head => ?_
    exact (lowerFrom_lowered es _ _ _).last fun _ tail => .cons head tail

theorem lowerOptional_lowered (body : Option (List Entity)) (place : Place) (path : Path) :
    Lowered (firstViolation? slots (reachedOptional slots body)) (LowersOptional slots place path body)
      (lowerOptional slots place path body) := by
  match body with
  | none => exact .pure .none
  | some body =>
    rw [lowerOptional, reachedOptional]
    exact (gather_lowered (lowerFrom_lowered body · path 0)).last fun _ content => .some content

theorem lowerElseIfs_lowered (elseIfs : List ElseIf) (place : Place) (path : Path) (i : Nat) :
    Lowered (firstViolation? slots (reachedElseIfs slots elseIfs)) (LowersElseIfs slots place path i elseIfs)
      (lowerElseIfs slots place path i elseIfs) := by
  match elseIfs with
  | [] => exact .pure .nil
  | .mk condition body :: elseIfs =>
    rw [lowerElseIfs, reachedElseIfs, firstViolation?_append]
    refine (gather_lowered (lowerFrom_lowered body · _ 0)).bind fun _ head => ?_
    exact (lowerElseIfs_lowered elseIfs _ _ _).last fun _ tail => .cons head tail

theorem lowerMatchCases_lowered (cases : List MatchCase) (place : Place) (path : Path) (i : Nat) :
    Lowered (firstViolation? slots (reachedMatchCases slots cases)) (LowersMatchCases slots place path i cases)
      (lowerMatchCases slots place path i cases) := by
  match cases with
  | [] => exact .pure .nil
  | .mk patterns body span :: cases =>
    have later := lowerMatchCases_lowered cases place path (i + 1)
    rw [lowerMatchCases, reachedMatchCases, firstViolation?_append]
    cases patterns with
    | nil => exact later.mono fun _ => .skip rfl
    | cons pattern patterns =>
      obtain ⟨label, labelled⟩ : ∃ label, matchLabel? (pattern :: patterns) = some label := by
        simp [matchLabel?, List.getLast?_cons]
      rw [labelled, List.isEmpty_cons, if_neg (by decide)]
      refine (gather_lowered (lowerFrom_lowered body · _ 0)).bind fun _ head => ?_
      exact later.last fun _ tail => .cons labelled head tail

theorem lowerSwitchCases_lowered (cases : List SwitchCase) (place : Place) (hasDefault : Bool) (path : Path) (i : Nat) :
    Lowered (firstViolation? slots (reachedSwitchCases slots cases))
      (LowersSwitchCases slots place hasDefault path i cases)
      (lowerSwitchCases slots place hasDefault path i cases) := by
  match cases with
  | [] => exact .pure .nil
  | .mk value body falls span :: cases =>
    rw [lowerSwitchCases, reachedSwitchCases, firstViolation?_append]
    refine (gather_lowered (lowerFrom_lowered body · _ 0)).bind fun _ head => ?_
    exact (lowerSwitchCases_lowered cases _ _ _ _).last fun _ tail => .cons head tail

theorem lowerInsertions_lowered (insertions : List Insertion) (path : Path) (i : Nat) :
    Lowered (firstViolation? slots (reachedInsertions slots insertions)) (LowersInsertions slots path i insertions)
      (lowerInsertions slots path i insertions) := by
  match insertions with
  | [] => exact .pure .nil
  | .mk slot body span :: insertions =>
    rw [lowerInsertions, reachedInsertions, firstViolation?_append]
    refine (gather_lowered (lowerFrom_lowered body · _ 0)).bind fun _ head => ?_
    exact (lowerInsertions_lowered insertions _ _).last fun _ tail => .cons head tail

end

theorem lowerList_lowered (es : List Entity) (place : Place) (path : Path) :
    Lowered (firstViolation? slots (reachedList slots es)) (LowersList slots place path es)
      (lowerList slots place path es) :=
  gather_lowered (lowerFrom_lowered es · path 0)

theorem lowerTemplates_lowered (es : List Entity) (i : Nat) :
    Lowered (firstViolation? slots (reachedTemplates slots es)) (LowersTemplates slots i es)
      (lowerTemplates slots i es) := by
  induction es generalizing i with
  | nil => exact .pure .nil
  | cons e es ih =>
    cases e with
    | template name params body span =>
      rw [lowerTemplates, reachedTemplates, firstViolation?_append]
      exact (lowerList_lowered body _ _).bind fun _ head => (ih _).last fun _ tail => .template head tail
    | _ => exact (ih _).mono fun _ => .other rfl

theorem ofEntities_lowered (es : List Entity) :
    Lowered (firstViolation? slots (reachedTemplates slots es ++ reachedList slots es))
      (fun s => ∃ templates body, LowersTemplates slots 0 es templates ∧ LowersList slots .scope [] es body ∧
        s = templates ++ body) (ofEntities slots es) := by
  rw [firstViolation?_append]
  refine (lowerTemplates_lowered es 0).bind fun templates hoisted => ?_
  exact (lowerList_lowered es .scope []).last fun body shown => ⟨templates, body, hoisted, shown, rfl⟩

theorem lowerList_lowers {place path es s} (h : lowerList slots place path es = .ok s) :
    LowersList slots place path es s :=
  (lowerList_lowered es place path).holds h

theorem ofEntities_lowers {es s} (h : ofEntities slots es = .ok s) :
    ∃ templates body, LowersTemplates slots 0 es templates ∧ LowersList slots .scope [] es body ∧
      s = templates ++ body := (ofEntities_lowered es).holds h

end

/-- Generating fails exactly if something is wrong with an entity that lowering comes to, first in the local templates
and then in what is shown, and it fails for what is wrong with the first of them. -/
theorem generate_error_iff (c : Component) (script : Option String) (additions : List Addition) (runtime : String) :
    let found := reachedTemplates c.slots c.entities ++ reachedList c.slots c.entities
    ((∃ e, generate c script additions runtime = .error e) ↔ ∃ x ∈ found, (violation? c.slots x).isSome) ∧
      ∀ e, generate c script additions runtime = .error e ↔ found.findSome? (violation? c.slots) = some e := by
  intro found
  have lowered : Lowered (firstViolation? c.slots found) (fun _ => True) (generate c script additions runtime) :=
    (ofEntities_lowered c.entities).last fun _ _ => trivial
  have first (e : LoweringError) :
      generate c script additions runtime = .error e ↔ found.findSome? (violation? c.slots) = some e :=
        lowered.error_iff
  refine ⟨?_, first⟩
  simp only [first, ← Option.isSome_iff_exists, List.findSome?_isSome_iff]

/-- A local template is looked at before the switch in front of it, and without the template inside it. -/
example : ofEntities []
    [.switch ⟨⟨"n", true, ⟨0, 1⟩⟩, false⟩
        [.mk none [.insertion (.mk "a" [] ⟨2, 3⟩)] false ⟨4, 5⟩, .mk none [] false ⟨6, 7⟩] ⟨0, 7⟩,
      .template "t" [] [.template "u" [] [.slot "x" none ⟨8, 9⟩] ⟨8, 9⟩, .slot "y" none ⟨10, 11⟩] ⟨8, 11⟩] =
    .error (.unknownSlot "y" ⟨10, 11⟩) := rfl

end ComponentCompiler.Program
