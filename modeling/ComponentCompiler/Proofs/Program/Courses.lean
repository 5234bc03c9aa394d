import ComponentCompiler.Program.Lower

/-!
# Courses of a generated program

A course is one way through the statements of a program, as the events that happen to nodes.
-/

namespace ComponentCompiler.Program

open Template

inductive Operation where
  /-- The template itself binds the `textContent` of the element. -/
  | bound
  /-- The content is replaced, by a text or by a region that takes it over. -/
  | replace
  /-- A node is appended, or a call gets the node to put something into it. -/
  | add
  deriving DecidableEq

inductive Event where
  | create (t : Temp)
  | operate (node : Node) (operation : Operation)
  deriving DecidableEq

def Action.events : Action → List Event
  | .createElement t _ _ | .createFragment t => [.create t]
  | .bind e name _ => if name = "textContent" then [.operate (.temp e) .bound] else []
  | .append node _ | .appendText node _ => [.operate node .add]
  | .setContent node _ => [.operate node .replace]
  | .slot _ place | .optionalSlot _ place | .templateUse _ place _ => [.operate place.real .add]
  | _ => []

def regionEvent (place : Place) : Event := .operate place.real (if place.lone then .replace else .add)

/-- Which events may take place, and whether a `break` ends them. -/
abbrev Course := List Event → Bool → Prop

namespace Course

def still : Course := fun events broken => events = [] ∧ broken = false

def andThen (first second : Course) : Course := fun events broken =>
  (first events true ∧ broken = true) ∨
    ∃ before after, first before false ∧ second after broken ∧ events = before ++ after

inductive Rounds (body : Course) : List Event → Prop where
  | done : Rounds body []
  | next {events more} (round : body events false) (rest : Rounds body more) : Rounds body (events ++ more)
  | broken {events} (round : body events true) : Rounds body events

inductive Calls (functions : List Course) : List Event → Prop where
  | done : Calls functions []
  | next {function events broken more} (mem : function ∈ functions) (call : function events broken)
      (rest : Calls functions more) : Calls functions (events ++ more)

inductive Falls : List Course → List Event → Prop where
  | done : Falls [] []
  | through {clause clauses events more} (run : clause events false) (rest : Falls clauses more) :
      Falls (clause :: clauses) (events ++ more)
  | broken {clause clauses events} (run : clause events true) : Falls (clause :: clauses) events

end Course

open Course

mutual

/-- An effect counts once: its later runs repeat the one action. -/
def Stmt.course : Stmt → Course
  | .act action => fun events broken => events = action.events ∧ broken = decide (action = .break)
  | .effect action => fun events broken => events = action.events ∧ broken = false
  | .selectOptions _ _ => still
  | .region place body => fun events broken =>
    ∃ inside, Calls [course body] inside ∧ events = regionEvent place :: inside ∧ broken = false
  | .conditional _ body elseIfs otherwise => fun events broken =>
    (∃ branch ∈ course body :: (branchCourses elseIfs ++ otherwiseCourses otherwise), branch events broken) ∨
      (otherwise.isNone = true ∧ events = [] ∧ broken = false)
  | .loop _ body => fun events broken => Rounds (course body) events ∧ broken = false
  | .switch _ clauses => fun events broken =>
    (∃ skipped entered, clauseCourses clauses = skipped ++ entered ∧ Falls entered events) ∧ broken = false
  | .fallbackSlot _ place body => fun events broken =>
    ∃ inside, Calls [course body] inside ∧ events = .operate place.real .add :: inside ∧ broken = false
  | .component _ place fillings => fun events broken =>
    ∃ inside, Calls (fillingCourses fillings) inside ∧ events = .operate place.real .add :: inside ∧ broken = false
  | .template _ _ body => fun events broken => Calls [course body] events ∧ broken = false

def course : List Stmt → Course
  | [] => still
  | s :: rest => s.course.andThen (course rest)

def otherwiseCourses : Option (List Stmt) → List Course
  | none => []
  | some body => [course body]

def branchCourses : List Branch → List Course
  | [] => []
  | .mk _ body :: branches => course body :: branchCourses branches

def clauseCourses : List Clause → List Course
  | [] => []
  | .mk _ body :: clauses => course body :: clauseCourses clauses

def fillingCourses : List Filling → List Course
  | [] => []
  | .mk _ body :: fillings => course body :: fillingCourses fillings

end

theorem clauseCourses_append (first second : List Clause) :
    clauseCourses (first ++ second) = clauseCourses first ++ clauseCourses second := by
  induction first with
  | nil => rfl
  | cons clause clauses ih =>
    cases clause with
    | mk label body => simp [clauseCourses, ih]

theorem course_append {first second events broken} (h : course (first ++ second) events broken) :
    (course first).andThen (course second) events broken := by
  induction first generalizing events with
  | nil => exact .inr ⟨[], events, ⟨rfl, rfl⟩, h, rfl⟩
  | cons s first ih =>
    rcases h with ⟨stopped, rfl⟩ | ⟨before, after, ran, later, rfl⟩
    · exact .inl ⟨.inl ⟨stopped, rfl⟩, rfl⟩
    · rcases ih later with ⟨stopped, rfl⟩ | ⟨middle, last, ranMiddle, ranLast, rfl⟩
      · exact .inl ⟨.inr ⟨before, after, ran, stopped, rfl⟩, rfl⟩
      · refine .inr ⟨before ++ middle, last, .inr ⟨before, middle, ran, ranMiddle, rfl⟩, ranLast, ?_⟩
        rw [List.append_assoc]

/-- What is done to the content of a node before it is created. -/
def prior (t : Temp) : List Event → List Operation
  | [] => []
  | .create u :: events => if u = t then [] else prior t events
  | .operate node operation :: events =>
    if node = .temp t then operation :: prior t events else prior t events

/-- What is done to the content of each node that is created under this name, in order. -/
def lives (t : Temp) : List Event → List (List Operation)
  | [] => []
  | .create u :: events => if u = t then prior t events :: lives t events else lives t events
  | .operate _ _ :: events => lives t events

section

variable {t : Temp} {first second : List Event}

theorem prior_append (uncreated : .create t ∉ first) : prior t (first ++ second) = prior t first ++ prior t second := by
  induction first with
  | nil => rfl
  | cons event first ih =>
    obtain ⟨other, later⟩ := not_or.1 (mt List.mem_cons.2 uncreated)
    cases event with
    | create u =>
      have different : u ≠ t := fun same => other (by rw [same])
      simp [prior, different, ih later]
    | operate node operation =>
      by_cases own : node = .temp t <;> simp [prior, own, ih later]

theorem prior_append_of_prior_eq_nil (quiet : prior t second = []) : prior t (first ++ second) = prior t first := by
  induction first with
  | nil => exact quiet
  | cons event first ih => cases event <;> simp only [List.cons_append, prior, ih]

theorem lives_append (quiet : prior t second = []) : lives t (first ++ second) = lives t first ++ lives t second := by
  induction first with
  | nil => rfl
  | cons event first ih =>
    cases event with
    | create u =>
      simp only [List.cons_append, lives, ih, prior_append_of_prior_eq_nil quiet]
      split <;> rfl
    | operate node operation => simpa only [List.cons_append, lives] using ih

theorem lives_eq_nil {events} (uncreated : .create t ∉ events) : lives t events = [] := by
  induction events with
  | nil => rfl
  | cons event events ih =>
    obtain ⟨other, later⟩ := not_or.1 (mt List.mem_cons.2 uncreated)
    cases event with
    | create u =>
      have different : u ≠ t := fun same => other (by rw [same])
      simp [lives, different, ih later]
    | operate node operation => exact ih later

end

end ComponentCompiler.Program
