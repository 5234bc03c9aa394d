import ComponentCompiler.Proofs.Brackets.Body

/-!
# The depth of written statements

The lines of lowered entities end at the depth they start at and stay at or above it: `lowered_level`.
-/

namespace ComponentCompiler

namespace Text.Writer

/-- The depth behind a step. -/
def Step.behind {α : Type} (depth : Nat) : Step α → Nat
  | .enter _ | .indent => depth + 1
  | .leave _ | .dedent => depth - 1
  | _ => depth

def Step.falls {α : Type} : Step α → Bool
  | .leave _ | .dedent => true
  | _ => false

def behind {α : Type} (depth : Nat) (steps : List (Step α)) : Nat := steps.foldl Step.behind depth

/-- Steps that end at the depth they start at. In between they are never below it, so that no step down stops short,
and they only append. -/
structure Level (w : Writer) (steps : List (Step String)) : Prop where
  depth : (w.run steps).depth = w.depth
  above : ∀ a b, steps = a ++ b → w.depth ≤ (w.run a).depth
  falls : ∀ a step b, steps = a ++ step :: b → step.falls = true → w.depth < (w.run a).depth
  code : ∃ text, (w.run steps).code = w.code ++ text

theorem run_behind_depth (w : Writer) (steps : List (Step String)) : (w.run steps).depth = behind w.depth steps := by
  induction steps generalizing w with
  | nil => rfl
  | cons step steps ih =>
    have first : (w.apply step).depth = step.behind w.depth := by
      cases step <;> simp only [apply, Step.behind, push, indent, dedent] <;> rw [line_eq]
    exact (ih (w.apply step)).trans (by rw [first]; rfl)

theorem behind_map {α β : Type} (f : α → β) (depth : Nat) (steps : List (Step α)) :
    behind depth (steps.map (Step.map f)) = behind depth steps := by
  induction steps generalizing depth with
  | nil => rfl
  | cons step steps ih => cases step <;> exact ih _

section

variable {α : Type} {steps : List (Step α)}

theorem behind_append (depth : Nat) (a b : List (Step α)) : behind depth (a ++ b) = behind (behind depth a) b :=
  List.foldl_append

/-- One level more at the start is at most one level more at the end. -/
theorem behind_succ (depth : Nat) (steps : List (Step α)) :
    behind (depth + 1) steps = behind depth steps ∨ behind (depth + 1) steps = behind depth steps + 1 := by
  induction steps generalizing depth with
  | nil => exact .inr rfl
  | cons step steps ih =>
    have first : step.behind (depth + 1) = step.behind depth ∨ step.behind (depth + 1) = step.behind depth + 1 := by
      cases step with
      | leave | dedent => cases depth with
        | zero => exact .inl rfl
        | succ depth => exact .inr rfl
      | _ => exact .inr rfl
    have later (d : Nat) : behind d (step :: steps) = behind (step.behind d) steps := rfl
    rw [later, later]
    rcases first with same | more
    · exact .inl (by rw [same])
    · rw [more]
      exact ih _

/-- Where the end is one level more as well, every place in between is: no step down has stopped at zero. -/
theorem behind_succ_of_level (level : ∀ depth, behind depth steps = depth) {a b}
    (parts : steps = a ++ b) (depth : Nat) :
    behind (depth + 1) a = behind depth a + 1 := by
  refine (behind_succ depth a).resolve_left fun same => ?_
  have there := level (depth + 1)
  rw [parts, behind_append, same, ← behind_append, ← parts, level] at there
  omega

theorem le_behind_of_level (level : ∀ depth, behind depth steps = depth) {a b} (parts : steps = a ++ b) (depth : Nat) :
    depth ≤ behind depth a := by
  induction depth with
  | zero => exact Nat.zero_le _
  | succ depth ih =>
    rw [behind_succ_of_level level parts]
    omega

theorem lt_behind_of_falls (level : ∀ depth, behind depth steps = depth) {a step b} (parts : steps = a ++ step :: b)
    (falls : step.falls = true) (depth : Nat) : depth < behind depth a := by
  have whole : steps = (a ++ [step]) ++ b := by simpa using parts
  have grows := behind_succ_of_level level whole depth
  have bound := le_behind_of_level level whole depth
  have here (d : Nat) : behind d (a ++ [step]) = behind d a - 1 := by
    cases step with
    | leave | dedent => exact behind_append d a _
    | _ => cases falls
  rw [here, here, behind_succ_of_level level parts] at grows
  rw [here] at bound
  omega

end

theorem Level.of_behind {steps : List (Step String)} (level : ∀ depth, behind depth steps = depth) (w : Writer) :
    w.Level steps where
  depth := by rw [run_behind_depth, level]
  above a b parts := by
    rw [run_behind_depth]
    exact le_behind_of_level level parts w.depth
  falls a step b parts falls := by
    rw [run_behind_depth]
    exact lt_behind_of_falls level parts falls w.depth
  code := ⟨_, by rw [run_behind]⟩

end Text.Writer

namespace Program

open Text (Writer)
open Text.Writer (Step behind)

theorem follow_behind {n n' : Nest} {steps : Steps} (followed : follow n steps = some n') :
    behind n.depth steps = n'.depth := by
  induction steps generalizing n with
  | nil =>
    cases followed
    rfl
  | cons step steps ih =>
    obtain ⟨mid, first, others⟩ := Option.bind_eq_some_iff.1 followed
    have depth : step.behind n.depth = mid.depth := by
      cases step with
      | line l | enter l | leave l =>
        obtain ⟨after, -, rfl⟩ := Option.map_eq_some_iff.1 first
        rfl
      | push l => cases first
      | indent | dedent | newline =>
        cases first
        rfl
    exact (congrArg (behind · steps) depth).trans (ih others)

theorem steps_level (statements : List Stmt) (w : Writer) :
    w.Level ((steps statements).map (Step.map Line.text)) := by
  refine .of_behind (fun depth => ?_) w
  rw [Text.Writer.behind_map]
  exact follow_behind (steps_balances statements [] depth rfl)

/-- Writing what an entity or a list of entities is lowered to leaves the indentation as it was. -/
theorem lowered_level (slots : SlotTable) (place : Place) (path : Path) (w : Writer) :
    (∀ entity statements, lowerEntity slots place path entity = .ok statements →
      w.Level ((steps statements).map (Step.map Line.text))) ∧
    ∀ entities statements, lowerList slots place path entities = .ok statements →
      w.Level ((steps statements).map (Step.map Line.text)) :=
  ⟨fun _ statements _ => steps_level statements w, fun _ statements _ => steps_level statements w⟩

/-- A condition with two branches, in a region of its own. -/
theorem reactive_condition_level :
    let condition : Template.Expr := ⟨⟨"a", true, ⟨0, 0⟩⟩, true⟩
    let entity : Template.Entity := .conditional condition [.text [.static "b"] ⟨0, 0⟩] [] (some []) ⟨0, 0⟩
    ∃ statements, lowerEntity [] .scope [0] entity = .ok statements ∧
      Writer.Level {} ((steps statements).map (Step.map Line.text)) := by
  intro condition entity
  have lowered : lowerEntity [] .scope [0] entity = .ok _ := rfl
  exact ⟨_, lowered, (lowered_level [] .scope [0] {}).1 entity _ lowered⟩

end Program

end ComponentCompiler
