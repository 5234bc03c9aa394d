import ComponentCompiler.Compile
import ComponentCompiler.Proofs.Check.Closed

/-!
# Accepted templates have a program

Lowering reaches only what occurs in the entities, and nothing that occurs in accepted entities breaks a rule.
-/

namespace ComponentCompiler

namespace Program

open Template

def Succeeds (m : Lowering α) : Prop := ∃ a, m = .ok a

section

variable {slots : SlotTable}

mutual

theorem occurs_of_reached (e : Entity) {x} (mem : x ∈ reached slots e) : x = e ∨ Occurs x e.content := by
  match e with
  | .tag _ body | .synced _ _ _ body | .each _ body _ =>
    rw [reached] at mem
    exact (List.mem_cons.1 mem).imp_right (occurs_of_reachedList body)
  | .text .. | .insertion _ | .templateUse .. =>
    rw [reached] at mem
    exact .inl (List.mem_singleton.1 mem)
  | .component _ insertions =>
    rw [reached] at mem
    exact (List.mem_cons.1 mem).imp_right (occurs_of_reachedInsertions insertions)
  | .conditional _ body elseIfs otherwise _ =>
    rw [reached, List.cons_append, List.cons_append] at mem
    refine (List.mem_cons.1 mem).imp_right fun below => ?_
    simp only [Entity.content, occurs_append, List.mem_append] at below ⊢
    exact below.imp (Or.imp (occurs_of_reachedList body) (occurs_of_reachedElseIfs elseIfs))
      (occurs_of_reachedOptional otherwise)
  | .choice _ cases default _ =>
    rw [reached, List.cons_append] at mem
    refine (List.mem_cons.1 mem).imp_right fun below => occurs_append.2 ?_
    exact (List.mem_append.1 below).imp (occurs_of_reachedMatchCases cases) (occurs_of_reachedOptional default)
  | .switch _ cases _ =>
    rw [reached] at mem
    exact (List.mem_cons.1 mem).imp_right (occurs_of_reachedSwitchCases cases)
  | .slot name fallback _ =>
    rw [reached] at mem
    refine (List.mem_cons.1 mem).imp_right fun below => ?_
    split at below
    · exact occurs_of_reachedOptional fallback below
    · cases below
  | .template .. =>
    rw [reached] at mem
    cases mem

theorem occurs_of_reachedList (es : List Entity) {x} (mem : x ∈ reachedList slots es) : Occurs x es := by
  match es with
  | [] => cases mem
  | e :: es =>
    rw [occurs_cons, ← or_assoc]
    exact (List.mem_append.1 mem).imp (occurs_of_reached e) (occurs_of_reachedList es)

theorem occurs_of_reachedOptional (body : Option (List Entity)) {x} (mem : x ∈ reachedOptional slots body) :
    Occurs x (body.getD []) := by
  match body with
  | none => cases mem
  | some body => exact occurs_of_reachedList body mem

theorem occurs_of_reachedElseIfs (elseIfs : List ElseIf) {x} (mem : x ∈ reachedElseIfs slots elseIfs) :
    Occurs x (elseIfs.flatMap ElseIf.body) := by
  match elseIfs with
  | [] => cases mem
  | .mk _ body :: elseIfs =>
    exact occurs_append.2
      ((List.mem_append.1 mem).imp (occurs_of_reachedList body) (occurs_of_reachedElseIfs elseIfs))

theorem occurs_of_reachedMatchCases (cases : List MatchCase) {x} (mem : x ∈ reachedMatchCases slots cases) :
    Occurs x (cases.flatMap MatchCase.body) := by
  match cases with
  | [] => cases mem
  | .mk patterns body _ :: rest =>
    refine occurs_append.2 ((List.mem_append.1 mem).imp (fun here => ?_) (occurs_of_reachedMatchCases rest))
    split at here
    · cases here
    · exact occurs_of_reachedList body here

theorem occurs_of_reachedSwitchCases (cases : List SwitchCase) {x} (mem : x ∈ reachedSwitchCases slots cases) :
    Occurs x (cases.flatMap SwitchCase.body) := by
  match cases with
  | [] => cases mem
  | .mk _ body _ _ :: rest =>
    exact occurs_append.2 ((List.mem_append.1 mem).imp (occurs_of_reachedList body) (occurs_of_reachedSwitchCases rest))

theorem occurs_of_reachedInsertions (insertions : List Insertion) {x} (mem : x ∈ reachedInsertions slots insertions) :
    Occurs x (insertions.flatMap Insertion.body) := by
  match insertions with
  | [] => cases mem
  | .mk _ body _ :: insertions =>
    exact occurs_append.2
      ((List.mem_append.1 mem).imp (occurs_of_reachedList body) (occurs_of_reachedInsertions insertions))

end

theorem occurs_of_reachedTemplates {es x} (mem : x ∈ reachedTemplates slots es) : Occurs x es := by
  fun_induction reachedTemplates slots es with
  | case1 => cases mem
  | case2 name params body span rest ih =>
    rw [occurs_cons]
    exact .inr ((List.mem_append.1 mem).imp (occurs_of_reachedList body) ih)
  | case3 e rest _ ih => exact occurs_cons.2 (.inr (.inr (ih mem)))

theorem ofEntities_succeeds {es} (sound : ∀ x, Occurs x es → violation? slots x = none) :
    Succeeds (ofEntities slots es) := by
  have fine : firstViolation? slots (reachedTemplates slots es ++ reachedList slots es) = none := by
    refine List.findSome?_eq_none_iff.2 fun x mem => sound x ?_
    exact (List.mem_append.1 mem).elim occurs_of_reachedTemplates (occurs_of_reachedList es)
  cases ran : ofEntities slots es with
  | ok s => exact ⟨s, rfl⟩
  | error e => cases fine.symm.trans ((ofEntities_lowered es).error_iff.1 ran)

end

theorem generate_succeeds {contract es} (sound : ∀ x, Occurs x es → violation? (contract.slots.getD []) x = none)
    (script : Option String) (additions : List Addition) (runtime : String) :
    Succeeds (generate (.ofContract contract es) script additions runtime) := by
  obtain ⟨statements, lowered⟩ := ofEntities_succeeds sound
  exact ⟨_, congrArg (· >>= _) lowered⟩

end Program

theorem Template.check_sound {items slots region log log' es}
    (accepted : check items slots region log = (some es, log')) :
    ∀ x, Occurs x es → Program.violation? (slots.getD []) x = none := by
  obtain ⟨_, account, -⟩ := check_accounts accepted
  exact fun x => account.sound (by decide)

theorem Document.entities_cases {d : Document} {filename slots log log' es}
    (h : d.entities filename slots log = .ok (some es, log')) :
    es = [] ∨ ∃ source base items region, Template.Outline.parse source base = .ok items ∧
      Template.check items slots region log = (some es, log') := by
  unfold Document.entities at h
  split at h
  · unfold Template.parse at h
    split at h
    · cases h
    · rename_i read
      exact .inr ⟨_, _, _, _, read, Except.ok.inj h⟩
  · cases h
    exact .inl rfl

theorem Document.entities_sound {d : Document} {filename} {slots : Option SlotTable} {log log' es}
    (h : d.entities filename slots log = .ok (some es, log')) :
    ∀ x, Template.Occurs x es → Program.violation? (slots.getD []) x = none := by
  rcases Document.entities_cases h with rfl | ⟨_, _, _, _, -, checked⟩
  · exact fun x occurs => absurd occurs Template.occurs_nil
  · exact Template.check_sound checked

/-- Compiling never fails once the template has been accepted: whatever the check lets through has a
program, and no text makes lowering fail. -/
theorem accepted_template_generates :
    (∀ (items : List Template.Outline.Item) (contract : Contract) (region : Span) (log log' : Log)
        (entities : List Template.Entity),
      Template.check items contract.slots region log = (some entities, log') →
      ∀ (script : Option String) (additions : List Program.Addition) (runtime : String),
        ∃ code, Program.generate (.ofContract contract entities) script additions runtime = .ok code) ∧
    ∀ (text : String) (options : CompileOptions) (e : Program.LoweringError),
      compile text options ≠ .error (.lowering e) := by
  refine ⟨?_, ?_⟩
  · intro items contract region log log' entities accepted
    exact Program.generate_succeeds (Template.check_sound accepted)
  · intro text options e failed
    unfold compile at failed
    dsimp only at failed
    split at failed
    · cases failed
    · rename_i given
      split at failed
      · split at failed
        · cases failed
        · split at failed
          · rename_i generated
            obtain ⟨code, fine⟩ := Program.generate_succeeds (Document.entities_sound given) _ _ _
            rw [fine] at generated
            cases generated
          · cases failed
      · cases failed

/-- A switch whose default case shows a slot with a fallback. -/
theorem slot_in_default_generates :
    Template.check [.directive ⟨"switch", ⟨0, 9⟩, some ⟨"n", true, ⟨8, 9⟩⟩⟩ [] ⟨0, 9⟩,
        .directive ⟨"default", ⟨10, 18⟩, none⟩
          [.directive ⟨"slot", ⟨20, 27⟩, some ⟨"a", true, ⟨26, 27⟩⟩⟩ [.text [.static "-"] ⟨30, 33⟩] ⟨20, 28⟩]
          ⟨10, 18⟩] (some [⟨"a", true, ⟨0, 0⟩⟩]) ⟨0, 33⟩ [] =
      (some [.switch ⟨⟨"n", true, ⟨8, 9⟩⟩, false⟩
        [.mk none [.slot "a" (some [.text [.static "-"] ⟨30, 33⟩]) ⟨20, 28⟩] false ⟨10, 18⟩] ⟨0, 18⟩], []) ∧
    ∃ text, Program.generate (.ofContract { slots := some [⟨"a", true, ⟨0, 0⟩⟩] }
      [.switch ⟨⟨"n", true, ⟨8, 9⟩⟩, false⟩
        [.mk none [.slot "a" (some [.text [.static "-"] ⟨30, 33⟩]) ⟨20, 28⟩] false ⟨10, 18⟩] ⟨0, 18⟩])
      none [] "runtime" = .ok text := by
  refine (fun accepted => ⟨accepted, accepted_template_generates.1 _ _ _ _ _ _ accepted _ _ _⟩) ?_
  rfl

end ComponentCompiler
