import ComponentCompiler.Proofs.Brackets.Grammar
import ComponentCompiler.Proofs.Brackets.Line

/-!
# Listeners of elements

An element gets one listener for each of its events, which does what the attributes of that event ask for, in their
order, unless it is short and its code has a comma outside brackets: `listeners_dispatch`.
-/

namespace ComponentCompiler

open Template Template.Balanced

namespace Template

namespace Outline.Attribute

def isEvent (a : Outline.Attribute) : Bool := a.sigil = .event

def bears (a : Outline.Attribute) (m : EventModifier) : Bool := (a.modifiers.map Prod.fst).contains m.text

end Outline.Attribute

theorem EventModifier.ofText?_eq_some {text m} : EventModifier.ofText? text = some m ↔ text = m.text := by
  constructor
  · intro found
    simpa [eq_comm] using List.find?_some found
  · rintro rfl
    cases m <;> rfl

namespace Balanced

/-- Code that leaves nothing open and has none of the `ends` where nothing is open. -/
def Undivided (ends text : List Char) : Prop :=
  pass [] text = some [] ∧ ∀ i < text.length, pass [] (text.take i) = some [] → (text.drop i).head?.all (· ∉ ends)

instance (ends text : List Char) : Decidable (Undivided ends text) := inferInstanceAs (Decidable (_ ∧ _))

end Balanced

end Template

namespace Program

/-- What ends an argument of a call. -/
def argumentEnds : List Char := [',', ';']

namespace ListenerStep

/-- The code of the step ends at none of the `ends`, and where it is evaluated it is no block. -/
def Unbroken (ends : List Char) : ListenerStep → Prop
  | .call code => Undivided ends code.text.toList
  | .evaluate code => Undivided ends code.text.toList ∧ code.text.toList.head? ≠ some '\x7b'
  | _ => True

/-- The statement that takes the step, without its semicolon. -/
def statement : ListenerStep → List Char
  | .preventDefault => "$event.preventDefault()".toList
  | .stopPropagation => "$event.stopPropagation()".toList
  | .call code => code.callee.toList ++ "($event)".toList
  | .evaluate code => code.text.toList

end ListenerStep

/-- What a listener does with an event, by its text: it is the function to call, or an arrow function with an expression
or with a statement for each step. -/
inductive Performs : List Char → List ListenerStep → Prop where
  | function {code : Code} (unbroken : (ListenerStep.call code).Unbroken argumentEnds) :
    Performs code.text.toList [.call code]
  | arrow {code : Code} (unbroken : (ListenerStep.evaluate code).Unbroken argumentEnds) :
    Performs ("$event => ".toList ++ code.text.toList) [.evaluate code]
  | block {steps blanks} (unbroken : ∀ s ∈ steps, s.Unbroken [';']) (blank : blanks.all Text.isBlank = true) :
    Performs ("$event => \x7b".toList ++ ((steps.flatMap fun s => ' ' :: (s.statement ++ [';'])) ++ blanks ++ ['\x7d']))
      steps

theorem Line.toList_text (line : Line) : line.text.toList = line.flatMap fun p => p.text.toList := by
  simp [Line.text, List.flatMap_map]

theorem ListenerStep.flatMap_line (s : ListenerStep) :
    (s.line.flatMap fun p => p.text.toList) = s.statement ++ [';'] := by
  cases s with
  | preventDefault | stopPropagation | evaluate => rfl
  | call code => exact (List.append_assoc code.callee.toList "($event)".toList [';']).symm

theorem dispatcher_performs {steps} (unbroken : ∀ s ∈ steps, s.Unbroken [';']) :
    Performs (ListenerFunction.dispatcher steps).line.text.toList steps := by
  have statements (steps : List ListenerStep) : ∃ blanks : List Char, blanks.all Text.isBlank = true ∧
      ' ' :: (Line.join " " (steps.map ListenerStep.line)).text.toList ++ [' '] =
        (steps.flatMap fun s => ' ' :: (s.statement ++ [';'])) ++ blanks := by
    induction steps with
    | nil => exact ⟨[' ', ' '], rfl, rfl⟩
    | cons s steps ih =>
      cases steps with
      | nil => exact ⟨[' '], rfl, by simp [Line.toList_text, Line.join, s.flatMap_line]⟩
      | cons t steps =>
        obtain ⟨blanks, blank, later⟩ := ih
        refine ⟨blanks, blank, ?_⟩
        rw [List.flatMap_cons, List.append_assoc, ← later]
        simp [Line.toList_text, Line.join, s.flatMap_line, show (Piece.fixed " ").text = " " from rfl]
  obtain ⟨blanks, blank, shown⟩ := statements steps
  have text : (ListenerFunction.dispatcher steps).line.text.toList = "$event => \x7b".toList ++
      ((' ' :: (Line.join " " (steps.map ListenerStep.line)).text.toList ++ [' ']) ++ ['\x7d']) := by
    simp [ListenerFunction.line, Line.toList_text, Piece.text]
  rw [text, shown]
  exact .block unbroken blank

/-- A single handler that leaves the event alone is the listener itself. -/
def isShort (handlers : List Handler) : Bool := handlers.length = 1 && !handlers.any touchesEvent

theorem listener_performs {handlers} (unbroken : ∀ s ∈ handlers.flatMap handlerSteps,
      s.Unbroken (if isShort handlers then argumentEnds else [';'])) :
    Performs (ListenerFunction.ofHandlers handlers).line.text.toList (handlers.flatMap handlerSteps) := by
  unfold ListenerFunction.ofHandlers
  split
  · rename_i h
    rw [List.flatMap_singleton] at unbroken ⊢
    split
    · rename_i touched
      exact dispatcher_performs (by simpa [isShort, touched] using unbroken)
    · rename_i untouched
      obtain ⟨prevent, stop⟩ : h.has .prevent = false ∧ h.has .stop = false := by simpa [touchesEvent] using untouched
      have steps : handlerSteps h = [if isFunction h then .call h.code else .evaluate h.code] := by
        simp [handlerSteps, prevent, stop]
      have short : isShort [h] = true := by simp [isShort, untouched]
      rw [steps, short, if_pos rfl] at unbroken
      have whole := List.forall_mem_singleton.1 unbroken
      rw [steps]
      split
      · have shown : (ListenerFunction.plain h.code).line.text.toList = h.code.text.toList := by
          simp [ListenerFunction.line, Line.text, Piece.text]
        rw [if_pos ‹_›] at whole
        rw [shown]
        exact .function whole
      · have shown : (ListenerFunction.arrow h.code).line.text.toList = "$event => ".toList ++ h.code.text.toList := by
          simp [ListenerFunction.line, Line.text, Piece.text]
        rw [if_neg ‹_›] at whole
        rw [shown]
        exact .arrow whole
  · rename_i other
    have long : isShort handlers = false := by
      rcases handlers with _ | ⟨h, _ | ⟨_, _⟩⟩
      · rfl
      · cases other h rfl
      · simp [isShort]
    exact dispatcher_performs (by simpa [long] using unbroken)

/-- What an event attribute asks for. -/
def wanted (a : Outline.Attribute) : List ListenerStep :=
  (if a.bears .prevent then [.preventDefault] else [])
    ++ (if a.bears .stop then [.stopPropagation] else [])
    ++ match a.value with
      | some (.code code) => [if code.isBare || a.bears .handler then .call code else .evaluate code]
      | _ => []

/-- A single attribute that leaves the event alone, whose listener is short. -/
def isLone (attributes : List Outline.Attribute) : Bool :=
  attributes.length = 1 && !attributes.any fun a => a.bears .prevent || a.bears .stop

/-- The listener in the call that adds it. -/
def listenerText (l : Listener) : String := (ListenerFunction.ofHandlers l.handlers).line.text

/-- The listener is that of the attributes. It does what they ask for where their codes leave nothing open and have no
semicolon outside brackets, if it is short no comma either. Without the comma the short form does the same as the
dispatcher of its steps. -/
structure Dispatches (attributes : List Outline.Attribute) (e : Temp) (l : Listener) : Prop where
  call : (Action.listen e l).line.text = e.name ++ ".addEventListener(" ++ Text.quote l.event ++ ", " ++
    listenerText l ++ (optionsLine (listenerOptions l.handlers)).text ++ ");"
  performs : (∀ s ∈ attributes.flatMap wanted, s.Unbroken (if isLone attributes then argumentEnds else [';'])) →
    Performs (listenerText l).toList (attributes.flatMap wanted)
  folded : (∀ s ∈ attributes.flatMap wanted, s.Unbroken [';']) →
    Performs (ListenerFunction.dispatcher (l.handlers.flatMap handlerSteps)).line.text.toList
      (attributes.flatMap wanted)
  options : listenerOptions l.handlers = [.once, .capture, .passive].filter fun m => attributes.any (·.bears m)

/-- The handler is that of the attribute. -/
structure Handles (a : Outline.Attribute) (e : String × Handler) : Prop where
  name : e.1 = a.name
  steps : handlerSteps e.2 = wanted a
  marks : ∀ m, e.2.has m = a.bears m

theorem has_effective {a : Outline.Attribute} {code span} (event : a.sigil = .event) (m : EventModifier) :
    Handler.has ⟨code, a.effective.filterMap EventModifier.ofText?, span⟩ m = a.bears m := by
  have known : m.text ∈ a.sigil.modifiers := by
    rw [event]
    cases m <;> decide
  rw [Bool.eq_iff_iff]
  simp [Handler.has, Outline.Attribute.bears, Outline.Attribute.effective, EventModifier.ofText?_eq_some, known]

theorem handles_of_read {a : Outline.Attribute} {next} (read : a.read? = some next) (event : a.isEvent = true) :
    ∃ e, next.event? = some e ∧ Handles a e := by
  have sigil : a.sigil = .event := of_decide_eq_true event
  cases value : a.value with
  | none => simp [Outline.Attribute.read?, sigil, value] at read
  | some v =>
    cases v with
    | text content span => simp [Outline.Attribute.read?, sigil, value] at read
    | code code =>
      simp only [Outline.Attribute.read?, sigil, value, Option.some.injEq] at read
      subst read
      have marks (m : EventModifier) : Handler.has ⟨code, _, a.span⟩ m = a.bears m := has_effective sigil m
      refine ⟨_, rfl, rfl, ?_, marks⟩
      simp only [handlerSteps, isFunction, wanted, marks, value]

theorem event?_eq_none {a : Outline.Attribute} {next} (read : a.read? = some next) (other : a.isEvent = false) :
    next.event? = none := by
  have sigil : a.sigil ≠ .event := of_decide_eq_false other
  unfold Outline.Attribute.read? at read
  split at read <;> try cases read
  all_goals first | rfl | contradiction | skip
  split at read <;> cases read
  rfl

theorem events_handle {attributes : List Outline.Attribute} {read}
    (reads : attributes.mapM Outline.Attribute.read? = some read) :
    List.Forall₂ Handles (attributes.filter (·.isEvent)) (read.filterMap Attribute.event?) := by
  induction attributes generalizing read with
  | nil =>
    cases reads
    exact .nil
  | cons a attributes ih =>
    simp only [List.mapM_cons, Option.bind_eq_bind, Option.bind_eq_some_iff, Option.pure_def,
      Option.some.injEq] at reads
    obtain ⟨next, one, rest, others, rfl⟩ := reads
    cases kind : a.isEvent with
    | true =>
      obtain ⟨e, found, handles⟩ := handles_of_read one kind
      rw [List.filter_cons_of_pos kind, List.filterMap_cons_some found]
      exact .cons handles (ih others)
    | false =>
      rw [List.filter_cons_of_neg (by simp [kind]), List.filterMap_cons_none (event?_eq_none one kind)]
      exact ih others

theorem handles_alike {attributes : List Outline.Attribute} {events}
    (handle : List.Forall₂ Handles attributes events) :
    events.map Prod.fst = attributes.map (·.name) ∧
    (events.map Prod.snd).flatMap handlerSteps = attributes.flatMap wanted ∧
    (∀ m, (events.map Prod.snd).any (·.has m) = attributes.any (·.bears m)) ∧
    (events.map Prod.snd).any touchesEvent = attributes.any fun a => a.bears .prevent || a.bears .stop := by
  induction handle with
  | nil => exact ⟨rfl, rfl, fun _ => rfl, rfl⟩
  | cons first _ ih =>
    obtain ⟨names, steps, marks, touched⟩ := ih
    refine ⟨?_, ?_, fun m => ?_, ?_⟩
    · rw [List.map_cons, List.map_cons, first.name, names]
    · rw [List.map_cons, List.flatMap_cons, List.flatMap_cons, first.steps, steps]
    · rw [List.map_cons, List.any_cons, List.any_cons, first.marks, marks]
    · rw [List.map_cons, List.any_cons, List.any_cons, touchesEvent, first.marks, first.marks, touched]

theorem dispatches_of_handles {attributes : List Outline.Attribute} {events}
    (handle : List.Forall₂ Handles attributes events) (event : String) (e : Temp) :
    Dispatches attributes e ⟨event, events.map Prod.snd⟩ := by
  obtain ⟨names, steps, marks, touched⟩ := handles_alike handle
  have lone : isShort (events.map Prod.snd) = isLone attributes := by
    rw [isShort, isLone, touched, List.length_map, ← List.length_map (f := Prod.fst), names, List.length_map]
  refine ⟨?_, ?_, ?_, ?_⟩
  · rw [← String.toList_inj]
    simp [Action.line, listenerText, Line.text, Line.temp, Piece.text, Node.name]
  · rw [← steps, ← lone]
    exact listener_performs
  · rw [steps]
    exact dispatcher_performs
  · simp only [listenerOptions, optionModifiers, marks]

theorem group_dispatches {attributes : List Outline.Attribute} {read}
    (reads : attributes.mapM Outline.Attribute.read? = some read) :
    (Listener.group (read.filterMap Attribute.event?)).map (·.event) =
        ((attributes.filter (·.isEvent)).map (·.name)).eraseDups ∧
      ∀ l ∈ Listener.group (read.filterMap Attribute.event?), ∀ e,
        Dispatches ((attributes.filter (·.isEvent)).filter (·.name = l.event)) e l := by
  have handle := events_handle reads
  refine ⟨by simp [Listener.group, handles_alike handle, Function.comp_def], fun l mem e => ?_⟩
  obtain ⟨event, -, rfl⟩ := List.mem_map.1 mem
  have own := List.rel_filter (p := fun a => a.name = event) (q := fun e => e.1 = event)
    (fun a e first => by simp [first.name]) handle
  exact dispatches_of_handles own event e

def Stmt.listen? : Stmt → Option (Temp × Listener)
  | .act (.listen e l) => some (e, l)
  | _ => none

theorem own_listeners {e : Temp} {tag : Tag} {sync : List Stmt} {place : Place}
    (quiet : sync.filterMap Stmt.listen? = []) :
    (openingStatements e tag ++ closingStatements e tag sync place).filterMap Stmt.listen? =
      tag.listeners.map (e, ·) := by
  have bindings (b : Binding) : (following b.value.liveness (.bind e b.name b.value)).listen? = none := by
    unfold following
    split <;> rfl
  simp [openingStatements, closingStatements, List.filterMap_cons, Stmt.listen?, List.filterMap_map, Function.comp_def,
    quiet]
  exact fun b _ => bindings b

theorem syncStatements_quiet (e : Temp) (kind : SyncKind) (signal : Code) :
    (syncStatements e kind signal).filterMap Stmt.listen? = [] := by
  rcases kind with _ | _ | _ | (_ | _) <;> rfl

end Program

end ComponentCompiler
