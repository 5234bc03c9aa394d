import ComponentCompiler.Proofs.Brackets.Line
import ComponentCompiler.Proofs.Program.Words

/-!
# Brackets in generated programs

`Goes` says what lines open and close, whatever is around them.
-/

namespace ComponentCompiler.Program

open Template Template.Balanced
open Text.Writer (Step)

/-- A `Spot`, and whether no word can go on from it. -/
structure Stand where
  frames : List Frame
  settled : Bool
  apart : Bool

def Piece.walk (s : Stand) (p : Piece) : Option Stand :=
  if (s.apart || p.opensApart) && p.isTidy then
    (p.follow ⟨s.frames, s.settled⟩).map fun t => ⟨t.frames, t.settled, p.closesApart⟩
  else none

def Line.walk (s : Stand) (line : Line) : Option Stand := line.foldlM Piece.walk s

section

variable {s t : Stand} {p : Piece} {line rest : Line} {frames : List Frame}

theorem Piece.walk_iff :
    p.walk s = some t ↔ (s.apart || p.opensApart) = true ∧ p.isTidy = true ∧
      p.follow ⟨s.frames, s.settled⟩ = some ⟨t.frames, t.settled⟩ ∧ t.apart = p.closesApart := by
  rw [Piece.walk, ← and_assoc, ← Bool.and_eq_true_iff]
  constructor
  · intro walked
    split at walked
    · rename_i fits
      obtain ⟨after, followed, rfl⟩ := Option.map_eq_some_iff.1 walked
      exact ⟨fits, followed, rfl⟩
    · cases walked
  · rintro ⟨fits, followed, apart⟩
    rw [if_pos fits, followed, ← apart]
    rfl

theorem Line.walk_follow (walked : line.walk s = some t) :
    line.follow ⟨s.frames, s.settled⟩ = some ⟨t.frames, t.settled⟩ := by
  induction line generalizing s with
  | nil =>
    cases walked
    rfl
  | cons p line ih =>
    obtain ⟨mid, first, others⟩ := Option.bind_eq_some_iff.1 walked
    obtain ⟨-, -, followed, -⟩ := Piece.walk_iff.1 first
    exact Option.bind_eq_some_iff.2 ⟨_, followed, ih others⟩

theorem Line.walk_onto {base} (around : isCode base = true) (walked : line.walk s = some t) :
    line.walk ⟨s.frames ++ base, s.settled, s.apart⟩ = some ⟨t.frames ++ base, t.settled, t.apart⟩ := by
  induction line generalizing s with
  | nil =>
    cases walked
    rfl
  | cons p line ih =>
    obtain ⟨mid, first, others⟩ := Option.bind_eq_some_iff.1 walked
    obtain ⟨opens, tidy, followed, closes⟩ := Piece.walk_iff.1 first
    refine Option.bind_eq_some_iff.2 ⟨⟨mid.frames ++ base, mid.settled, mid.apart⟩, ?_, ih others⟩
    exact Piece.walk_iff.2 ⟨opens, tidy, Piece.follow_onto around followed, closes⟩

theorem Line.walk_append (a b : Line) (s : Stand) : (a ++ b).walk s = (a.walk s).bind b.walk :=
  List.foldlM_append

theorem Line.walk_then {a b : Line} {mid} (first : a.walk s = some mid) (second : b.walk mid = some t) :
    (a ++ b).walk s = some t := by
  rw [Line.walk_append, first, Option.bind_some, second]

theorem Line.walk_anywhere (walked : Line.walk ⟨frames, false, false⟩ (p :: rest) = some t) (settled apart : Bool) :
    Line.walk ⟨frames, settled, apart⟩ (p :: rest) = some t := by
  obtain ⟨mid, first, others⟩ := Option.bind_eq_some_iff.1 walked
  obtain ⟨opens, tidy, followed, closes⟩ := Piece.walk_iff.1 first
  have opens' : (apart || p.opensApart) = true := by
    rw [show p.opensApart = true from opens, Bool.or_true]
  refine Option.bind_eq_some_iff.2 ⟨mid, Piece.walk_iff.2 ⟨opens', tidy, ?_, closes⟩, others⟩
  cases p with
  | fixed text =>
    obtain ⟨begins, ends, done, passed⟩ := Piece.follow_fixed followed
    have fits : ((settled || beginsInert text.toList) && endsCalm text.toList) = true := by
      rw [begins.resolve_left (by simp), ends, Bool.or_true, Bool.and_self]
    rw [Piece.follow, if_pos fits, passed, show mid.settled = true from done]
    rfl
  | _ => cases followed

end

/-- Inside which frames a line is, and how deep it is indented. -/
structure Nest where
  frames : List Frame
  depth : Nat

def followLine (frames : List Frame) (line : Line) : Option (List Frame) :=
  (line.walk ⟨frames, true, true⟩).bind fun s => if isCode s.frames then some s.frames else none

def followStep (n : Nest) : Step Line → Option Nest
  | .line line => (followLine n.frames line).map (⟨·, n.depth⟩)
  | .enter line => (followLine n.frames line).map (⟨·, n.depth + 1⟩)
  | .leave line => (followLine n.frames line).map (⟨·, n.depth - 1⟩)
  | .push _ => none
  | .indent => some ⟨n.frames, n.depth + 1⟩
  | .dedent => some ⟨n.frames, n.depth - 1⟩
  | .newline => some n

def follow (n : Nest) (steps : Steps) : Option Nest := steps.foldlM followStep n

/-- In any code, the lines lead from the frames and depth of `a` to those of `b`. -/
def Goes (a : Nest) (steps : Steps) (b : Nest) : Prop :=
  ∀ base depth, isCode base = true →
    follow ⟨a.frames ++ base, depth + a.depth⟩ steps = some ⟨b.frames ++ base, depth + b.depth⟩

def Line.Opens (line : Line) (frames after : List Frame) : Prop :=
  isCode after = true ∧ ∃ settled apart, line.walk ⟨frames, true, true⟩ = some ⟨after, settled, apart⟩

section

variable {frames after : List Frame} {l : Line} {depth : Nat} {a b c : Nest} {s t : Steps}

theorem Line.Opens.followLine (opens : l.Opens frames after) {base} (around : isCode base = true) :
    followLine (frames ++ base) l = some (after ++ base) := by
  obtain ⟨code, settled, apart, walked⟩ := opens
  have code' := isCode_onto code around
  rw [Program.followLine, Line.walk_onto around walked, Option.bind_some, if_pos code']

theorem Goes.nil : Goes a [] a := fun _ _ _ => rfl

theorem Goes.append (first : Goes a s b) (second : Goes b t c) : Goes a (s ++ t) c := by
  intro base depth around
  have run : follow ⟨a.frames ++ base, depth + a.depth⟩ (s ++ t) =
      (follow ⟨a.frames ++ base, depth + a.depth⟩ s).bind fun n => follow n t := List.foldlM_append
  rw [run, first base depth around]
  exact second base depth around

theorem Goes.line (opens : l.Opens frames after) : Goes ⟨frames, depth⟩ [.line l] ⟨after, depth⟩ := by
  intro base more around
  simp [follow, followStep, opens.followLine around]

theorem Goes.enter (opens : l.Opens frames after) : Goes ⟨frames, depth⟩ [.enter l] ⟨after, depth + 1⟩ := by
  intro base more around
  simp [follow, followStep, opens.followLine around, Nat.add_assoc]

theorem Goes.leave (opens : l.Opens frames after) : Goes ⟨frames, depth + 1⟩ [.leave l] ⟨after, depth⟩ := by
  intro base more around
  simp [follow, followStep, opens.followLine around, ← Nat.add_assoc]

theorem Goes.indent : Goes ⟨frames, depth⟩ [.indent] ⟨frames, depth + 1⟩ := by
  intro base more around
  simp [follow, followStep, Nat.add_assoc]

end

def Balances (steps : Steps) : Prop := Goes ⟨[], 0⟩ steps ⟨[], 0⟩

section

variable {s t body : Steps} {first last : Line} {opened : List Frame}

theorem Balances.append (here : Balances s) (there : Balances t) : Balances (s ++ t) := Goes.append here there

theorem Balances.inside (h : Balances s) (code : isCode opened = true) (depth : Nat) :
    Goes ⟨opened, depth⟩ s ⟨opened, depth⟩ := by
  intro base more around
  exact h (opened ++ base) (more + depth) (isCode_onto code around)

theorem Balances.block (enters : first.Opens [] opened) (inner : Goes ⟨opened, 1⟩ body ⟨opened, 1⟩)
    (leaves : last.Opens opened []) : Balances (.enter first :: body ++ [.leave last]) :=
  (Goes.enter enters).append (inner.append (Goes.leave leaves))

end

abbrev Line.Closed (line : Line) : Prop := line.Opens [] []

section

variable {frames : List Frame} {before v rest : Line} {p : Piece} {s t : Stand}

theorem Line.Closed.within (closed : v.Closed) (first : before.walk s = some ⟨frames, true, true⟩)
    (code : isCode frames = true) (last : Line.walk ⟨frames, false, false⟩ (p :: rest) = some t) :
    (before ++ v ++ p :: rest).walk s = some t := by
  obtain ⟨-, settled, apart, inner⟩ := closed
  have inside : v.walk ⟨frames, true, true⟩ = some ⟨frames, settled, apart⟩ := Line.walk_onto code inner
  exact Line.walk_then (Line.walk_then first inside) (Line.walk_anywhere last settled apart)

theorem Line.Closed.behind (closed : v.Closed) (first : before.walk ⟨[], true, true⟩ = some ⟨[], true, true⟩) :
    (before ++ v).Closed := by
  obtain ⟨code, settled, apart, walked⟩ := closed
  exact ⟨code, settled, apart, Line.walk_then first walked⟩

theorem Line.closed_join {separator lines} (closed : ∀ l ∈ lines, l.Closed)
    (separates : Line.walk ⟨[], false, false⟩ [.fixed separator] = some ⟨[], true, true⟩) :
    (Line.join separator lines).Closed := by
  fun_induction Line.join separator lines with
  | case1 => exact ⟨rfl, _, _, rfl⟩
  | case2 line => exact closed line List.mem_cons_self
  | case3 line lines _ ih =>
    obtain ⟨here, others⟩ := List.forall_mem_cons.1 closed
    obtain ⟨code, settled, apart, walked⟩ := ih others
    have last :
        Line.walk ⟨[], false, false⟩ (.fixed separator :: Line.join separator lines) = some ⟨[], settled, apart⟩ :=
      Line.walk_then separates walked
    have none : Line.walk ⟨[], true, true⟩ [] = some ⟨[], true, true⟩ := rfl
    exact ⟨code, settled, apart, here.within none rfl last⟩

theorem Line.closed_join_map {α : Type} {separator} {f : α → Line} {xs : List α} (closed : ∀ x ∈ xs, (f x).Closed)
    (separates : Line.walk ⟨[], false, false⟩ [.fixed separator] = some ⟨[], true, true⟩) :
    (Line.join separator (xs.map f)).Closed :=
  Line.closed_join (List.forall_mem_map.2 closed) separates

theorem Line.closed_object {entries} (closed : ∀ e ∈ entries, e.2.Closed) : (Line.object entries).Closed := by
  unfold Line.object
  split
  · exact ⟨rfl, _, _, rfl⟩
  · have each : ∀ e ∈ entries, Line.Closed (.key e.1 :: .fixed ": " :: e.2) := by
      intro e member
      have first : Line.walk ⟨[], true, true⟩ [.key e.1, .fixed ": "] = some ⟨[], true, true⟩ := rfl
      exact (closed e member).behind first
    have first : Line.walk ⟨[], true, true⟩ [.fixed "\x7b "] = some ⟨[.bracket '\x7d'], true, true⟩ := rfl
    exact ⟨rfl, _, _, (Line.closed_join_map each rfl).within first rfl rfl⟩

end

theorem creationLine_closed (tag : String) (classes : List Fragment) : (creationLine tag classes).Closed := by
  unfold creationLine
  dsimp only
  split
  · exact ⟨rfl, _, _, rfl⟩
  split
  · exact ⟨rfl, _, _, rfl⟩
  all_goals
    refine ⟨rfl, _, _, Line.Closed.within (Line.closed_join_map (fun f _ => ?_) rfl) rfl rfl rfl⟩
    cases f <;> exact ⟨rfl, _, _, rfl⟩

theorem bindingValueLine_closed (asAttribute : Bool) (value : BindingValue) :
    (bindingValueLine asAttribute value).Closed := by
  cases value with
  | empty => cases asAttribute <;> exact ⟨rfl, _, _, rfl⟩
  | _ => exact ⟨rfl, _, _, rfl⟩

theorem bindingLine_closed (e : Temp) (name : String) (value : BindingValue) : (bindingLine e name value).Closed := by
  unfold bindingLine
  split
  · exact ⟨rfl, _, _, (bindingValueLine_closed true value).within rfl rfl rfl⟩
  · exact ⟨rfl, _, _, (bindingValueLine_closed false value).within rfl rfl rfl⟩

theorem ListenerFunction.line_closed (f : ListenerFunction) : f.line.Closed := by
  cases f with
  | plain code => exact ⟨rfl, _, _, rfl⟩
  | arrow code => exact ⟨rfl, _, _, rfl⟩
  | dispatcher steps =>
    have each : ∀ l ∈ steps.map ListenerStep.line, l.Closed := by
      intro l mem
      obtain ⟨step, -, rfl⟩ := List.mem_map.1 mem
      cases step <;> exact ⟨rfl, _, _, rfl⟩
    have first : Line.walk ⟨[], true, true⟩ [.fixed "$event => \x7b "] = some ⟨[.bracket '\x7d'], true, true⟩ := rfl
    exact ⟨rfl, _, _, (Line.closed_join each rfl).within first rfl rfl⟩

theorem optionsLine_walk (options : List EventModifier) :
    ∃ p rest, optionsLine options ++ [.fixed ");"] = p :: rest ∧
      Line.walk ⟨[.bracket ')'], false, false⟩ (p :: rest) = some ⟨[], true, true⟩ := by
  unfold optionsLine
  split
  · exact ⟨_, _, rfl, rfl⟩
  · have each : ∀ l ∈ options.map (fun m => [Piece.fixed m.text, .fixed ": true"]), Line.Closed l := by
      intro l mem
      obtain ⟨m, -, rfl⟩ := List.mem_map.1 mem
      cases m <;> exact ⟨rfl, _, _, rfl⟩
    have first :
        Line.walk ⟨[.bracket ')'], false, false⟩ [.fixed ", \x7b "] =
        some ⟨[.bracket '\x7d', .bracket ')'], true, true⟩ := rfl
    have last : Line.walk ⟨[.bracket '\x7d', .bracket ')'], false, false⟩ [.fixed " \x7d", .fixed ");"] =
        some ⟨[], true, true⟩ := rfl
    have joined : (Line.join ", " (options.map fun m => [.fixed m.text, .fixed ": true"])).Closed :=
      Line.closed_join each rfl
    refine ⟨_, _, rfl, ?_⟩
    simpa using joined.within first rfl last

theorem listed_walk {α : Type} (text : α → String) (xs : List α) {close : String} {s : Stand}
    (closes : Line.walk ⟨[.bracket ')'], false, false⟩ [.fixed close] = some s) :
    ∃ p rest, xs.flatMap (fun x => [Piece.fixed ", ", .code (text x)]) ++ [.fixed close] = p :: rest ∧
      Line.walk ⟨[.bracket ')'], false, false⟩ (p :: rest) = some s := by
  induction xs with
  | nil => exact ⟨_, _, rfl, closes⟩
  | cons x xs ih =>
    obtain ⟨p, rest, split, followed⟩ := ih
    have first :
        Line.walk ⟨[.bracket ')'], false, false⟩ [.fixed ", ", .code (text x)] =
        some ⟨[.bracket ')'], false, true⟩ := rfl
    refine ⟨.fixed ", ", .code (text x) :: p :: rest, ?_, ?_⟩
    · rw [List.flatMap_cons, List.append_assoc, split]
      rfl
    · exact Line.walk_then first (Line.walk_anywhere followed false true)

theorem Action.line_closed (action : Action) : action.line.Closed := by
  cases action with
  | createElement e tag classes => exact ⟨rfl, _, _, (creationLine_closed tag classes).within rfl rfl rfl⟩
  | bind e name value => exact bindingLine_closed e name value
  | listen e listener =>
    obtain ⟨p, rest, split, last⟩ := optionsLine_walk (listenerOptions listener.handlers)
    have first :
      Line.walk ⟨[], true, true⟩ [Line.temp e, .fixed ".addEventListener(", .quoted listener.event, .fixed ", "] =
        some ⟨[.bracket ')'], true, true⟩ := rfl
    have whole := (ListenerFunction.ofHandlers listener.handlers).line_closed.within first rfl last
    rw [← split, ← List.append_assoc] at whole
    exact ⟨rfl, _, _, whole⟩
  | templateUse name place args =>
    have closes : Line.walk ⟨[.bracket ')'], false, false⟩ [.fixed ");"] = some ⟨[], true, true⟩ := rfl
    obtain ⟨p, rest, split, last⟩ := listed_walk Code.text args closes
    have first : Line.walk ⟨[], true, true⟩ ([.fixed "___template_", .name name, .fixed "("] ++ Line.nodes place) =
        some ⟨[.bracket ')'], false, false⟩ := rfl
    have whole := Line.walk_then first last
    rw [← split, ← List.append_assoc] at whole
    exact ⟨rfl, _, _, whole⟩
  | _ => exact ⟨rfl, _, _, rfl⟩

theorem propLine_closed (value : BindingValue) : (propLine value).Closed := by
  match value with
  | .empty | .static _ | .dynamic _ true | .reactive _ => exact ⟨rfl, _, _, rfl⟩
  | .dynamic _ false => exact ⟨rfl, _, _, rfl⟩

theorem syncLine_closed (sync : Sync) : (syncLine sync).Closed := by
  unfold syncLine
  split
  · exact ⟨rfl, _, _, rfl⟩
  · exact ⟨rfl, _, _, rfl⟩

theorem componentLine_walk (i : Inclusion) (place : Place) :
    (componentLine i place).walk ⟨[], true, true⟩ = some ⟨[.bracket ')'], true, true⟩ := by
  have props : (Line.object (i.props.map fun b => (b.name, propLine b.value))).Closed := by
    refine Line.closed_object fun e mem => ?_
    obtain ⟨b, -, rfl⟩ := List.mem_map.1 mem
    exact propLine_closed b.value
  have syncs : (Line.object (i.syncs.map fun s => (s.name, syncLine s))).Closed := by
    refine Line.closed_object fun e mem => ?_
    obtain ⟨s, -, rfl⟩ := List.mem_map.1 mem
    exact syncLine_closed s
  have listeners : (Line.object (i.listeners.map fun l =>
      (l.event, (ListenerFunction.ofHandlers l.handlers).line))).Closed := by
    refine Line.closed_object fun e mem => ?_
    obtain ⟨l, -, rfl⟩ := List.mem_map.1 mem
    exact ListenerFunction.line_closed _
  have first : Line.walk ⟨[], true, true⟩ ([.name i.name, .fixed "("] ++ Line.nodes place ++ [.fixed ", "]) =
      some ⟨[.bracket ')'], true, true⟩ := rfl
  exact listeners.within (syncs.within (props.within first rfl rfl) rfl rfl) rfl rfl

theorem effectSteps_balances {body} (inner : Balances body) : Balances (effectSteps body) := by
  have enters : Line.Opens [.helper .effect, .fixed "(() => \x7b"] [] [.bracket '\x7d', .bracket ')'] :=
    ⟨rfl, _, _, rfl⟩
  have leaves : Line.Opens [.fixed "\x7d);"] [.bracket '\x7d', .bracket ')'] [] := ⟨rfl, _, _, rfl⟩
  exact Balances.block enters (inner.inside rfl 1) leaves

theorem selectOptionsSteps_balances (e : Temp) (signal : Code) : Balances (selectOptionsSteps e signal) := by
  have read : Line.Closed [.fixed "const ___selected = ", .callee signal, .fixed "();"] := ⟨rfl, _, _, rfl⟩
  have enters : Line.Opens [.fixed "for (const ___option of Array.from(", Line.temp e, .fixed ".options)) \x7b"] []
      [.bracket '\x7d'] := ⟨rfl, _, _, rfl⟩
  have select : Line.Closed [.fixed "___option.selected = ___selected.includes(___option.value);"] := ⟨rfl, _, _, rfl⟩
  have leaves : Line.Opens [.fixed "\x7d"] [.bracket '\x7d'] [] := ⟨rfl, _, _, rfl⟩
  have loop := Balances.block enters (Balances.inside (Goes.line select) rfl 1) leaves
  exact effectSteps_balances ((Goes.line read).append loop)

theorem regionLine_opens (place : Place) : (regionLine place).Opens [] [.bracket '\x7d', .bracket ')'] := by
  unfold regionLine
  split <;> exact ⟨rfl, _, _, rfl⟩

theorem loopLine_opens (loop : Loop) : (loopLine loop).Opens [] [.bracket '\x7d'] := by
  unfold loopLine
  split <;> exact ⟨rfl, _, _, rfl⟩

theorem templateLine_opens (name : String) (params : List String) :
    (templateLine name params).Opens [] [.bracket '\x7d'] := by
  have closes : Line.walk ⟨[.bracket ')'], false, false⟩ [.fixed ") \x7b"] = some ⟨[.bracket '\x7d'], true, true⟩ := rfl
  obtain ⟨p, rest, split, last⟩ := listed_walk id params closes
  have first : Line.walk ⟨[], true, true⟩
      [.fixed "function ___template_", .name name, .fixed "(___realParent: Node, ___parent: Node"] =
        some ⟨[.bracket ')'], true, false⟩ := rfl
  have whole := Line.walk_then first (Line.walk_anywhere last true false)
  rw [← split, ← List.append_assoc] at whole
  exact ⟨rfl, _, _, whole⟩

theorem labelSteps_goes (label : Label) : Goes ⟨[], 0⟩ (labelSteps label) ⟨[.bracket '\x7d'], 1⟩ := by
  cases label with
  | default => exact Goes.enter ⟨rfl, _, _, rfl⟩
  | values others last =>
    have enters : Line.Opens [.fixed "case ", .code last.text, .fixed ": \x7b"] [] [.bracket '\x7d'] := ⟨rfl, _, _, rfl⟩
    have cases : Balances (others.map fun code => .line [.fixed "case ", .code code.text, .fixed ":"]) := by
      induction others with
      | nil => exact Goes.nil
      | cons code others ih =>
        have one : Line.Closed [.fixed "case ", .code code.text, .fixed ":"] := ⟨rfl, _, _, rfl⟩
        exact (Goes.line one).append ih
    exact Goes.append cases (Goes.enter enters)

mutual

theorem Stmt.balances : (s : Stmt) → Balances s.steps
  | .act action => Goes.line action.line_closed
  | .effect action => effectSteps_balances (Goes.line action.line_closed)
  | .selectOptions e signal => selectOptionsSteps_balances e signal
  | .region place body => Balances.block (regionLine_opens place) ((steps_balances body).inside rfl 1) ⟨rfl, _, _, rfl⟩
  | .conditional condition body elseIfs otherwise => by
    have enters : Line.Opens [.fixed "if (", .code condition.text, .fixed ") \x7b"] [] [.bracket '\x7d'] :=
      ⟨rfl, _, _, rfl⟩
    have leaves : Line.Opens [.fixed "\x7d"] [.bracket '\x7d'] [] := ⟨rfl, _, _, rfl⟩
    have inner := (((steps_balances body).inside rfl 1).append (branchSteps_goes elseIfs)).append
      (otherwiseSteps_goes otherwise)
    exact Balances.block enters inner leaves
  | .loop loop body => Balances.block (loopLine_opens loop) ((steps_balances body).inside rfl 1) ⟨rfl, _, _, rfl⟩
  | .switch subject clauses => by
    have enters : Line.Opens [.fixed "switch (", Line.temp subject, .fixed ") \x7b"] [] [.bracket '\x7d'] :=
      ⟨rfl, _, _, rfl⟩
    exact Balances.block enters ((clauseSteps_balances clauses).inside rfl 1) ⟨rfl, _, _, rfl⟩
  | .fallbackSlot name place body => by
    have enters : Line.Opens [.fixed "($slots.", .name name, .fixed " ?? (", Line.filler] []
        [.bracket '\x7d', .bracket ')', .bracket ')'] := ⟨rfl, _, _, rfl⟩
    have leaves : Line.Opens (.fixed "\x7d))(" :: Line.nodes place ++ [.fixed ");"])
        [.bracket '\x7d', .bracket ')', .bracket ')'] [] := ⟨rfl, _, _, rfl⟩
    exact Balances.block enters ((steps_balances body).inside rfl 1) leaves
  | .component inclusion place [] => by
    have last :
        Line.walk ⟨[.bracket ')'], true, true⟩ [.helper .emptyObject, .fixed ");"] = some ⟨[], true, true⟩ := rfl
    have closed : Line.Closed (componentLine inclusion place ++ [.helper .emptyObject, .fixed ");"]) :=
      ⟨rfl, _, _, Line.walk_then (componentLine_walk inclusion place) last⟩
    exact Goes.line closed
  | .component inclusion place (filling :: fillings) => by
    have last :
        Line.walk ⟨[.bracket ')'], true, true⟩ [.fixed "\x7b"] =
        some ⟨[.bracket '\x7d', .bracket ')'], true, true⟩ := rfl
    have enters : Line.Opens (componentLine inclusion place ++ [.fixed "\x7b"]) [] [.bracket '\x7d', .bracket ')'] :=
      ⟨rfl, _, _, Line.walk_then (componentLine_walk inclusion place) last⟩
    exact Balances.block enters ((fillingSteps_balances (filling :: fillings)).inside rfl 1) ⟨rfl, _, _, rfl⟩
  | .template name params body =>
    Balances.block (templateLine_opens name params) ((steps_balances body).inside rfl 1) ⟨rfl, _, _, rfl⟩

theorem steps_balances : (statements : List Stmt) → Balances (steps statements)
  | [] => Goes.nil
  | statement :: statements => statement.balances.append (steps_balances statements)

theorem branchSteps_goes :
    (branches : List Branch) → Goes ⟨[.bracket '\x7d'], 1⟩ (branchSteps branches) ⟨[.bracket '\x7d'], 1⟩
  | [] => Goes.nil
  | .mk condition body :: branches => by
    have turns :
        Line.Opens [.fixed "\x7d else if (", .code condition.text, .fixed ") \x7b"] [.bracket '\x7d']
        [.bracket '\x7d'] :=
      ⟨rfl, _, _, rfl⟩
    exact (((Goes.leave turns).append Goes.indent).append ((steps_balances body).inside rfl 1)).append
      (branchSteps_goes branches)

theorem otherwiseSteps_goes : (otherwise : Option (List Stmt)) →
    Goes ⟨[.bracket '\x7d'], 1⟩ (otherwiseSteps otherwise) ⟨[.bracket '\x7d'], 1⟩
  | none => Goes.nil
  | some body => by
    have turns : Line.Opens [.fixed "\x7d else \x7b"] [.bracket '\x7d'] [.bracket '\x7d'] := ⟨rfl, _, _, rfl⟩
    exact ((Goes.leave turns).append Goes.indent).append ((steps_balances body).inside rfl 1)

theorem clauseSteps_balances : (clauses : List Clause) → Balances (clauseSteps clauses)
  | [] => Goes.nil
  | .mk label body :: clauses => by
    have leaves : Line.Opens [.fixed "\x7d"] [.bracket '\x7d'] [] := ⟨rfl, _, _, rfl⟩
    exact (((labelSteps_goes label).append ((steps_balances body).inside rfl 1)).append (Goes.leave leaves)).append
      (clauseSteps_balances clauses)

theorem fillingSteps_balances : (fillings : List Filling) → Balances (fillingSteps fillings)
  | [] => Goes.nil
  | .mk slot body :: fillings => by
    have enters : Line.Opens [.key slot, .fixed ": ", Line.filler] [] [.bracket '\x7d'] := ⟨rfl, _, _, rfl⟩
    have leaves : Line.Opens [.fixed "\x7d,"] [.bracket '\x7d'] [] := ⟨rfl, _, _, rfl⟩
    exact (Balances.block enters ((steps_balances body).inside rfl 1) leaves).append (fillingSteps_balances fillings)

end

theorem creationSteps_balances (creation : Option Creation) : Balances (creationSteps creation) := by
  unfold creationSteps
  split
  · exact Goes.nil
  · exact Goes.line ⟨rfl, _, _, rfl⟩
  · exact Goes.line ⟨rfl, _, _, rfl⟩
  · rename_i names _
    have each : ∀ l ∈ names.map (fun name => [Piece.name name]), Line.Closed l := by
      intro l mem
      obtain ⟨name, -, rfl⟩ := List.mem_map.1 mem
      exact ⟨rfl, _, _, rfl⟩
    have first : Line.walk ⟨[], true, true⟩ [.fixed "const \x7b "] = some ⟨[.bracket '\x7d'], true, true⟩ := rfl
    exact Goes.line ⟨rfl, _, _, (Line.closed_join each rfl).within first rfl rfl⟩

theorem componentSteps_balances (c : Component) (statements : List Stmt) :
    Balances (componentSteps c (steps statements)) := by
  have opening : Line.Opens [.fixed "const ___Component: ___ComponentDefinition<",
      .fixed (if c.hasType then "Component" else "\x7b\x7d"),
      .fixed "> = (___realParent, ___parent, $props, $syncs, $events, $slots) => \x7b"] [] [.bracket '\x7d'] := by
    cases c.hasType <;> exact ⟨rfl, _, _, rfl⟩
  have closing : Line.Opens [.fixed "\x7d;"] [.bracket '\x7d'] [] := ⟨rfl, _, _, rfl⟩
  have inner := (creationSteps_balances c.creation).append (steps_balances statements)
  have block := Balances.block opening (inner.inside rfl 1) closing
  have exported : Line.Closed [.fixed "export default ___Component;"] := ⟨rfl, _, _, rfl⟩
  have exports : Balances [.newline, .line [.fixed "export default ___Component;"]] :=
    Goes.append (s := [.newline]) (fun _ _ _ => rfl) (Goes.line exported)
  simpa [componentSteps] using block.append exports

end ComponentCompiler.Program
