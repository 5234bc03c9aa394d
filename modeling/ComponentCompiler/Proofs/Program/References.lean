import ComponentCompiler.Proofs.Brackets.Steps

/-!
# References to the runtime

Which helpers a line refers to can be read off its text: `mem_helpers_iff`.
-/

namespace ComponentCompiler.Program

open Template Text
open Text.Writer (Step)

section

variable {p : Piece} {line : Line} {h : Helper}

theorem ownWords_node (n : Node) : (words n.name.toList).filterMap Helper.ofName? = [] := by
  have underscore : ∃ rest, n.name.toList = '_' :: rest := by
    cases n with
    | realParent => exact ⟨_, rfl⟩
    | parent => exact ⟨_, rfl⟩
    | temp t => exact ⟨_, by simp only [Node.name, Temp.name, String.toList_append]; rfl⟩
  obtain ⟨rest, first⟩ := underscore
  rw [words_identifier n.name_parts (by simp [first]), first, List.filterMap_cons, Helper.ofName?_underscore]
  rfl

theorem ownWords (tidy : p.isTidy = true) : (words p.own).filterMap Helper.ofName? = Line.helpers [p] := by
  cases p with
  | fixed text =>
    refine List.filterMap_eq_nil_iff.2 fun w mem => ?_
    simpa using List.all_eq_true.1 tidy w mem
  | helper h =>
    have some : h.name.toList ≠ [] := by cases h <;> decide
    rw [Piece.own, words_identifier h.name_parts some, String.ofList_toList, List.filterMap_cons, Helper.ofName?_name]
    rfl
  | declare t => exact ownWords_node (.temp t)
  | node n => exact ownWords_node n
  | name | code | callee | quoted | key | content => rfl

theorem walk_words {s t} (text : List Char) (walked : line.walk s = some t)
    (fits : s.apart = true → EndsApart text) :
    (words (text ++ line.own)).filterMap Helper.ofName? = (words text).filterMap Helper.ofName? ++ line.helpers := by
  induction line generalizing s text with
  | nil => simp [Line.own, Line.helpers]
  | cons p line ih =>
    obtain ⟨mid, first, others⟩ := Option.bind_eq_some_iff.1 walked
    obtain ⟨opens, tidy, -, closes⟩ := Piece.walk_iff.1 first
    have split : text ++ Line.own (p :: line) = (text ++ p.own) ++ Line.own line := by simp [Line.own]
    have named : Line.helpers (p :: line) = Line.helpers [p] ++ Line.helpers line := by
      rw [← List.singleton_append, Line.helpers, List.filterMap_append]
      rfl
    have ends : mid.apart = true → EndsApart (text ++ p.own) := fun apart => endsApart_own (closes ▸ apart) text
    rw [split, ih _ others ends, words_own_append fits opens, List.filterMap_append, ownWords tidy, named,
      List.append_assoc]

theorem refersTo_iff {frames after} (walked : line.walk ⟨frames, true, true⟩ = some after) :
    line.RefersTo h ↔ h ∈ line.helpers := by
  have named := walk_words [] walked fun _ => by simp [EndsApart]
  rw [List.nil_append, show words [] = [] from rfl, List.filterMap_nil, List.nil_append] at named
  rw [← named, List.mem_filterMap]
  refine ⟨fun refers => ⟨h.name, refers, h.ofName?_name⟩, ?_⟩
  rintro ⟨w, mem, found⟩
  rw [Line.RefersTo, Helper.name_of_ofName? found]
  exact mem

end

def lineOf? : Step Line → Option Line
  | .line l | .enter l | .leave l | .push l => some l
  | .indent | .dedent | .newline => none

def linesOf (steps : Steps) : List Line := steps.filterMap lineOf?

def RefersTo (steps : Steps) (h : Helper) : Prop := ∃ line ∈ linesOf steps, line.RefersTo h

theorem helpers_eq (steps : Steps) : helpers steps = (linesOf steps).flatMap Line.helpers := by
  induction steps with
  | nil => rfl
  | cons step steps ih =>
    cases step with
    | line l | enter l | leave l | push l => exact congrArg (l.helpers ++ ·) ih
    | indent | dedent | newline => exact ih

theorem follow_lines {n n' steps} (followed : follow n steps = some n') {line} (mem : line ∈ linesOf steps) :
    ∃ frames after, line.walk ⟨frames, true, true⟩ = some after := by
  induction steps generalizing n with
  | nil => cases mem
  | cons step steps ih =>
    obtain ⟨mid, first, others⟩ := Option.bind_eq_some_iff.1 followed
    cases step with
    | line l | enter l | leave l =>
      rcases List.mem_cons.1 mem with rfl | later
      · obtain ⟨_, read, -⟩ := Option.map_eq_some_iff.1 first
        obtain ⟨after, walked, -⟩ := Option.bind_eq_some_iff.1 read
        exact ⟨_, after, walked⟩
      · exact ih others later
    | push l => cases first
    | indent | dedent | newline => exact ih others mem

theorem helpers_names (names : List String) :
    Line.helpers (Line.join ", " (names.map fun name => [.name name])) = [] := by
  induction names with
  | nil => rfl
  | cons name names ih =>
    cases names with
    | nil => rfl
    | cons next names => exact ih

theorem helpers_creationSteps (creation : Option Creation) : helpers (creationSteps creation) = [] := by
  unfold creationSteps
  split
  · rfl
  · rfl
  · rfl
  · rename_i names _
    have named : Line.helpers (Line.join ", " (names.map fun name => [.name name]) ++
        [.fixed " \x7d = create($props, $syncs, $events);"]) = [] := by
      rw [Line.helpers, List.filterMap_append]
      exact List.append_eq_nil_iff.2 ⟨helpers_names names, rfl⟩
    exact List.append_eq_nil_iff.2 ⟨named, rfl⟩

theorem helpers_componentSteps (c : Component) (body : Steps) : helpers (componentSteps c body) = helpers body := by
  have split : componentSteps c body = [.enter _] ++ creationSteps c.creation ++ body ++
      [.leave [.fixed "\x7d;"], .newline, .line [.fixed "export default ___Component;"]] := rfl
  have pass (s t : Steps) : helpers (s ++ t) = helpers s ++ helpers t := List.flatMap_append
  rw [split, pass, pass, pass, helpers_creationSteps]
  simp [helpers, Line.helpers]

theorem mem_helpers_iff (c : Component) (statements : List Stmt) (h : Helper) :
    h ∈ helpers (steps statements) ↔ RefersTo (componentSteps c (steps statements)) h := by
  rw [← helpers_componentSteps c, helpers_eq, List.mem_flatMap]
  refine exists_congr fun line => and_congr_right fun mem => ?_
  obtain ⟨frames, after, walked⟩ := follow_lines (componentSteps_balances c statements [] 0 rfl) mem
  exact (refersTo_iff walked).symm

end ComponentCompiler.Program
