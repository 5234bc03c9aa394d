import ComponentCompiler.Proofs.Brackets.Placed
import ComponentCompiler.Proofs.Compile.Placement

/-!
# The body of the component

The body of a compiled component ends where the brace of its function is closed, unless code ends in a comment.
-/

namespace ComponentCompiler

namespace Text.Writer

theorem line_eq (w : Writer) (text : String) : w.line text = ⟨(w.line text).code, w.depth⟩ := by
  unfold line
  split <;> rfl

theorem apply_behind (w : Writer) (step : Step String) :
    w.apply step = ⟨w.code ++ (apply ⟨"", w.depth⟩ step).code, (apply ⟨"", w.depth⟩ step).depth⟩ := by
  cases step <;> simp only [apply, line, push, indent, dedent, String.empty_append,
    String.append_empty] <;> split <;> rfl

theorem run_behind (w : Writer) (steps : List (Step String)) :
    w.run steps = ⟨w.code ++ (run ⟨"", w.depth⟩ steps).code, (run ⟨"", w.depth⟩ steps).depth⟩ := by
  induction steps generalizing w with
  | nil => simp [run]
  | cons step steps ih =>
    have first := apply_behind w step
    have there := ih (apply ⟨"", w.depth⟩ step)
    calc w.run (step :: steps) = (w.apply step).run steps := rfl
      _ = ⟨(w.apply step).code ++ (run ⟨"", (w.apply step).depth⟩ steps).code,
        (run ⟨"", (w.apply step).depth⟩ steps).depth⟩ :=
        ih (w.apply step)
      _ = ⟨w.code ++ (run (apply ⟨"", w.depth⟩ step) steps).code, (run (apply ⟨"", w.depth⟩ step) steps).depth⟩ := by
        rw [first, there, String.append_assoc]

def Step.isLevel {α : Type} : Step α → Bool
  | .line _ | .push _ | .newline => true
  | _ => false

theorem run_depth {w : Writer} {steps} (level : ∀ step ∈ steps, step.isLevel = true) :
    (w.run steps).depth = w.depth := by
  induction steps generalizing w with
  | nil => rfl
  | cons step steps ih =>
    obtain ⟨here, others⟩ := List.forall_mem_cons.1 level
    refine (ih others).trans ?_
    cases step with
    | line text => rw [apply, line_eq]
    | push | newline => rfl
    | enter | leave | indent | dedent => cases here

theorem indentation_blank (depth : Nat) : allBlank (indentation depth).toList = true := by
  induction depth with
  | zero => rfl
  | succ depth ih =>
    have split : (indentation (depth + 1)).toList = indentUnit.toList ++ (indentation depth).toList := by
      simp [indentation, List.replicate_succ]
    rw [split, allBlank, List.all_append]
    exact Bool.and_eq_true_iff.2 ⟨by decide, ih⟩

end Text.Writer

namespace Program

open Template Template.Balanced
open Text (Writer)
open Text.Writer (Step)

/-- What the steps write, from the depth of `n` on, leads to `n'`. -/
def Writes (n : Nest) (steps : Steps) (n' : Nest) : Prop :=
  ∃ text, Writer.run ⟨"", n.depth⟩ (steps.map (Step.map Line.text)) = ⟨text, n'.depth⟩ ∧
    ∀ rest, pass n.frames (text.toList ++ rest) = pass n'.frames rest

section

variable {frames after : List Frame} {l : Line} {depth : Nat}

theorem pass_feed (code : isCode frames = true) (rest : List Char) : pass frames ('\n' :: rest) = pass frames rest :=
  pass_behind_blanks (b := ['\n']) code (by decide)

theorem followLine_code (followed : followLine frames l = some after) :
    isCode after = true ∧ ∃ settled, l.follow ⟨frames, true⟩ = some ⟨after, settled⟩ := by
  obtain ⟨reached, walked, done⟩ := Option.bind_eq_some_iff.1 followed
  split at done
  · rename_i code
    cases done
    exact ⟨code, reached.settled, Line.walk_follow walked⟩
  · cases done

theorem pass_line (whole : Whole l) (code : isCode frames = true) (followed : followLine frames l = some after)
    (rest : List Char) : pass frames ((Writer.line ⟨"", depth⟩ l.text).code.toList ++ rest) = pass after rest := by
  obtain ⟨code', settled, read⟩ := followLine_code followed
  have start : Leads frames [] ⟨frames, true⟩ := fun _ _ => rfl
  have past := Line.follow_leads whole start read ('\n' :: rest) (.inr rfl)
  rw [List.nil_append, pass_feed code'] at past
  unfold Writer.line
  split
  · rename_i empty
    have none : l.text.toList = [] := by simpa using empty
    rw [none] at past
    simpa [Writer.push] using past
  · have written : (Writer.push ⟨"", depth⟩ (Writer.indentation depth ++ l.text ++ "\n")).code.toList ++ rest =
        (Writer.indentation depth).toList ++ (l.text.toList ++ '\n' :: rest) := by
      simp [Writer.push]
    rw [written, pass_behind_blanks code (Writer.indentation_blank depth), past]

end

section

variable {n n' : Nest}

theorem followStep_writes {step} (whole : Whole (linePieces [step])) (code : isCode n.frames = true)
    (followed : followStep n step = some n') : isCode n'.frames = true ∧ Writes n [step] n' := by
  cases step with
  | line l | leave l =>
    obtain ⟨after, read, rfl⟩ := Option.map_eq_some_iff.1 followed
    have whole : Whole l := by simpa [linePieces] using whole
    exact ⟨(followLine_code read).1, _, Writer.line_eq _ _, pass_line whole code read⟩
  | enter l =>
    obtain ⟨after, read, rfl⟩ := Option.map_eq_some_iff.1 followed
    have whole : Whole l := by simpa [linePieces] using whole
    exact ⟨(followLine_code read).1, _, congrArg Writer.indent (Writer.line_eq _ _), pass_line whole code read⟩
  | push l => cases followed
  | indent | dedent =>
    cases followed
    exact ⟨code, "", rfl, fun _ => rfl⟩
  | newline =>
    cases followed
    exact ⟨code, "\n", rfl, pass_feed code⟩

theorem Writes.append {a b c s t} (first : Writes a s b) (second : Writes b t c) : Writes a (s ++ t) c := by
  obtain ⟨text, ran, past⟩ := first
  obtain ⟨more, ran', past'⟩ := second
  refine ⟨text ++ more, ?_, fun rest => ?_⟩
  · rw [List.map_append, Writer.run_append, ran, Writer.run_behind, ran']
  · rw [String.toList_append, List.append_assoc, past, past']

theorem follow_writes {steps} (whole : Whole (linePieces steps)) (code : isCode n.frames = true)
    (followed : follow n steps = some n') : Writes n steps n' := by
  induction steps generalizing n with
  | nil =>
    cases followed
    exact ⟨"", rfl, fun _ => rfl⟩
  | cons step steps ih =>
    obtain ⟨mid, first, others⟩ := Option.bind_eq_some_iff.1 followed
    obtain ⟨here, there⟩ : Whole (linePieces [step]) ∧ Whole (linePieces steps) := by
      rw [← whole_append, ← linePieces_append]
      exact whole
    obtain ⟨code', written⟩ := followStep_writes here code first
    exact written.append (ih there code' others)

end

def written (steps : Steps) : String := (({} : Writer).run (steps.map (Step.map Line.text))).code

def openingText (hasType : Bool) : String :=
  "const ___Component: ___ComponentDefinition<" ++ (if hasType then "Component" else "\x7b\x7d") ++
    "> = (___realParent, ___parent, $props, $syncs, $events, $slots) => \x7b"

/-- The lines that end a module, from the brace on that closes the component's function. -/
def closingText : String := "\x7d;\n\nexport default ___Component;\n"

theorem head_depth (names : List String) (runtime : String) (script : Option String) :
    (({} : Writer).run ((importSteps names runtime ++ scriptSteps script).map (Step.map Line.text))).depth = 0 := by
  refine Writer.run_depth fun step mem => ?_
  obtain ⟨original, member, rfl⟩ := List.mem_map.1 mem
  rcases List.mem_append.1 member with imported | scripted
  · unfold importSteps at imported
    rcases List.mem_append.1 imported with named | fixed
    · split at named
      · cases named
      · cases List.mem_singleton.1 named
        rfl
    · simp only [List.mem_cons, List.not_mem_nil, or_false] at fixed
      rcases fixed with rfl | rfl <;> rfl
  · unfold scriptSteps at scripted
    split at scripted
    · cases scripted
    · split at scripted
      · cases scripted
      · simp only [List.mem_cons, List.not_mem_nil, or_false] at scripted
        rcases scripted with rfl | rfl | rfl <;> rfl

theorem written_component {c body text}
    (ran : Writer.run ⟨"", 1⟩ ((creationSteps c.creation ++ body).map (Step.map Line.text)) = ⟨text, 1⟩) :
    written (componentSteps c body) = openingText c.hasType ++ "\n" ++ text ++ closingText := by
  let first : Line := [.fixed "const ___Component: ___ComponentDefinition<",
    .fixed (if c.hasType then "Component" else "\x7b\x7d"),
    .fixed "> = (___realParent, ___parent, $props, $syncs, $events, $slots) => \x7b"]
  let last : Steps := [.leave [.fixed "\x7d;"], .newline, .line [.fixed "export default ___Component;"]]
  have split : componentSteps c body = [.enter first] ++ (creationSteps c.creation ++ body) ++ last := by
    simp [componentSteps, first, last]
  have enters : Writer.run {} ([.enter first].map (Step.map Line.text)) = ⟨openingText c.hasType ++ "\n", 1⟩ := by
    cases named : c.hasType <;> simp only [first, named] <;> decide +kernel
  have leaves : Writer.run ⟨"", 1⟩ (last.map (Step.map Line.text)) = ⟨closingText, 0⟩ := by decide +kernel
  have inner :
    Writer.run ⟨openingText c.hasType ++ "\n", 1⟩ ((creationSteps c.creation ++ body).map (Step.map Line.text)) =
      ⟨openingText c.hasType ++ "\n" ++ text, 1⟩ := by
    rw [Writer.run_behind, ran]
  unfold written
  rw [split, List.map_append, List.map_append, Writer.run_append, Writer.run_append, enters, inner,
    Writer.run_behind, leaves]

theorem written_module {c script runtime body text}
    (ran : Writer.run ⟨"", 1⟩ ((creationSteps c.creation ++ body).map (Step.map Line.text)) = ⟨text, 1⟩) :
    written (moduleSteps c script [] runtime body) =
      written (importSteps (importedNames body []) runtime ++ scriptSteps script) ++
        (openingText c.hasType ++ "\n" ++ text ++ closingText) := by
  have split : moduleSteps c script [] runtime body =
      (importSteps (importedNames body []) runtime ++ scriptSteps script) ++ componentSteps c body := by
    simp [moduleSteps]
  rw [← written_component ran]
  unfold written
  rw [split, List.map_append, Writer.run_append, Writer.run_behind, head_depth]

theorem generate_closes {c script runtime code} (generated : generate c script [] runtime = .ok code)
    (whole : Whole (piecesOf (formsOf c.entities))) (names : ∀ name ∈ createdNames c.creation, Closed name.toList) :
    ∃ imported body, code = written (importSteps imported runtime ++ scriptSteps script) ++
        (openingText c.hasType ++ body ++ closingText) ∧ Closed body.toList := by
  obtain ⟨statements, lowered, done⟩ := bind_ok generated
  have code_eq : written (moduleSteps c script [] runtime (steps statements)) = code := Except.ok.inj done
  have balanced : Balances (creationSteps c.creation ++ steps statements) :=
    (creationSteps_balances c.creation).append (steps_balances statements)
  have pieces : Whole (linePieces (creationSteps c.creation ++ steps statements)) := by
    rw [linePieces_append, whole_append]
    exact ⟨each_wholeness.1 (creationSteps_outer names).1.each, ofEntities_whole lowered whole⟩
  have writes : Writes ⟨[], 1⟩ (creationSteps c.creation ++ steps statements) ⟨[], 1⟩ :=
    follow_writes pieces rfl (balanced [] 1 rfl)
  obtain ⟨text, ran, past⟩ := writes
  refine ⟨importedNames (steps statements) [], "\n" ++ text, ?_, ?_⟩
  · rw [← code_eq, written_module ran]
    simp only [String.append_assoc]
  · have through := past []
    rw [List.append_nil] at through
    rw [String.toList_append]
    exact (pass_feed rfl _).trans through

theorem scan_closed {body rest} (closed : Closed body) {goal} (close : goal.close = ['\x7d']) (pos : Nat) :
    ∃ stop, scan goal [] pos (body ++ '\x7d' :: rest) = .ok ⟨'\x7d' :: rest, stop⟩ := by
  exact scan_of_pass (b := []) rfl close rfl rfl (.inl closed) pos

end Program

open Template Template.Balanced Program

theorem processSections_unhandled {processors custom} (unhandled : ∀ s ∈ custom, ∀ p ∈ processors, p.name ≠ s.name) :
    (processSections processors custom).1 = [] := by
  induction custom with
  | nil => rfl
  | cons s custom ih =>
    obtain ⟨here, others⟩ := List.forall_mem_cons.1 unhandled
    have passed : processors.find? (fun p => p.name = s.name) = none := by
      rw [List.find?_eq_none]
      intro p mem
      simpa using here p mem
    simp [processSections, processSection, passed, ih others]

def Document.shown (d : Document) (filename : String) : List Entity :=
  (accepted? (d.entities filename (d.contract []).1.slots [])).getD []

/-- What a document brings into the body of its component leaves nothing open there. -/
structure Document.Enclosed (d : Document) (filename : String) : Prop where
  names : ∀ name ∈ createdNames (d.contract []).1.creation, Closed name.toList
  ends : ∀ code ∈ embeddedCode (d.shown filename), ¬ EndsInComment code.toList
  cuts : ∀ code ∈ cutCode (d.shown filename), Closed code.toList

theorem Document.shown_eq {d : Document} {filename es}
    (accepted : accepted? (d.entities filename (d.contract []).1.slots []) = some es) : d.shown filename = es := by
  rw [Document.shown, accepted, Option.getD_some]

theorem Document.Enclosed.whole {d : Document} {filename es} (enclosed : d.Enclosed filename)
    (accepted : accepted? (d.entities filename (d.contract []).1.slots []) = some es) :
    Whole (piecesOf (formsOf es)) := by
  obtain ⟨-, ends, cuts⟩ := enclosed
  rw [Document.shown_eq accepted] at ends cuts
  rcases Document.accepted_cases accepted with rfl | ⟨_, _, _, _, _, read, checked⟩
  · exact fun p none => by cases none
  · exact accepted_whole read checked ends cuts

theorem Document.code?_eq_some {d : Document} {options : CompileOptions} {code} (h : d.code? options = some code) :
    ∃ es, accepted? (d.entities options.filename (d.contract []).1.slots []) = some es ∧
      generate (.ofContract (d.contract []).1 es) (d.script.map (·.content))
        (processSections options.processors d.custom).1
        options.runtime = .ok code := by
  unfold Document.code? at h
  generalize d.contract [] = inspected at h ⊢
  generalize processSections options.processors d.custom = processed at h ⊢
  obtain ⟨es, accepted, rest⟩ := Option.bind_eq_some_iff.1 h
  refine ⟨es, accepted, ?_⟩
  split at rest
  · cases rest
  · unfold Except.toOption at rest
    split at rest
    · rename_i generated
      cases rest
      exact generated
    · cases rest

/-- The body of a compiled component, read as code, goes on up to the brace in the line that ends its function. -/
theorem compiled_body_closes {text : String} {options : CompileOptions} {compiled : Compiled}
    (ok : compile text options = .ok compiled)
    (unhandled : ∀ s ∈ (Document.cut text options.filename).1.custom, ∀ p ∈ options.processors, p.name ≠ s.name)
    (enclosed : (Document.cut text options.filename).1.Enclosed options.filename) :
    let d := (Document.cut text options.filename).1
    ∃ imported body, compiled.code =
        written (importSteps imported options.runtime ++ scriptSteps (d.script.map (·.content))) ++
          (openingText (d.contract []).1.hasComponent ++ body ++ closingText) ∧
      ∀ goal pos, goal.close = ['\x7d'] →
        ∃ stop, scan goal [] pos (body ++ closingText).toList = .ok ⟨closingText.toList, stop⟩ := by
  intro d
  have code := compile_code? text options
  rw [ok] at code
  split at code
  · cases code
  obtain ⟨es, accepted, generated⟩ := Document.code?_eq_some code.symm
  rw [processSections_unhandled unhandled] at generated
  obtain ⟨imported, body, split, closed⟩ := generate_closes generated (enclosed.whole accepted) enclosed.names
  refine ⟨imported, body, split, fun goal pos close => ?_⟩
  rw [String.toList_append]
  exact scan_closed closed close pos

/-- Brackets in strings, comments and template literals, in every kind of embedded code. -/
theorem compiled_body_closes_quoted :
    let text := "#! script\nexport function create() \x7b return \x7b a: 1 \x7d \x7d\n#! template\n" ++
      "@each(x, i of :f(\")\"))\n    p.\x7bc /* ] */\x7d(b=\x7b`$\x7bi\x7d\x7b`\x7d) a\x7b\x7b:x\x7d\x7d\n"
    let options : CompileOptions := {}
    ∃ compiled imported body, compile text options = .ok compiled ∧
      compiled.code = written (importSteps imported defaultRuntime ++
          scriptSteps (some "export function create() \x7b return \x7b a: 1 \x7d \x7d\n")) ++
        (openingText false ++ body ++ closingText) ∧
      ∀ goal pos, goal.close = ['\x7d'] →
        ∃ stop, scan goal [] pos (body ++ closingText).toList = .ok ⟨closingText.toList, stop⟩ := by
  intro text options
  have succeeds : (compile text options).toOption.isSome = true := by decide +kernel
  have scripted : (Document.cut text options.filename).1.script.map (·.content) =
      some "export function create() \x7b return \x7b a: 1 \x7d \x7d\n" := by
    decide +kernel
  have untyped : ((Document.cut text options.filename).1.contract []).1.hasComponent = false := by decide +kernel
  have unhandled : ∀ s ∈ (Document.cut text options.filename).1.custom, ∀ p ∈ options.processors, p.name ≠ s.name := by
    intro s mem p none
    cases none
  have enclosed : (Document.cut text options.filename).1.Enclosed options.filename :=
    ⟨by decide +kernel, by decide +kernel, by decide +kernel⟩
  cases ok : compile text options with
  | error e =>
    rw [ok] at succeeds
    cases succeeds
  | ok compiled =>
    obtain ⟨imported, body, split, closes⟩ := compiled_body_closes ok unhandled enclosed
    rw [scripted, untyped] at split
    exact ⟨compiled, imported, body, rfl, split, closes⟩

/-- A comment at the end of a condition goes on past the brace that should follow the condition. -/
theorem comment_hides_brace :
    let text := "#! template\n@if(a // b\n)\n    p\n"
    let body := "\n    if (a // b) \x7b\n        const ___e0_0_0 = createElement(\"p\");\n" ++
      "        ___parent.appendChild(___e0_0_0);\n    \x7d\n"
    (compile text {}).toOption.map (·.code) =
        some (written (importSteps ["createElement"] defaultRuntime ++ scriptSteps none) ++
          (openingText false ++ body ++ closingText)) ∧
      (scan bodyGoal [] 0 (body ++ closingText).toList).toOption = none := by
  intro text body
  exact ⟨by decide +kernel, by decide +kernel⟩

end ComponentCompiler
