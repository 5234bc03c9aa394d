import ComponentCompiler.Proofs.Brackets.Body
import ComponentCompiler.Proofs.Program.References
import ComponentCompiler.Proofs.Text.ByteOrder

/-!
# Imports of a generated module

Main statement: `generated_imports`.
-/

namespace ComponentCompiler.Program

open Template
open Text (Writer bytes)
open Text.Writer (Step)

section

variable {name other : String} {names : List String}

theorem mem_insertName : other ∈ insertName name names ↔ other = name ∨ other ∈ names := by
  induction names with
  | nil => simp [insertName]
  | cons first names ih =>
    unfold insertName
    split
    · rename_i same
      simp [same]
    split
    · simp
    · rw [List.mem_cons, ih, List.mem_cons, or_left_comm]

theorem insertName_increasing (sorted : names.Pairwise (· < ·)) : (insertName name names).Pairwise (· < ·) := by
  induction names with
  | nil => simp [insertName]
  | cons first names ih =>
    obtain ⟨least, others⟩ := List.pairwise_cons.1 sorted
    unfold insertName
    split
    · exact sorted
    split
    · rename_i less
      refine List.pairwise_cons.2 ⟨List.forall_mem_cons.2 ⟨less, fun later mem => ?_⟩, sorted⟩
      exact String.lt_trans less (least later mem)
    · rename_i different notLess
      refine List.pairwise_cons.2 ⟨fun later mem => ?_, ih others⟩
      rcases mem_insertName.1 mem with rfl | old
      · exact Std.lt_of_le_of_ne (String.not_lt.1 notLess) (Ne.symm different)
      · exact least later old

theorem mem_sortNames : other ∈ sortNames names ↔ other ∈ names := by
  induction names with
  | nil => rfl
  | cons name names ih => rw [sortNames, List.foldr_cons, mem_insertName, List.mem_cons]; exact or_congr_right ih

theorem sortNames_increasing (names : List String) : (sortNames names).Pairwise (· < ·) := by
  induction names with
  | nil => exact .nil
  | cons name names ih => exact insertName_increasing ih

end

def importText (names : List String) (runtime : String) : String :=
  if names.isEmpty then ""
  else "import \x7b " ++ ", ".intercalate names ++ " \x7d from " ++ Text.quote runtime ++ ";\n"

def importTypeText (runtime : String) : String :=
  "import type \x7b ComponentDefinition as ___ComponentDefinition \x7d from " ++ Text.quote runtime ++ ";\n\n"

theorem text_names (names : List String) :
    Line.text (Line.join ", " (names.map fun name => [.name name])) = ", ".intercalate names := by
  induction names with
  | nil => rfl
  | cons name names ih =>
    cases names with
    | nil => simp [Line.join, Line.text, Piece.text]
    | cons next names =>
      rw [String.intercalate_cons_cons, ← ih]
      simp [Line.join, Line.text, Piece.text, String.append_assoc]

theorem written_append {s} (flat : (({} : Writer).run (s.map (Step.map Line.text))).depth = 0) (t : Steps) :
    written (s ++ t) = written s ++ written t := by
  unfold written
  rw [List.map_append, Writer.run_append, Writer.run_behind, flat]

theorem written_line {l : Line} {text : String} {rest : Line} (starts : l = .fixed text :: rest) (some : text ≠ "")
    (steps : Steps) : written (.line l :: steps) = l.text ++ "\n" ++ written steps := by
  have flat : (({} : Writer).run ([.line l].map (Step.map Line.text))).depth = 0 :=
    congrArg Text.Writer.depth (Text.Writer.line_eq {} l.text)
  have full : l.text.isEmpty = false := by
    rw [starts, Line.text, List.map_cons, String.join_cons]
    simp [Piece.text, some]
  have first : written [.line l] = l.text ++ "\n" := by
    simp [written, Text.Writer.run, Text.Writer.apply, Step.map, Text.Writer.line, full, Text.Writer.push,
      Text.Writer.indentation]
  rw [← first]
  exact written_append flat steps

theorem written_importType (runtime : String) :
    written [.line [.fixed "import type \x7b ComponentDefinition as ___ComponentDefinition \x7d from ", .quoted runtime,
      .fixed ";"], .newline] = importTypeText runtime := by
  have blank : written [.newline] = "\n" := by decide +kernel
  unfold importTypeText
  rw [written_line rfl (by simp), blank]
  simp only [Line.text, Piece.text, List.map_cons, List.map_nil, String.join_cons, String.join_nil, String.append_empty,
    String.append_assoc, String.reduceAppend]

theorem written_importSteps (names : List String) (runtime : String) :
    written (importSteps names runtime) = importText names runtime ++ importTypeText runtime := by
  unfold importSteps importText
  split
  · rw [List.nil_append, written_importType, String.empty_append]
  · rw [List.singleton_append, List.cons_append, written_line rfl (by simp), written_importType, ← text_names]
    simp only [Line.text, Piece.text, List.map_cons, List.map_append, List.map_nil,
      String.join_cons, String.join_append,
      String.join_nil, String.append_empty, String.append_assoc, String.reduceAppend]

/-- The line that imports names from the runtime is the first of a module. Its names increase in the order of their
bytes. They are those that the component's definition refers to and those that additions ask for. -/
theorem generated_imports {c : Component} {script : Option String} {additions : List Addition} {runtime code : String}
    (generated : generate c script additions runtime = .ok code) :
    ∃ statements names, ofEntities c.slots c.entities = .ok statements ∧
      code = importText names runtime ++ importTypeText runtime ++
        written (scriptSteps script ++ componentSteps c (steps statements) ++ additions.flatMap additionSteps) ∧
      names.Pairwise (fun a b => bytes a < bytes b) ∧
      ∀ name, name ∈ names ↔
        (∃ h, RefersTo (componentSteps c (steps statements)) h ∧ h.name = name) ∨
          ∃ a ∈ additions, name ∈ a.imports := by
  obtain ⟨statements, lowered, done⟩ := bind_ok generated
  have code_eq : written (moduleSteps c script additions runtime (steps statements)) = code := Except.ok.inj done
  refine ⟨statements, importedNames (steps statements) additions, lowered, ?_, ?_, fun name => ?_⟩
  · have flat := head_depth (importedNames (steps statements) additions) runtime none
    rw [show scriptSteps none = [] from rfl, List.append_nil] at flat
    rw [← code_eq, ← written_importSteps, ← written_append flat]
    simp only [moduleSteps, List.append_assoc]
  · exact (sortNames_increasing _).imp Text.bytes_lt
  · rw [importedNames, mem_sortNames, List.mem_append, List.mem_map, List.mem_flatMap]
    simp only [mem_helpers_iff c]

/-- A tag that is filled by an effect, and an addition that asks for one of the same names and for others. -/
theorem generated_imports_addition :
    let c : Component := { entities :=
      [.tag { name := "p", span := ⟨0, 1⟩ } [.text [.reactive ⟨"n()", false, ⟨2, 3⟩⟩] ⟨2, 3⟩]] }
    let additions : List Addition := [⟨"log(é);", ["é", "log", "effect"]⟩]
    ∃ code, generate c none additions defaultRuntime = .ok code ∧
      ∃ statements names, ofEntities c.slots c.entities = .ok statements ∧
        code = importText names defaultRuntime ++ importTypeText defaultRuntime ++
          written (scriptSteps none ++ componentSteps c (steps statements) ++ additions.flatMap additionSteps) ∧
        names.Pairwise (fun a b => bytes a < bytes b) ∧
        ∀ name, name ∈ names ↔
          (∃ h, RefersTo (componentSteps c (steps statements)) h ∧ h.name = name) ∨
            ∃ a ∈ additions, name ∈ a.imports := by
  intro c additions
  refine Exists.imp (fun code made => ⟨made, generated_imports made⟩) ?_
  exact ⟨_, rfl⟩

end ComponentCompiler.Program
