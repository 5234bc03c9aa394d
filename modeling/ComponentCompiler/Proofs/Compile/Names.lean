import ComponentCompiler.Proofs.Program.Imports
import ComponentCompiler.Proofs.Script.Inspected

/-!
# Names in generated code

All names stand as identifiers or between quotes, but for one that `create` gives back as a string:
`compiled_names_spelled`.
-/

namespace ComponentCompiler

open Template Program
open Text (isIdentifier isIdentifierStart isIdentifierPart quote)

namespace Program

theorem identifier_of_parts {text} (start : text.toList.head?.any isIdentifierStart = true)
    (parts : ∀ c ∈ text.toList, isIdentifierPart c = true) : isIdentifier text = true :=
  Outline.Named.identifier ⟨start, parts⟩ (fun _ first => first) fun _ _ part => part

theorem Temp.name_identifier (t : Temp) : isIdentifier t.name = true := by
  refine identifier_of_parts ?_ t.name_parts
  simp only [Temp.name, String.toList_append, List.append_assoc]
  rfl

theorem Node.name_identifier (n : Node) : isIdentifier n.name = true := by
  cases n with
  | realParent => rfl
  | parent => rfl
  | temp t => exact t.name_identifier

theorem Helper.name_identifier (h : Helper) : isIdentifier h.name = true := by
  cases h <;> rfl

/-- A name is written as an identifier or as a string literal, code and text are `given`, and all else is the same in
every program. -/
def Piece.Spells (given : List Piece) (p : Piece) : Prop :=
  match p with
  | .fixed text => isFixed text = true
  | .name text => isIdentifier text = true
  | .key text => isIdentifier text = true ∧ p.text = text ∨ p.text = quote text
  | .quoted text => p.text = quote text
  | .helper _ | .declare _ | .node _ => isIdentifier p.text = true
  | .code text => .code text ∈ given
  | .callee c => .code c.text ∈ given
  | .content items => .content items ∈ given

/-- Names are identifiers or `created`, and what is neither a name nor fixed is `given`. -/
def spelling (given : List Piece) (created : List String) : Standard where
  Fixed text := isFixed text = true
  Name text := isIdentifier text = true ∨ text ∈ created
  Code text := .code text ∈ given
  Content items := .content items ∈ given

section

variable {given : List Piece} {created : List String}

instance : (spelling given created).Admits := ⟨fun _ own => own⟩

theorem Piece.Meets.spells {p : Piece} (meets : p.Meets (spelling given created)) :
    p.Spells given ∨ ∃ name ∈ created, p = .name name := by
  cases p with
  | name text => exact meets.imp_right fun among => ⟨text, among, rfl⟩
  | fixed | code | callee | content => exact .inl meets
  | quoted => exact .inl rfl
  | key name =>
    by_cases identifier : isIdentifier name = true
    · exact .inl (.inl ⟨identifier, if_pos identifier⟩)
    · exact .inl (.inr (if_neg identifier))
  | helper h => exact .inl h.name_identifier
  | declare t => exact .inl t.name_identifier
  | node n => exact .inl n.name_identifier

end

theorem importedNames_identifier {body additions} :
    ∀ name ∈ importedNames body additions, isIdentifier name = true ∨ ∃ a ∈ additions, name ∈ a.imports := by
  intro name mem
  rcases List.mem_append.1 (mem_sortNames.1 mem) with helper | added
  · obtain ⟨h, -, rfl⟩ := List.mem_map.1 helper
    exact .inl h.name_identifier
  · exact .inr (List.mem_flatMap.1 added)

end Program

theorem Document.accepted_spelling {d : Document} {filename slots es created}
    (accepted : accepted? (d.entities filename slots []) = some es) :
    Each (spelling (piecesOf (formsOf es)) created) (partsOf (formsOf es)) := by
  rcases Document.accepted_cases accepted with rfl | ⟨_, _, _, _, _, read, checked⟩
  · exact each_nil
  intro p mem
  have inside := partsOf_subset _ mem
  have identified := identified_partsOf (identified_kept.accepted read checked) p mem
  cases p with
  | name => exact .inl identified
  | fixed => exact identified.elim
  | code | content => exact inside
  | callee => exact (placed_piecesOf (placed_kept.accepted read checked) _ inside).elim
  | _ => trivial

def Document.HasWord (d : Document) (name : String) : Prop :=
  ∃ s ∈ d.script, Script.HasWord (.start s.content s.base) name

def Document.HasString (d : Document) (name : String) : Prop :=
  ∃ s ∈ d.script, Script.HasToken (.start s.content s.base) (.string name)

theorem Document.created_spelled {d : Document} :
    ∀ name ∈ createdNames (d.contract []).1.creation, d.HasWord name ∨ d.HasString name := by
  intro name mem
  unfold createdNames at mem
  split at mem
  · rename_i names created
    unfold Document.contract at created
    split at created
    · rename_i script given
      exact (Script.inspect_created created name mem).imp (fun word => ⟨script, given, word⟩)
        fun string => ⟨script, given, string⟩
    · cases created
  · cases mem

/-- Every piece of a component that compiles spells its name, unless it is one of the names that the script's `create`
gives back: these are words of the script, or stand there as strings. -/
theorem compiled_names_spelled {text : String} {options : CompileOptions} {compiled : Compiled}
    (ok : compile text options = .ok compiled) :
    let d := (Document.cut text options.filename).1
    let component := Component.ofContract (d.contract []).1 (d.shown options.filename)
    let additions := (processSections options.processors d.custom).1
    ∃ statements, ofEntities component.slots component.entities = .ok statements ∧
      compiled.code =
        written (moduleSteps component (d.script.map (·.content)) additions options.runtime (steps statements)) ∧
      (∀ p ∈ linePieces (componentSteps component (steps statements)),
        p.Spells (piecesOf (formsOf component.entities)) ∨
          ∃ name ∈ createdNames component.creation, p = .name name ∧ (d.HasWord name ∨ d.HasString name)) ∧
      ∀ name ∈ importedNames (steps statements) additions, isIdentifier name = true ∨
        ∃ a ∈ additions, name ∈ a.imports := by
  intro d component additions
  have code := compile_code? text options
  rw [ok] at code
  split at code
  · cases code
  obtain ⟨es, accepted, generated⟩ := Document.code?_eq_some code.symm
  obtain ⟨statements, lowered, done⟩ := bind_ok generated
  have same : component = .ofContract (d.contract []).1 es := by
    rw [← Document.shown_eq accepted]
  rw [same]
  refine ⟨statements, lowered, (Except.ok.inj done).symm, fun p mem => ?_, importedNames_identifier⟩
  have body : InScope (spelling (piecesOf (formsOf es)) (createdNames (d.contract []).1.creation)) [] statements :=
    ofEntities_sound lowered (Document.accepted_spelling accepted)
  refine ((componentSteps_outer (fun _ among => Or.inr among) body).1.each p mem).spells.imp_right ?_
  rintro ⟨name, among, rfl⟩
  exact ⟨name, among, rfl, Document.created_spelled name among⟩

/-- Names of a loop, a slot, an element's attributes, another component and its attributes, and of created members. -/
theorem compiled_names_spelled_quoted :
    let text := "#! script\nexport type Component = \x7b slots: \x7b item: \x7b\x7d \x7d \x7d\n" ++
      "export function create() \x7b return \x7b list: [1], \"b\": 2 \x7d \x7d\n#! template\n" ++
      "@each(x, i of :list)\n    p(data-x=\"1\" title=\x7bx\x7d)\n    Row(data-x=\x7bx\x7d)\n@slot(item)\n"
    let options : CompileOptions := {}
    let d := (Document.cut text options.filename).1
    let component := Component.ofContract (d.contract []).1 (d.shown options.filename)
    createdNames component.creation = ["list", "b"] ∧
      ∃ compiled statements, compile text options = .ok compiled ∧
        ofEntities component.slots component.entities = .ok statements ∧
        (∀ p ∈ linePieces (componentSteps component (steps statements)),
          p.Spells (piecesOf (formsOf component.entities)) ∨
            ∃ name ∈ createdNames component.creation, p = .name name ∧ (d.HasWord name ∨ d.HasString name)) ∧
        ∀ name ∈ importedNames (steps statements) [], isIdentifier name = true := by
  intro text options d component
  have succeeds : (compile text options).toOption.isSome = true := by decide +kernel
  refine ⟨by decide +kernel, ?_⟩
  cases ok : compile text options with
  | error e =>
    rw [ok] at succeeds
    cases succeeds
  | ok compiled =>
    obtain ⟨statements, lowered, -, spelled, imported⟩ := compiled_names_spelled ok
    rw [processSections_unhandled fun s mem p none => by cases none] at imported
    exact ⟨compiled, statements, rfl, lowered, spelled, fun name mem => (imported name mem).resolve_right (by simp)⟩

/-- A member that `create` gives back under a string is bound by that string, whatever it is. -/
theorem created_string_bound :
    let text := "#! script\nexport function create() \x7b return \x7b \"a-b\": 1 \x7d \x7d\n#! template\np\n"
    let code := "import \x7b createElement \x7d from \"project-f/runtime\";\n" ++
      "import type \x7b ComponentDefinition as ___ComponentDefinition \x7d from \"project-f/runtime\";\n\n" ++
      "export function create() \x7b return \x7b \"a-b\": 1 \x7d \x7d\n\n" ++
      "const ___Component: ___ComponentDefinition<\x7b\x7d> = " ++
      "(___realParent, ___parent, $props, $syncs, $events, $slots) => \x7b\n" ++
      "    const \x7b a-b \x7d = create($props, $syncs, $events);\n    const ___e0 = createElement(\"p\");\n" ++
      "    ___parent.appendChild(___e0);\n\x7d;\n\nexport default ___Component;\n"
    (compile text {}).toOption.map (·.code) = some code ∧ isIdentifier "a-b" = false ∧
      ¬ (Document.cut text "component.iron").1.HasWord "a-b" := by
  intro text code
  refine ⟨by decide +kernel, by decide, ?_⟩
  rintro ⟨s, -, escaped, c, l, -, read, word⟩
  obtain ⟨x, rest, letters, -, parts⟩ := Script.Lexeme.read_word read word
  cases letters
  exact absurd (parts '-' List.mem_cons_self) (by decide)

end ComponentCompiler
