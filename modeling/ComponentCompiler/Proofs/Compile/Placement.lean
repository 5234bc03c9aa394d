import ComponentCompiler.Proofs.Compile.Outcome
import ComponentCompiler.Proofs.Respan.Program

/-!
# Sections may stand anywhere

Main statement: `compile_placement`.
-/

namespace ComponentCompiler

/-- The sections that a module is made from are the same, up to where they stand. -/
structure Document.SameContent (d d' : Document) : Prop where
  template : d.template.map (·.content) = d'.template.map (·.content)
  script : d.script.map (·.content) = d'.script.map (·.content)
  custom : d.custom.map (fun s => (s.name, s.content)) = d'.custom.map fun s => (s.name, s.content)

/-- What a processor adds, and whether it finds an error, is told by the name and the content of a section. -/
def Processor.ByContent (p : Processor) : Prop :=
  ∀ s s' : Section, s.name = s'.name → s.content = s'.content →
    (p.process s).1 = (p.process s').1 ∧ (p.process s).2.hasErrors = (p.process s').2.hasErrors

/-- Read at two places, a script is the same up to spans. -/
def Script.ReadsAlike (source : String) (base base' : Nat) : Prop :=
  (Script.parse source base).map (List.map (Script.Item.respan Span.erased)) =
    (Script.parse source base').map (List.map (Script.Item.respan Span.erased))

theorem map_eq_map_cases {f : α → γ} {g : β → γ} {a : Option α} {b : Option β} (same : a.map f = b.map g) :
    a = none ∧ b = none ∨ ∃ x y, a = some x ∧ b = some y ∧ f x = g y := by
  cases a with
  | none => exact .inl ⟨rfl, Option.map_eq_none_iff.1 same.symm⟩
  | some x =>
    obtain ⟨y, there, values⟩ := Option.map_eq_some_iff.1 same.symm
    exact .inr ⟨x, y, rfl, there, values.symm⟩

theorem Script.inspect_placement {source base base'} (alike : Script.ReadsAlike source base base') :
    (Script.inspect source base []).1.respan Span.erased = (Script.inspect source base' []).1.respan Span.erased ∧
      (Script.inspect source base []).2.hasErrors = (Script.inspect source base' []).2.hasErrors := by
  unfold Script.inspect
  rcases map_eq_map_cases alike with ⟨read, read'⟩ | ⟨items, items', read, read', same⟩
  · rw [read, read']
    exact ⟨rfl, rfl⟩
  · rw [read, read']
    have here := Script.contractOf_respan items [] Span.erased
    have there := Script.contractOf_respan items' [] Span.erased
    rw [same, there] at here
    obtain ⟨contracts, logs⟩ := Prod.mk.inj here
    have errors := congrArg Log.hasErrors logs
    simp only [List.nil_append, Log.hasErrors_respan] at errors
    exact ⟨contracts.symm, errors.symm⟩

theorem Document.contract_placement {d d' : Document} (same : d.SameContent d')
    (alike : ∀ s ∈ d.script, ∀ s' ∈ d'.script, Script.ReadsAlike s.content s.base s'.base) :
    (d.contract []).1.respan Span.erased = (d'.contract []).1.respan Span.erased ∧
      (d.contract []).2.hasErrors = (d'.contract []).2.hasErrors := by
  unfold Document.contract
  rcases map_eq_map_cases same.script with ⟨here, there⟩ | ⟨s, s', here, there, content⟩
  · rw [here, there]
    exact ⟨rfl, rfl⟩
  · have read := Script.inspect_placement (alike s here s' there)
    rw [here, there]
    dsimp only
    rw [← content]
    exact read

theorem Template.Outline.parse_placement (source : String) (base : Nat) :
    Template.relocated Span.erased (Template.Outline.respanItems Span.erased) (Template.Outline.parse source base) =
      Template.relocated Span.erased (Template.Outline.respanItems Span.erased) (Template.Outline.parse source 0) := by
  have moved := Template.Outline.parse_shift source 0 base
  rw [Nat.zero_add] at moved
  rw [moved]
  cases Template.Outline.parse source 0 with
  | error e => cases e <;> rfl
  | ok items => exact congrArg Except.ok (Template.Outline.respanItems_respanItems _ _ items)

theorem Template.check_placement {items items' slots slots'}
    (outlines : Template.Outline.respanItems Span.erased items = Template.Outline.respanItems Span.erased items')
    (tables : slots.map (SlotTable.respan Span.erased) = slots'.map (SlotTable.respan Span.erased))
    (region region' : Span) :
    (Template.check items slots region []).1.map (Template.respanList Span.erased) =
      (Template.check items' slots' region' []).1.map (Template.respanList Span.erased) := by
  have joins : ∀ s t : Span, (s.merge t).erased = s.erased.merge t.erased := fun _ _ => rfl
  have here := Template.check_respan (g := Span.erased) joins items slots region
  have there := Template.check_respan (g := Span.erased) joins items' slots' region'
  rw [← outlines, ← tables] at there
  exact congrArg Prod.fst (here.symm.trans there)

def Template.accepted? : Except ParseError (Option (List Entity) × Log) → Option (List Entity)
  | .ok (entities, _) => entities
  | .error _ => none

theorem Template.parse_placement (source : String) (base base' : Nat) {slots slots'}
    (tables : slots.map (SlotTable.respan Span.erased) = slots'.map (SlotTable.respan Span.erased)) :
    (accepted? (parse source base slots [])).map (respanList Span.erased) =
      (accepted? (parse source base' slots' [])).map (respanList Span.erased) := by
  have outlines := (Outline.parse_placement source base).trans (Outline.parse_placement source base').symm
  unfold parse
  cases here : Outline.parse source base with
  | error e =>
    cases there : Outline.parse source base' with
    | error e' => rfl
    | ok items' =>
      rw [here, there] at outlines
      cases outlines
  | ok items =>
    cases there : Outline.parse source base' with
    | error e' =>
      rw [here, there] at outlines
      cases outlines
    | ok items' =>
      rw [here, there] at outlines
      exact check_placement (Except.ok.inj outlines) tables _ _

theorem Document.entities_placement {d d' : Document} (same : d.SameContent d') (filename : String)
    {slots slots' : Option SlotTable}
    (tables : slots.map (SlotTable.respan Span.erased) = slots'.map (SlotTable.respan Span.erased)) :
    (Template.accepted? (d.entities filename slots [])).map (Template.respanList Span.erased) =
      (Template.accepted? (d'.entities filename slots' [])).map (Template.respanList Span.erased) := by
  unfold Document.entities
  rcases map_eq_map_cases same.template with ⟨here, there⟩ | ⟨s, s', here, there, content⟩
  · rw [here, there]
  · rw [here, there]
    dsimp only
    rw [← content]
    exact Template.parse_placement s.content s.base s'.base tables

theorem processSection_placement {processors} (byContent : ∀ p ∈ processors, p.ByContent) {s s'}
    (name : s.name = s'.name) (content : s.content = s'.content) :
    (processSection processors s).1 = (processSection processors s').1 ∧
      (processSection processors s).2.hasErrors = (processSection processors s').2.hasErrors := by
  unfold processSection
  rw [name]
  cases found : processors.find? fun p => p.name = s'.name with
  | none => exact ⟨rfl, rfl⟩
  | some p => exact byContent p (List.mem_of_find?_eq_some found) s s' name content

theorem processSections_placement {processors} (byContent : ∀ p ∈ processors, p.ByContent) {sections sections'}
    (same : sections.map (fun s => (s.name, s.content)) = sections'.map fun s => (s.name, s.content)) :
    (processSections processors sections).1 = (processSections processors sections').1 ∧
      (processSections processors sections).2.hasErrors = (processSections processors sections').2.hasErrors := by
  induction sections generalizing sections' with
  | nil =>
    obtain rfl : sections' = [] := List.map_eq_nil_iff.1 same.symm
    exact ⟨rfl, rfl⟩
  | cons s rest ih =>
    cases sections' with
    | nil => cases same
    | cons s' rest' =>
      obtain ⟨first, others⟩ := List.cons.inj same
      obtain ⟨name, content⟩ := Prod.mk.inj first
      obtain ⟨addition, errors⟩ := processSection_placement byContent name content
      obtain ⟨additions, more⟩ := ih others
      refine ⟨?_, ?_⟩
      · simp only [processSections, addition, additions]
      · simp only [processSections, Log.hasErrors_append, errors, more]

/-- The code that a document compiles to, if its stages find no error. -/
def Document.code? (d : Document) (options : CompileOptions) : Option String := do
  let (contract, script) := d.contract []
  let (additions, found) := processSections options.processors d.custom
  let entities ← Template.accepted? (d.entities options.filename contract.slots [])
  if script.hasErrors || found.hasErrors then none
  else
    (Program.generate (.ofContract contract entities) (d.script.map (·.content)) additions options.runtime).toOption

theorem compile_code? (text : String) (options : CompileOptions) :
    (compile text options).toOption.map (·.code) =
      if (Document.cut text options.filename).2.hasErrors then none
      else (Document.cut text options.filename).1.code? options := by
  unfold compile Document.code?
  cases Document.cut text options.filename with
  | mk d cut =>
  dsimp only
  rw [d.contract_earlier]
  cases d.contract [] with
  | mk contract script =>
  dsimp only
  rw [d.entities_earlier]
  cases read : d.entities options.filename contract.slots [] with
  | error e => simp [Except.map, Template.accepted?, Except.toOption]
  | ok result =>
    obtain ⟨entities, template⟩ := result
    have accepted := Document.entities_isSome read
    cases entities with
    | none => simp [Except.map, Template.accepted?, Except.toOption]
    | some entities =>
      have clean : template.hasErrors = false := by simpa using accepted
      cases processSections options.processors d.custom with
      | mk additions found =>
      simp only [Except.map, Template.accepted?, Log.hasErrors_append, clean, Bool.or_false,
        Option.bind_eq_bind, Option.bind_some]
      cases cut.hasErrors with
      | true => rfl
      | false =>
        cases script.hasErrors with
        | true => rfl
        | false =>
          cases found.hasErrors with
          | true => rfl
          | false =>
            cases Program.generate (.ofContract contract entities) (d.script.map (·.content))
              additions options.runtime <;> rfl

theorem Template.accepted?_eq_some {found es} (accepted : accepted? found = some es) :
    ∃ log, found = .ok (some es, log) := by
  unfold accepted? at accepted
  split at accepted
  · rename_i log
    cases accepted
    exact ⟨log, rfl⟩
  · cases accepted

theorem Document.accepted_cases {d : Document} {filename slots es}
    (accepted : Template.accepted? (d.entities filename slots []) = some es) :
    es = [] ∨ ∃ source base items region log, Template.Outline.parse source base = .ok items ∧
      Template.check items slots region [] = (some es, log) := by
  obtain ⟨log, found⟩ := Template.accepted?_eq_some accepted
  rcases Document.entities_cases found with none | ⟨source, base, items, region, both⟩
  · exact .inl none
  · exact .inr ⟨source, base, items, region, log, both⟩

/-- Accepted entities have a program, and so have they without their spans. -/
theorem Document.generates {d : Document} {filename contract entities} (script : Option String)
    (additions : List Program.Addition) (runtime : String)
    (accepted : Template.accepted? (d.entities filename contract.slots []) = some entities) :
    Program.Succeeds (Program.generate (.ofContract contract entities) script additions runtime) ∧
      Program.Succeeds (Program.generate (.ofContract (contract.respan Span.erased)
        (Template.respanList Span.erased entities)) script additions runtime) := by
  rcases Document.accepted_cases accepted with rfl | ⟨_, _, items, region, log, -, checked⟩
  · exact ⟨Program.generate_succeeds (fun x occurs => absurd occurs Template.occurs_nil) _ _ _,
      Program.generate_succeeds (fun x occurs => absurd occurs Template.occurs_nil) _ _ _⟩
  · have erased := Template.check_respan (f := Span.erased) (g := Span.erased) (fun _ _ => rfl)
      items contract.slots region
    rw [checked] at erased
    exact ⟨Program.generate_succeeds (Template.check_sound checked) _ _ _,
      Program.generate_succeeds (Template.check_sound erased) _ _ _⟩

theorem generate_erased {d : Document} {filename contract entities} (script : Option String)
    (additions : List Program.Addition) (runtime : String)
    (accepted : Template.accepted? (d.entities filename contract.slots []) = some entities) :
    Program.generate (.ofContract contract entities) script additions runtime =
      Program.generate (.ofContract (contract.respan Span.erased) (Template.respanList Span.erased entities)) script
        additions runtime := by
  have erased : Program.Component.ofContract (contract.respan Span.erased) (Template.respanList Span.erased entities) =
      ⟨contract.hasComponent, SlotTable.respan Span.erased (contract.slots.getD []), contract.creation,
        Template.respanList Span.erased entities⟩ := by
    unfold Program.Component.ofContract Contract.respan
    cases contract.slots <;> rfl
  obtain ⟨⟨text, here⟩, text', there⟩ := Document.generates script additions runtime accepted
  rw [here, there]
  rw [erased] at there
  rw [Program.generate_respan here there]

theorem Document.code?_placement {d d' : Document} {options : CompileOptions} (same : d.SameContent d')
    (alike : ∀ s ∈ d.script, ∀ s' ∈ d'.script, Script.ReadsAlike s.content s.base s'.base)
    (byContent : ∀ p ∈ options.processors, p.ByContent) : d.code? options = d'.code? options := by
  obtain ⟨contracts, scripts⟩ := Document.contract_placement same alike
  obtain ⟨additions, found⟩ := processSections_placement byContent same.custom
  have tables := congrArg Contract.slots contracts
  have entities := Document.entities_placement same options.filename tables
  unfold Document.code?
  simp only [scripts, additions, found, same.script]
  rcases map_eq_map_cases entities with ⟨here, there⟩ | ⟨es, es', here, there, erased⟩
  · rw [here, there]
    rfl
  · rw [here, there]
    simp only [Option.bind_eq_bind, Option.bind_some]
    rw [generate_erased _ _ _ here, generate_erased _ _ _ there, contracts, erased]

/-- Files whose template, script and other sections have the same content compile to the same code, or both do
not compile, wherever their sections stand. -/
theorem compile_placement {text text' : String} {options : CompileOptions}
    (clean : (Document.cut text options.filename).2.hasErrors = false)
    (clean' : (Document.cut text' options.filename).2.hasErrors = false)
    (same : (Document.cut text options.filename).1.SameContent (Document.cut text' options.filename).1)
    (alike : ∀ s ∈ (Document.cut text options.filename).1.script, ∀ s' ∈ (Document.cut text' options.filename).1.script,
      Script.ReadsAlike s.content s.base s'.base)
    (byContent : ∀ p ∈ options.processors, p.ByContent) :
    (compile text options).toOption.map (·.code) = (compile text' options).toOption.map (·.code) := by
  rw [compile_code?, compile_code?, clean, clean', Document.code?_placement same alike byContent]

/-- A script with just a `Component` that has the slot `a` and a `create` that gives back `b`. -/
def Script.createsWithSlot : List Script.Item → Bool
  | [⟨.typeAlias "Component" _ (.literal [.property (some "slots") false (some (.literal
      [.property (some "a") false (some (.other _)) _] _)) _] _), true⟩,
    ⟨.function "create" _ (some ⟨_, some ⟨some [⟨some "b", _⟩], _⟩⟩), true⟩] => true
  | _ => false

theorem Script.readsAlike_createsWithSlot {source base base'}
    (here : (Script.parse source base).any Script.createsWithSlot = true)
    (there : (Script.parse source base').any Script.createsWithSlot = true) : Script.ReadsAlike source base base' := by
  obtain ⟨items, read, shape⟩ := (Option.any_eq_true _ _).1 here
  obtain ⟨items', read', shape'⟩ := (Option.any_eq_true _ _).1 there
  unfold Script.createsWithSlot at shape shape'
  unfold Script.ReadsAlike
  rw [read, read']
  split at shape <;> split at shape' <;> first | rfl | contradiction

/-- A component with its script and its template exchanged, a style between them and stray text before. -/
theorem compile_placement_exchanged :
    let noted : CompileOptions := { processors := [⟨"note", fun s => (some ⟨s.content, []⟩, [])⟩] }
    let script := "export type Component=\x7bslots:\x7ba:1\x7d\x7d\nexport function create()\x7breturn\x7bb:1\x7d\x7d\n"
    let first := "#! template\np \x7b:b\x7d\n@slot(a)\n#! script\n" ++ script ++ "#! note\nn"
    let moved := "-\n#! script\n" ++ script ++ "#! style\n#! template\np \x7b:b\x7d\n@slot(a)\n#! note\nn"
    (compile first noted).toOption.isSome = true ∧
      (compile first noted).toOption.map (·.code) = (compile moved noted).toOption.map (·.code) := by
  intro noted script first moved
  have clean : (Document.cut first noted.filename).2.hasErrors = false := by decide +kernel
  have clean' : (Document.cut moved noted.filename).2.hasErrors = false := by decide +kernel
  have same : (Document.cut first noted.filename).1.SameContent (Document.cut moved noted.filename).1 :=
    ⟨by decide +kernel, by decide +kernel, by decide +kernel⟩
  have here : (Document.cut first noted.filename).1.script.map (fun s => (s.content, s.base)) = some (script, 38) := by
    decide +kernel
  have there : (Document.cut moved noted.filename).1.script.map (fun s => (s.content, s.base)) = some (script, 12) := by
    decide +kernel
  refine ⟨by decide +kernel, compile_placement clean clean' same ?_ ?_⟩
  · intro s mine s' other
    rw [Option.mem_def.1 mine] at here
    rw [Option.mem_def.1 other] at there
    obtain ⟨content, base⟩ := Prod.mk.inj (Option.some.inj here)
    obtain ⟨-, base'⟩ := Prod.mk.inj (Option.some.inj there)
    rw [content, base, base']
    exact Script.readsAlike_createsWithSlot (by decide +kernel) (by decide +kernel)
  · intro p mem s s' name content
    cases List.mem_singleton.1 mem
    exact ⟨congrArg (fun text => some (Program.Addition.mk text [])) content, rfl⟩

end ComponentCompiler
