import ComponentCompiler.Proofs.Diagnostic.Reported
import ComponentCompiler.Proofs.Program.Accepted
import ComponentCompiler.Proofs.Respan.Script

/-!
# Outcomes of compiling

The outcome of `compile` can be told from the reports of its stages, each taken alone.
-/

namespace ComponentCompiler

namespace Template

theorem check_earlier (items : List Outline.Item) (slots : Option SlotTable) (region : Span) (earlier : Log) :
    check items slots region earlier =
      ((check items slots region []).1, earlier ++ (check items slots region []).2) := by
  have kept : Check.Kept slots fun _ _ _ _ _ => True := ⟨fun _ _ => trivial, fun _ _ => trivial⟩
  obtain ⟨entities, q, runs⟩ := (kept.whole items).frame {}
  have here := runs earlier
  have alone := runs []
  unfold check
  dsimp only
  rw [here, alone]
  dsimp only
  have counts : earlier.errorCount < Log.errorCount (earlier ++ q.log) ↔
      Log.errorCount [] < Log.errorCount ([] ++ q.log) := by
    rw [Log.errorCount_append, Log.errorCount_append]
    simp [Log.errorCount]
  simp only [counts]
  split
  · simp
  · split <;> simp

theorem check_isSome (items : List Outline.Item) (slots : Option SlotTable) (region : Span) :
    (check items slots region []).1.isSome = !(check items slots region []).2.hasErrors := by
  unfold check
  dsimp only
  generalize StateT.run _ _ = ran
  obtain ⟨entities, p⟩ := ran
  dsimp only
  by_cases more : Log.errorCount [] < p.log.errorCount
  · have errors : p.log.hasErrors ≠ false := fun none => Nat.ne_of_gt more (Log.hasErrors_eq_false.1 none)
    rw [if_pos more]
    simpa using errors
  · have clean : p.log.hasErrors = false := Log.hasErrors_eq_false.2 (Nat.le_zero.1 (Nat.not_lt.1 more))
    have warned : Log.hasErrors [.warningAt .templateEmpty region "the template renders nothing"] = false := rfl
    rw [if_neg more]
    split <;> simp [clean, warned]

theorem parse_earlier (source : String) (base : Nat) (slots : Option SlotTable) (earlier : Log) :
    parse source base slots earlier = (parse source base slots []).map fun found => (found.1, earlier ++ found.2) := by
  unfold parse
  split
  · rfl
  · rw [check_earlier]
    rfl

theorem parse_isSome {source base slots entities found} (h : parse source base slots [] = .ok (entities, found)) :
    entities.isSome = !found.hasErrors := by
  unfold parse at h
  split at h
  · cases h
  · rename_i items _
    have accepted := check_isSome items slots ⟨base, base + Text.byteLength source.toList⟩
    rwa [Except.ok.inj h] at accepted

end Template

theorem Document.contract_earlier (d : Document) (earlier : Log) :
    d.contract earlier = ((d.contract []).1, earlier ++ (d.contract []).2) := by
  unfold Document.contract
  split
  · exact Script.inspect_earlier _ _ earlier
  · simp

theorem Document.entities_earlier (d : Document) (filename : String) (slots : Option SlotTable) (earlier : Log) :
    d.entities filename slots earlier =
      (d.entities filename slots []).map fun found => (found.1, earlier ++ found.2) := by
  unfold Document.entities
  split
  · exact Template.parse_earlier _ _ slots earlier
  · rfl

theorem Document.entities_isSome {d : Document} {filename slots} {entities : Option (List Template.Entity)}
    {found : Log} (h : d.entities filename slots [] = .ok (entities, found)) :
    entities.isSome = !found.hasErrors := by
  unfold Document.entities at h
  split at h
  · exact Template.parse_isSome h
  · cases h
    rfl

def Document.Malformed (d : Document) (e : Template.ParseError) : Prop :=
  ∃ s, d.template = some s ∧ Template.Outline.parse s.content s.base = .error e

theorem Document.malformed_iff {d : Document} {filename slots e} :
    d.Malformed e ↔ d.entities filename slots [] = .error e := by
  unfold Document.Malformed Document.entities Template.parse
  cases d.template with
  | none => simp
  | some s =>
    dsimp only
    split <;> simp_all

theorem Document.Malformed.unique {d : Document} {e e'} (h : d.Malformed e) (h' : d.Malformed e') : e = e' := by
  obtain ⟨s, here, failed⟩ := h
  obtain ⟨s', here', failed'⟩ := h'
  obtain rfl : s = s' := Option.some.inj (here.symm.trans here')
  exact Except.error.inj (failed.symm.trans failed')

def Document.templateReport (d : Document) (filename : String) (slots : Option SlotTable) : Log :=
  match d.entities filename slots [] with
  | .ok (_, found) => found
  | .error _ => []

/-- What each stage reports, taken alone: cutting, the script, the template and the other sections. -/
def stageReports (text : String) (options : CompileOptions) : List Log :=
  let (d, cut) := Document.cut text options.filename
  let (contract, script) := d.contract []
  [cut, script, d.templateReport options.filename contract.slots, (processSections options.processors d.custom).2]

theorem hasErrors_flatten (logs : List Log) : Log.hasErrors logs.flatten = logs.any Log.hasErrors := by
  induction logs with
  | nil => rfl
  | cons log logs ih => simp [ih]

theorem Reported.hasErrors {log report} (h : Reported log report) : report.hasErrors = log.hasErrors :=
  h.complete.any_eq

section

variable {text : String} {options : CompileOptions} {d : Document} {cut script : Log} {contract : Contract}
  (cutting : Document.cut text options.filename = (d, cut)) (inspecting : d.contract [] = (contract, script))

include cutting inspecting

theorem stageReports_eq : stageReports text options =
    [cut, script, d.templateReport options.filename contract.slots,
      (processSections options.processors d.custom).2] := by
  unfold stageReports
  rw [cutting]
  dsimp only
  rw [inspecting]

theorem compile_malformed {e} (fault : d.Malformed e) :
    compile text options = .error (.malformed options.filename e (Log.sorted (cut ++ script))) := by
  have failed : d.entities options.filename contract.slots [] = .error e := Document.malformed_iff.1 fault
  unfold compile
  rw [cutting]
  dsimp only
  rw [d.contract_earlier, inspecting, d.entities_earlier, failed]
  rfl

theorem compile_readable (readable : ∀ e, ¬ d.Malformed e) :
    if Log.hasErrors (stageReports text options).flatten then
      compile text options = .error (.invalid options.filename (Log.sorted (stageReports text options).flatten))
    else ∃ c, compile text options = .ok c ∧ c.log = Log.sorted (stageReports text options).flatten := by
  rw [stageReports_eq cutting inspecting]
  unfold compile Document.templateReport
  rw [cutting]
  dsimp only
  rw [d.contract_earlier, inspecting]
  dsimp only
  rw [d.entities_earlier _ _ (cut ++ script)]
  cases read : d.entities options.filename contract.slots [] with
  | error e => exact absurd (Document.malformed_iff.2 read) (readable e)
  | ok found =>
    obtain ⟨entities, template⟩ := found
    have accepted := Document.entities_isSome read
    simp only [List.flatten_cons, List.flatten_nil, List.append_nil, ← List.append_assoc, Except.map]
    cases entities with
    | none =>
      have errors : template.hasErrors = true := by simpa using accepted
      rw [if_pos (by simp [errors])]
    | some entities =>
      dsimp only
      split
      · rfl
      · obtain ⟨code, generated⟩ := Program.generate_succeeds (Document.entities_sound read) _ _ _
        rw [generated]
        exact ⟨_, rfl, rfl⟩

end

/-- The outcome of compiling is told by the reports of the stages. -/
theorem compile_outcome (text : String) (options : CompileOptions) :
    let (d, cut) := Document.cut text options.filename
    let reports := stageReports text options
    (∀ name e log, compile text options = .error (.malformed name e log) ↔
      name = options.filename ∧ d.Malformed e ∧ Reported (cut ++ (d.contract []).2) log) ∧
    (∀ name log, compile text options = .error (.invalid name log) ↔
      name = options.filename ∧ (∀ e, ¬ d.Malformed e) ∧ (∃ report ∈ reports, report.hasErrors = true) ∧
        Reported reports.flatten log) ∧
    (∀ log, (∃ c, compile text options = .ok c ∧ c.log = log) ↔
      (∀ e, ¬ d.Malformed e) ∧ (∀ report ∈ reports, report.hasErrors = false) ∧ Reported reports.flatten log ∧
        log.hasErrors = false) := by
  cases cutting : Document.cut text options.filename with
  | mk d cut =>
  cases inspecting : d.contract [] with
  | mk contract script =>
  have failing := fun e (fault : d.Malformed e) => compile_malformed cutting inspecting fault
  have reading := compile_readable cutting inspecting
  have found : (∃ report ∈ stageReports text options, report.hasErrors = true) ↔
      Log.hasErrors (stageReports text options).flatten = true := by
    rw [hasErrors_flatten, List.any_eq_true]
  have clean : (∀ report ∈ stageReports text options, report.hasErrors = false) ↔
      Log.hasErrors (stageReports text options).flatten = false := by
    simp [hasErrors_flatten]
  dsimp only
  simp only [found, clean, reported_iff]
  by_cases fault : ∃ e, d.Malformed e
  · obtain ⟨e, fault⟩ := fault
    have sole : ∀ e', d.Malformed e' ↔ e = e' := fun e' => ⟨fault.unique, fun same => same ▸ fault⟩
    simp only [failing e fault, sole, inspecting]
    refine ⟨fun name e' log => ?_, fun name log => ?_, fun log => ?_⟩
    · simp [eq_comm]
    · simp
    · simp
  · have readable : ∀ e, ¬ d.Malformed e := fun e fault' => fault ⟨e, fault'⟩
    have outcome := reading readable
    cases errors : Log.hasErrors (stageReports text options).flatten with
    | true =>
      rw [if_pos errors] at outcome
      simp only [outcome, readable]
      refine ⟨fun name e log => ?_, fun name log => ?_, fun log => ?_⟩
      · simp
      · simp [eq_comm]
      · simp
    | false =>
      rw [if_neg (by simp [errors])] at outcome
      obtain ⟨c, done, logged⟩ := outcome
      simp only [done, readable]
      refine ⟨fun name e log => ?_, fun name log => ?_, fun log => ?_⟩
      · simp
      · simp
      · have kept : log = Log.sorted (stageReports text options).flatten → log.hasErrors = false := fun same =>
          (reported_iff.2 same).hasErrors.trans errors
        constructor
        · rintro ⟨c', same, rfl⟩
          cases same
          exact ⟨fun _ => id, trivial, logged, kept logged⟩
        · rintro ⟨-, -, same, -⟩
          exact ⟨c, rfl, logged.trans same.symm⟩

/-- What earlier stages have logged decides nothing about a template, and stays in front of what is found in it. A
template that cannot be read leaves the log as it was: `compile` then reports what it held before. -/
theorem template_reports_behind (source : String) (base : Nat) (slots : Option SlotTable) (earlier : Log) :
    (match Template.parse source base slots [] with
      | .error e => Template.parse source base slots earlier = .error e
      | .ok (entities, added) => Template.parse source base slots earlier = .ok (entities, earlier ++ added) ∧
          (entities.isSome = true ↔ added.hasErrors = false)) ∧
    ∀ (text : String) (options : CompileOptions),
      let (d, cut) := Document.cut text options.filename
      let (contract, log) := d.contract cut
      ∀ s e, d.template = some s → Template.parse s.content s.base contract.slots log = .error e →
        compile text options = .error (.malformed options.filename e log.sorted) := by
  refine ⟨?_, fun text options => ?_⟩
  · have behind := Template.parse_earlier source base slots earlier
    cases alone : Template.parse source base slots [] with
    | error e => rw [behind, alone]; rfl
    | ok found =>
      obtain ⟨entities, added⟩ := found
      refine ⟨by rw [behind, alone]; rfl, ?_⟩
      rw [Template.parse_isSome alone, Bool.not_eq_true']
  · dsimp only
    intro s e present failed
    have stage : (Document.cut text options.filename).1.entities options.filename
        ((Document.cut text options.filename).1.contract (Document.cut text options.filename).2).1.slots
        ((Document.cut text options.filename).1.contract (Document.cut text options.filename).2).2 = .error e := by
      unfold Document.entities
      rw [present]
      exact failed
    unfold compile
    dsimp only
    rw [stage]

end ComponentCompiler
