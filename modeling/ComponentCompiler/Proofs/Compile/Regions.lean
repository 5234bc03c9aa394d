import ComponentCompiler.Proofs.Compile.Outcome
import ComponentCompiler.Proofs.Respan.Origins
import ComponentCompiler.Proofs.Section.Cut

/-!
# Diagnostics and sections

Every diagnostic points to the part of the file that it is about: `compile_regions`.
-/

namespace ComponentCompiler

open Text

theorem Text.Cursor.Reaches.withinFile {text s} (reached : (Cursor.start text 0).Reaches s) :
    s.Within ⟨0, text.utf8ByteSize⟩ := by
  simpa [byteLength_toList] using reached.inText.within

theorem Section.Stands.contentSpan_eq {o} {s : Section} (stands : s.Stands o) :
    (⟨s.base, s.base + byteLength s.content.toList⟩ : Span) = s.contentSpan := by
  rw [← stands.length]
  rfl

namespace Document

def Stands (text : String) (d : Document) : Prop := ∀ s ∈ d.parts, s.Stands (.start text 0)

section

variable {text : String} {d : Document}

theorem Stands.script (stands : d.Stands text) {s} (mem : s ∈ d.script) : s.Stands (.start text 0) :=
  stands s (by simp [parts, Option.mem_def.1 mem])

theorem Stands.template (stands : d.Stands text) {s} (mem : s ∈ d.template) : s.Stands (.start text 0) :=
  stands s (by simp [parts, Option.mem_def.1 mem])

theorem Stands.custom (stands : d.Stands text) {s} (mem : s ∈ d.custom) : s.Stands (.start text 0) :=
  stands s (by simp [parts, mem])

theorem contract_within (stands : d.Stands text) :
    (∀ s ∈ (d.contract []).2.spans, ∃ part ∈ d.script, s.Within part.contentSpan) ∧
      ∀ decl ∈ (d.contract []).1.slots.getD [], ∃ part ∈ d.script, decl.span.Within part.contentSpan := by
  unfold contract
  cases here : d.script with
  | none => exact ⟨fun s mem => (by cases mem), fun decl mem => (by cases mem)⟩
  | some part =>
    obtain ⟨reported, declared⟩ := Script.inspect_within part.content part.base
    rw [(stands.script here).contentSpan_eq] at reported declared
    exact ⟨fun s mem => ⟨part, rfl, reported s mem⟩, fun decl mem => ⟨part, rfl, declared decl mem⟩⟩

theorem templateReport_within (stands : d.Stands text) (filename : String) (slots : Option SlotTable) :
    ∀ s ∈ (d.templateReport filename slots).spans,
      (∃ part ∈ d.template, s.Within part.contentSpan) ∨ ∃ decl ∈ slots.getD [], decl.span = s := by
  intro s mem
  unfold templateReport at mem
  split at mem
  · rename_i shown found checked
    unfold entities at checked
    cases here : d.template with
    | none =>
      rw [here] at checked
      cases checked
      cases mem
    | some part =>
      rw [here] at checked
      refine (Template.parse_within checked s mem).imp_left fun within => ⟨part, rfl, ?_⟩
      rwa [(stands.template here).contentSpan_eq] at within
  · cases mem

end

end Document

theorem processSections_at_markers {processors} (plain : processors = []) (list : List Section) :
    ∀ s ∈ (processSections processors list).2.spans, ∃ part ∈ list, s = part.markerSpan := by
  subst plain
  induction list with
  | nil => exact fun s mem => by cases mem
  | cons part rest ih =>
    intro s mem
    obtain ⟨d, reported, here⟩ := Log.mem_spans.1 mem
    rcases List.mem_append.1 reported with first | later
    · cases List.mem_singleton.1 first
      cases here
      exact ⟨part, List.mem_cons_self, rfl⟩
    · obtain ⟨other, inRest, same⟩ := ih s (Log.mem_spans.2 ⟨d, later, here⟩)
      exact ⟨other, List.mem_cons_of_mem _ inRest, same⟩

def reportOf : Except CompileError Compiled → Log
  | .ok c => c.log
  | .error e => e.log

theorem reportOf_mem (text : String) (options : CompileOptions) :
    ∀ x ∈ reportOf (compile text options), x ∈ (stageReports text options).flatten := by
  cases cutting : Document.cut text options.filename with
  | mk d cut =>
  cases inspecting : d.contract [] with
  | mk contract script =>
  intro x mem
  by_cases fault : ∃ e, d.Malformed e
  · obtain ⟨e, fault⟩ := fault
    rw [compile_malformed cutting inspecting fault] at mem
    have early : x ∈ cut ++ script := (Log.sorted_perm _).mem_iff.1 mem
    rw [stageReports_eq cutting inspecting, List.flatten_cons, List.flatten_cons, ← List.append_assoc]
    exact List.mem_append_left _ early
  · have outcome := compile_readable cutting inspecting fun e fault' => fault ⟨e, fault'⟩
    split at outcome
    · rw [outcome] at mem
      exact (Log.sorted_perm _).mem_iff.1 mem
    · obtain ⟨c, done, log⟩ := outcome
      rw [done, reportOf, log] at mem
      exact (Log.sorted_perm _).mem_iff.1 mem

/-- Every stage points to what it is about. -/
structure StageRegions (text : String) (d : Document) (slots : Option SlotTable) (cut script template others : Log) :
    Prop where
  cut : ∀ s ∈ cut.spans, (∃ first ∈ (Document.markers text).head?, s.Within ⟨0, first.start.pos⟩) ∨
    ∃ m ∈ Document.markers text, s = m.span
  script : ∀ s ∈ script.spans, ∃ part ∈ d.script, s.Within part.contentSpan
  template : ∀ s ∈ template.spans, (∃ part ∈ d.template, s.Within part.contentSpan) ∨
    ∃ decl ∈ slots.getD [], decl.span = s
  others : ∀ s ∈ others.spans, ∃ part ∈ d.custom, s = part.markerSpan

theorem Document.markers_within {text m} (mem : m ∈ Document.markers text) :
    m.span.Within ⟨0, text.utf8ByteSize⟩ := by
  have listed : m.span ∈ (allSections text).map Section.markerSpan := by
    rw [allSections_markerSpan]
    exact List.mem_map_of_mem mem
  obtain ⟨s, part, same⟩ := List.mem_map.1 listed
  exact same ▸ (allSections_stand text s part).marker.withinFile

theorem StageRegions.within {text d slots cut script template others}
    (regions : StageRegions text d slots cut script template others) (stands : d.Stands text)
    (declared : ∀ decl ∈ slots.getD [], ∃ part ∈ d.script, decl.span.Within part.contentSpan) {s}
    (mem : s ∈ (cut ++ script ++ template ++ others).spans) : s.Within ⟨0, text.utf8ByteSize⟩ := by
  have inScript : ∀ {s : Span}, (∃ part ∈ d.script, s.Within part.contentSpan) → s.Within ⟨0, text.utf8ByteSize⟩ := by
    rintro s ⟨part, here, within⟩
    exact within.trans (stands.script here).content.withinFile
  simp only [Log.spans_append, List.mem_append] at mem
  rcases mem with ((mem | mem) | mem) | mem
  · rcases regions.cut s mem with ⟨first, head, within⟩ | ⟨m, marker, rfl⟩
    · have marker := Document.markers_within (List.mem_of_head? head)
      exact within.trans ⟨Nat.le_refl 0, Nat.zero_le _, Nat.le_trans marker.le marker.stop⟩
    · exact Document.markers_within marker
  · exact inScript (regions.script s mem)
  · rcases regions.template s mem with ⟨part, here, within⟩ | ⟨decl, slot, rfl⟩
    · exact within.trans (stands.template here).content.withinFile
    · exact inScript (declared decl slot)
  · obtain ⟨part, here, rfl⟩ := regions.others s mem
    exact (stands.custom here).marker.withinFile

/-- Without processors, every stage points to what it is about, and whatever is reported comes from a stage and points
into the file. -/
theorem compile_regions (text : String) (options : CompileOptions) (plain : options.processors = []) :
    let d := (Document.cut text options.filename).1
    let cut := (Document.cut text options.filename).2
    let contract := (d.contract []).1
    let script := (d.contract []).2
    let template := d.templateReport options.filename contract.slots
    let others := (processSections options.processors d.custom).2
    StageRegions text d contract.slots cut script template others ∧
      (∀ x ∈ reportOf (compile text options), x ∈ cut ++ script ++ template ++ others) ∧
      ∀ s ∈ (reportOf (compile text options)).spans, s.start ≤ s.stop ∧ s.stop ≤ text.utf8ByteSize := by
  intro d cut contract script template others
  have stands : d.Stands text := Document.cut_stands text options.filename
  obtain ⟨scriptReports, declared⟩ := Document.contract_within stands
  have regions : StageRegions text d contract.slots cut script template others :=
    { cut := Document.cut_reports text options.filename
      script := scriptReports
      template := Document.templateReport_within stands options.filename contract.slots
      others := processSections_at_markers plain d.custom }
  have origin : ∀ x ∈ reportOf (compile text options), x ∈ cut ++ script ++ template ++ others := by
    have stages : stageReports text options = [cut, script, template, others] := rfl
    simpa [stages] using reportOf_mem text options
  refine ⟨regions, origin, fun s mem => ?_⟩
  obtain ⟨x, given, here⟩ := Log.mem_spans.1 mem
  have within := regions.within stands declared (Log.mem_spans.2 ⟨x, origin x given, here⟩)
  exact ⟨within.le, within.stop⟩

theorem compile_regions_unused_slot :
    let text := "#! script\nexport type Component={slots:{a:1}}\n#! template\np\n"
    ({} : CompileOptions).processors = [] ∧ (reportOf (compile text {})).spans = [⟨40, 43⟩] ∧
      ∀ s ∈ (reportOf (compile text {})).spans, s.start ≤ s.stop ∧ s.stop ≤ text.utf8ByteSize :=
  ⟨rfl, by decide +kernel, (compile_regions _ {} rfl).2.2⟩

end ComponentCompiler
