import ComponentCompiler.Proofs.Command.Turns
import ComponentCompiler.Proofs.Files.Disk
import ComponentCompiler.Proofs.Files.Path

/-!
# Targets

Only files from outside of the workspace can have the same target: `found_targets`.
-/

namespace ComponentCompiler.Command

open Files

namespace Settings

section

variable {σ : Type} {fs : FileSystem (StateM σ)} [fs.Steady] {s : Settings} {d : σ} {files : List Path} {path : Path}

theorem of_mem_filesOf? {root} (found : ((s.filesOf? fs root).run d).1 = some files) (mem : path ∈ files) :
    s.includes path = true ∧ ((fs.kind? path).run d).1 = some .file := by
  unfold filesOf? at found
  rw [(FileSystem.Steady.kind? root).run_bind] at found
  split at found
  · cases found
  · rename_i file
    obtain rfl := Option.some.inj found
    obtain ⟨single, included⟩ := List.mem_filter.1 mem
    obtain rfl := List.mem_singleton.1 single
    exact ⟨included, file⟩
  · rw [(fs.filesUnder_still _ _).run_bind] at found
    obtain rfl := Option.some.inj found
    obtain ⟨walked, included⟩ := List.mem_filter.1 mem
    exact ⟨included, FileSystem.kind?_of_mem_filesUnder walked⟩

theorem of_mem_collect {roots} (found : ((findFiles.collect fs s roots).run d).1 = .ok files) (mem : path ∈ files) :
    s.includes path = true ∧ ((fs.kind? path).run d).1 = some .file := by
  induction roots generalizing files with
  | nil =>
    obtain rfl := Except.ok.inj found
    cases mem
  | cons root roots ih =>
    unfold findFiles.collect at found
    rw [(s.filesOf?_still fs root).run_bind] at found
    split at found
    · cases found
    · rename_i first here
      cases ran : (findFiles.collect fs s roots).run d with
      | mk more d' =>
      rw [run_bind_of ran] at found
      cases more with
      | error e => cases found
      | ok others =>
        obtain rfl := Except.ok.inj found
        rcases List.mem_append.1 mem with mem | mem
        · exact of_mem_filesOf? here mem
        · exact ih (by rw [ran]) mem

theorem of_mem_findFiles (found : ((s.findFiles fs).run d).1 = .ok files) :
    (files.Pairwise fun p q => p.parts ≠ q.parts) ∧
      ∀ path ∈ files, s.includes path = true ∧ ((fs.kind? path).run d).1 = some .file := by
  unfold findFiles at found
  cases ran : (findFiles.collect fs s s.roots).run d with
  | mk collected d' =>
  rw [run_bind_of ran] at found
  cases collected with
  | error e => cases found
  | ok all =>
    obtain rfl := Except.ok.inj found
    refine ⟨Path.sortDistinct_pairwise all, fun path mem => ?_⟩
    exact of_mem_collect (by rw [ran]) (Path.mem_of_mem_sortDistinct mem)

end

def fileName (stem : List Char) (extension : String) : String := String.ofList (stem ++ '.' :: extension.toList)

def extensions : List String := ["ts", "css"]

theorem of_mem_extensions {e} (mem : e ∈ extensions) : '/' ∉ e.toList ∧ '.' ∉ e.toList ∧ e.toList ≠ [] := by
  simp only [extensions, List.mem_cons, List.not_mem_nil, or_false] at mem
  rcases mem with rfl | rfl <;> decide

theorem fileName_inj {stem stem' e e'} (plain : '.' ∉ e.toList) (plain' : '.' ∉ e'.toList)
    (same : fileName stem e = fileName stem' e') : stem = stem' ∧ e = e' := by
  have last {front front' back back' : List Char} (clear : '.' ∉ back)
    (eq : front ++ '.' :: back = front' ++ '.' :: back')
      (between : ∃ more, front' = front ++ more) : front = front' ∧ back = back' := by
    obtain ⟨more, rfl⟩ := between
    rw [List.append_assoc, List.append_cancel_left_eq] at eq
    cases more with
    | nil => exact ⟨(List.append_nil _).symm, (List.cons.inj eq).2⟩
    | cons c more =>
      refine absurd ?_ clear
      rw [(List.cons.inj eq).2]
      simp
  have chars : stem ++ '.' :: e.toList = stem' ++ '.' :: e'.toList := String.ofList_injective same
  rcases List.append_eq_append_iff.1 chars with ⟨more, longer, -⟩ | ⟨more, longer, -⟩
  · obtain ⟨stems, ends⟩ := last plain chars ⟨more, longer⟩
    exact ⟨stems, String.toList_injective ends⟩
  · obtain ⟨stems, ends⟩ := last plain' chars.symm ⟨more, longer⟩
    exact ⟨stems.symm, String.toList_injective ends.symm⟩

theorem fileName_solid {stem e} (stemmed : stem ≠ []) (extended : e.toList ≠ []) :
    isIdle (fileName stem e) = false ∧ fileName stem e ≠ parentSegment := by
  have long : 3 ≤ (fileName stem e).toList.length := by
    have := List.length_pos_iff.2 stemmed
    have := List.length_pos_iff.2 extended
    rw [fileName, String.toList_ofList, List.length_append, List.length_cons]
    omega
  have other {short : String} (few : short.toList.length < 3) : fileName stem e ≠ short := by
    rintro rfl
    omega
  exact ⟨by simp [isIdle, other], other (by decide)⟩

theorem component_parts {s : Settings} {d : Disk} {p : Path} (included : s.includes p = true)
    (file : d.kind? p = some .file) :
    ∃ place stem, stem ≠ [] ∧ p.parts = place ++ [fileName stem componentExtension] ∧
      ∀ e ∈ extensions, (p.withExtension e).parts = place ++ [fileName stem e] := by
  have extension : p.extension? = some componentExtension := by
    unfold includes at included
    simp only [Bool.and_eq_true, decide_eq_true_eq] at included
    exact included.1
  obtain ⟨above, stem, stemmed, -, spelled, beside⟩ := Path.withExtension_segments extension (Disk.last_of_file file)
  have parts {q : Path} {e : String} (extended : e.toList ≠ []) (segments : q.segments = above ++ [fileName stem e]) :
      q.parts = (above.filter fun s => !isIdle s) ++ [fileName stem e] := by
    rw [Path.parts, segments, List.filter_append]
    simp [(fileName_solid stemmed extended).1]
  refine ⟨above.filter fun s => !isIdle s, stem, stemmed, parts (by decide) spelled, fun e mem => ?_⟩
  obtain ⟨slash, -, extended⟩ := of_mem_extensions mem
  exact parts extended (beside e slash)

theorem target_parts {s : Settings} {p : Path} {e place stem} (stemmed : stem ≠ []) (mem : e ∈ extensions)
    (beside : (p.withExtension e).parts = place ++ [fileName stem e]) :
    match s.outDir with
    | none => (s.target p e).parts = place ++ [fileName stem e]
    | some dir => ∃ way, (s.target p e).parts = dir.parts ++ way ∧
        (place ++ [fileName stem e] = s.workspace.parts ++ way ∨
          ¬ s.workspace.parts <+: place ++ [fileName stem e] ∧ way = [fileName stem e]) := by
  obtain ⟨slash, -, extended⟩ := of_mem_extensions mem
  unfold target
  dsimp only
  cases s.outDir with
  | none => exact beside
  | some dir =>
    dsimp only
    cases below : (p.withExtension e).relativeTo? s.workspace with
    | some way =>
      obtain ⟨split, relative⟩ := Path.relativeTo?_some below
      exact ⟨way.parts, Path.parts_join relative, .inl (beside ▸ split)⟩
    | none =>
      have apart := Path.relativeTo?_none below
      rw [beside] at apart
      obtain ⟨solid, down⟩ := fileName_solid stemmed extended
      have named : (p.withExtension e).fileName? = some (fileName stem e) := by
        simp [Path.fileName?, beside, down]
      obtain ⟨single, relative⟩ := Path.parts_part (p := p.withExtension e) (s := fileName stem e) (by simp [beside])
      refine ⟨[fileName stem e], ?_, .inr ⟨apart, rfl⟩⟩
      rw [named, Option.getD_none, Option.getD_some, Path.parts_join relative, single]

def Holds (s : Settings) (p : Path) : Prop := s.workspace.parts <+: p.parts.dropLast

theorem shared_target {s : Settings} {d : Disk} {p q : Path} (included : s.includes p = true)
    (file : d.kind? p = some .file) (included' : s.includes q = true) (file' : d.kind? q = some .file)
    (apart : p.parts ≠ q.parts) {e e'} (mem : e ∈ extensions) (mem' : e' ∈ extensions)
    (shared : (s.target p e).parts = (s.target q e').parts) :
    e = e' ∧ s.outDir ≠ none ∧ p.fileName? = q.fileName? ∧ (¬ s.Holds p ∨ ¬ s.Holds q) := by
  obtain ⟨place, stem, stemmed, parts, beside⟩ := component_parts included file
  obtain ⟨place', stem', stemmed', parts', beside'⟩ := component_parts included' file'
  obtain ⟨-, plain, -⟩ := of_mem_extensions mem
  obtain ⟨-, plain', -⟩ := of_mem_extensions mem'
  have target := target_parts (s := s) stemmed mem (beside e mem)
  have target' := target_parts (s := s) stemmed' mem' (beside' e' mem')
  -- The results of different components differ where they keep their places.
  have distinct : place ++ [fileName stem e] ≠ place' ++ [fileName stem' e'] := by
    intro same
    obtain ⟨rfl, names⟩ := List.append_inj' same rfl
    obtain ⟨rfl, -⟩ := fileName_inj plain plain' (List.cons.inj names).1
    exact apart (parts.trans parts'.symm)
  cases directory : s.outDir with
  | none =>
    rw [directory] at target target'
    exact absurd (target.symm.trans (shared.trans target')) distinct
  | some dir =>
    rw [directory] at target target'
    obtain ⟨way, spelled, inside⟩ := target
    obtain ⟨way', spelled', inside'⟩ := target'
    rw [spelled, spelled', List.append_cancel_left_eq] at shared
    subst shared
    have outside {path : Path} {place : List String} {stem : List Char} {e : String}
        (parts : path.parts = place ++ [fileName stem componentExtension])
        (out : ¬ s.workspace.parts <+: place ++ [fileName stem e]) : ¬ s.Holds path := by
      intro holds
      rw [Holds, parts, List.dropLast_concat] at holds
      exact out (holds.trans (List.prefix_append _ _))
    obtain ⟨same, other⟩ : fileName stem e = fileName stem' e' ∧ (¬ s.Holds p ∨ ¬ s.Holds q) := by
      rcases inside with within | ⟨out, rfl⟩
      · rcases inside' with within' | ⟨out', rfl⟩
        · exact absurd (within.trans within'.symm) distinct
        · exact ⟨(List.cons.inj (List.append_inj' within rfl).2).1, .inr (outside parts' out')⟩
      · refine ⟨?_, .inl (outside parts out)⟩
        rcases inside' with within' | ⟨-, names⟩
        · exact (List.cons.inj (List.append_inj' within' rfl).2).1.symm
        · exact (List.cons.inj names).1
    obtain ⟨rfl, rfl⟩ := fileName_inj plain plain' same
    refine ⟨rfl, by simp, ?_, other⟩
    simp [Path.fileName?, parts, parts']

theorem climbs_concat {depth way name} (down : name ≠ parentSegment) :
    Path.climbs depth (way ++ [name]) = Path.climbs depth way := by
  induction way generalizing depth with
  | nil => simp [Path.climbs, down]
  | cons part way ih =>
    by_cases up : part = parentSegment
    · cases depth <;> simp [Path.climbs, up, ih]
    · simp [Path.climbs, up, ih]

theorem target_inside {s : Settings} {d : Disk} {p dir : Path} (included : s.includes p = true)
    (file : d.kind? p = some .file) (directory : s.outDir = some dir)
    (stays : ∀ way, p.parts = s.workspace.parts ++ way → Path.climbs 0 way = false) {e} (mem : e ∈ extensions) :
    Path.resolved dir.parts <+: Path.resolved (s.target p e).parts := by
  obtain ⟨place, stem, stemmed, parts, beside⟩ := component_parts included file
  obtain ⟨-, -, extended⟩ := of_mem_extensions mem
  have target := target_parts (s := s) stemmed mem (beside e mem)
  rw [directory] at target
  obtain ⟨way, spelled, inside⟩ := target
  have down := (fileName_solid stemmed extended).2
  rw [spelled]
  refine Path.resolved_prefix ?_
  rcases inside with within | ⟨-, rfl⟩
  · rcases way.eq_nil_or_concat with rfl | ⟨way, last, rfl⟩
    · rfl
    · rw [List.concat_eq_append, ← List.append_assoc] at within
      obtain ⟨rfl, names⟩ := List.append_inj' within rfl
      obtain rfl := (List.cons.inj names).1
      rw [List.append_assoc] at parts
      have climbs := stays _ parts
      rw [climbs_concat (fileName_solid stemmed (by decide)).2] at climbs
      rw [List.concat_eq_append, climbs_concat down]
      exact climbs
  · simp [Path.climbs, down]

end Settings

/-- Of the component files that a run finds, two have a target in common only if there is an output directory, one of
them is from outside of the workspace and they have the same name; and every target is in the output directory unless
the path of its component climbs out of the workspace. -/
theorem found_targets {s : Settings} {d : Disk} {files : List Path}
    (found : ((s.findFiles Disk.fileSystem).run d).1 = .ok files) :
    (files.Pairwise fun p q => p.parts ≠ q.parts ∧ ∀ e ∈ Settings.extensions, ∀ e' ∈ Settings.extensions,
      (s.target p e).parts = (s.target q e').parts →
        e = e' ∧ s.outDir ≠ none ∧ p.fileName? = q.fileName? ∧ (¬ s.Holds p ∨ ¬ s.Holds q)) ∧
    ∀ p ∈ files, ∀ e ∈ Settings.extensions, ∀ dir, s.outDir = some dir →
      (∀ way, p.parts = s.workspace.parts ++ way → Path.climbs 0 way = false) →
        Path.resolved dir.parts <+: Path.resolved (s.target p e).parts := by
  obtain ⟨distinct, each⟩ := Settings.of_mem_findFiles found
  refine ⟨distinct.imp_of_mem ?_, ?_⟩
  · intro p q here there apart
    obtain ⟨included, file⟩ := each p here
    obtain ⟨included', file'⟩ := each q there
    refine ⟨apart, fun e mem e' mem' shared => ?_⟩
    exact Settings.shared_target included file included' file' apart mem mem' shared
  · intro p here e mem dir directory stays
    obtain ⟨included, file⟩ := each p here
    exact Settings.target_inside included file directory stays mem

theorem found_targets_in_workspace :
    let s : Settings := ⟨⟨"/w"⟩, [⟨"/w/a/card.iron"⟩, ⟨"/w/b/../b/card.iron"⟩], some ⟨"/w/gen"⟩,
      Program.defaultRuntime, [],
      .human, false, false, false⟩
    let d : Disk := ⟨[(["w"], .directory), (["w", "a"], .directory), (["w", "a", "card.iron"], .file (.text "p\n")),
      (["w", "b"], .directory), (["w", "b", "card.iron"], .file (.text "p\n"))]⟩
    let a : Path := ⟨"/w/a/card.iron"⟩
    let b : Path := ⟨"/w/b/../b/card.iron"⟩
    ((s.findFiles Disk.fileSystem).run d).1 = .ok [a, b] ∧
      (∀ e ∈ Settings.extensions, ∀ e' ∈ Settings.extensions, (s.target a e).parts ≠ (s.target b e').parts) ∧
      ∀ e ∈ Settings.extensions, Path.resolved ["w", "gen"] <+: Path.resolved (s.target b e).parts := by
  intro s d a b
  have sorted : Path.sortDistinct [a, b] = [a, b] := by
    rw [Path.sortDistinct, List.mergeSort_of_pairwise (by decide +kernel)]
    decide +kernel
  have found : ((s.findFiles Disk.fileSystem).run d).1 = .ok [a, b] := by
    rw [← sorted]
    rfl
  obtain ⟨apart, inside⟩ := found_targets found
  have pair := (List.pairwise_cons.1 apart).1 b List.mem_cons_self
  refine ⟨found, fun e mem e' mem' shared => ?_, fun e mem => ?_⟩
  · obtain ⟨-, -, -, out | out⟩ := pair.2 e mem e' mem' shared
    · exact out (by decide +kernel : s.workspace.parts <+: a.parts.dropLast)
    · exact out (by decide +kernel : s.workspace.parts <+: b.parts.dropLast)
  · refine inside b (by simp) e mem ⟨"/w/gen"⟩ rfl fun way split => ?_
    have parts : b.parts = ["w"] ++ ["b", "..", "b", "card.iron"] := by decide +kernel
    have workspace : s.workspace.parts = ["w"] := by decide +kernel
    rw [parts, workspace, List.append_cancel_left_eq] at split
    rw [← split]
    decide

/-- Two files of one name from outside of the workspace have the same target, and a path that leaves the workspace and
comes back takes its target out of the output directory. -/
theorem shared_and_strayed_targets :
    let s : Settings := ⟨⟨"/w"⟩, [⟨"/a/card.iron"⟩, ⟨"/b/card.iron"⟩], some ⟨"/w/gen"⟩, Program.defaultRuntime,
      [], .human, false,
      false, false⟩
    let s' : Settings := { s with roots := [⟨"/w/../w/card.iron"⟩] }
    let d : Disk := ⟨[(["w"], .directory), (["w", "card.iron"], .file (.text "p\n")), (["a"], .directory),
      (["a", "card.iron"], .file (.text "p\n")), (["b"], .directory), (["b", "card.iron"], .file (.text "p\n"))]⟩
    let a : Path := ⟨"/a/card.iron"⟩
    let b : Path := ⟨"/b/card.iron"⟩
    let stray : Path := ⟨"/w/../w/card.iron"⟩
    ((s.findFiles Disk.fileSystem).run d).1 = .ok [a, b] ∧ a.parts ≠ b.parts ∧ s.target a "ts" = s.target b "ts" ∧
      ((s'.findFiles Disk.fileSystem).run d).1 = .ok [stray] ∧
      ¬ Path.resolved ["w", "gen"] <+: Path.resolved (s'.target stray "ts").parts := by
  intro s s' d a b stray
  have sorted : Path.sortDistinct [a, b] = [a, b] := by
    rw [Path.sortDistinct, List.mergeSort_of_pairwise (by decide +kernel)]
    decide +kernel
  have single : Path.sortDistinct [stray] = [stray] := by
    rw [Path.sortDistinct, List.mergeSort_singleton]
    rfl
  refine ⟨?_, by decide +kernel, by decide +kernel, ?_, by decide +kernel⟩
  · rw [← sorted]
    rfl
  · rw [← single]
    rfl

end ComponentCompiler.Command
