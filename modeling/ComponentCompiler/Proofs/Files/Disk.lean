import ComponentCompiler.Files.Disk
import ComponentCompiler.Proofs.Files.FileSystem

/-!
# Disks and recordings

A `Recording` is a disk with the list of the files that have been written to it.
-/

namespace ComponentCompiler

namespace Files.Disk

variable {d : Disk} {here there : Location} {entry : Entry}

theorem entry?_put (name : here ≠ []) :
    Disk.entry? (d.put here entry) there = if there = here then some entry else d.entry? there := by
  by_cases root : there = []
  · subst root
    rw [if_neg (Ne.symm name)]
    rfl
  have kept : ((fun e : Location × Entry => decide (e.1 = there)) ∘ fun e => if e.1 = here then (here, entry) else e) =
      fun e => decide (e.1 = there) := by
    funext e
    by_cases same : e.1 = here <;> simp [same]
  unfold entry? put
  rw [if_neg root, if_neg root]
  split
  · rename_i present
    rw [List.find?_map, kept]
    cases found : d.entries.find? (fun e => decide (e.1 = there)) with
    | none =>
      have absent : there ≠ here := by
        rintro rfl
        obtain ⟨e, mem, same⟩ := List.any_eq_true.1 present
        exact List.find?_eq_none.1 found e mem same
      simp [absent]
    | some e =>
      have same : e.1 = there := by simpa using List.find?_some found
      by_cases eq : there = here <;> simp [same, eq]
  · rename_i absent
    rw [List.find?_append]
    by_cases eq : there = here
    · subst eq
      have none : d.entries.find? (fun e => decide (e.1 = there)) = none := by
        rw [List.find?_eq_none]
        intro e mem same
        exact absent (List.any_eq_true.2 ⟨e, mem, same⟩)
      simp [none]
    · simp [eq, Ne.symm eq]

theorem name_of_not_directory (file : d.entry? here ≠ some .directory) : here ≠ [] := by
  rintro rfl
  exact file rfl

theorem makeDirectory_ok {path changed} (made : d.makeDirectory path = .ok changed) :
    ∃ here, d.entry? here = none ∧ changed = d.put here .directory := by
  unfold makeDirectory at made
  cases place : d.resolve path with
  | error e => simp [place, bind, Except.bind] at made
  | ok here =>
    simp only [place, bind, Except.bind] at made
    split at made
    · cases made
    · rename_i absent
      exact ⟨here, absent, (Except.ok.inj made).symm⟩

theorem writeText_ok {path text changed} (wrote : d.writeText path text = .ok changed) :
    ∃ here, d.resolve path = .ok here ∧ d.entry? here ≠ some .directory ∧
      changed = d.put here (.file (.text text)) := by
  unfold writeText at wrote
  cases place : d.resolve path with
  | error e => simp [place, bind, Except.bind] at wrote
  | ok here =>
    simp only [place, bind, Except.bind] at wrote
    split at wrote
    · cases wrote
    · rename_i file
      exact ⟨here, rfl, file, (Except.ok.inj wrote).symm⟩

theorem follow_idle {list s} (idle : isIdle s = true) {start stop}
    (followed : d.follow start (list ++ [s]) = .ok stop) : d.entry? stop = some .directory := by
  induction list generalizing start with
  | nil =>
    rw [List.nil_append, follow] at followed
    split at followed
    · cases followed
    · cases followed
    · rename_i directory
      rw [if_pos idle, follow] at followed
      obtain rfl := Except.ok.inj followed
      exact directory
  | cons next list ih =>
    rw [List.cons_append, follow] at followed
    split at followed
    · cases followed
    · cases followed
    · split at followed
      · exact ih followed
      · split at followed
        · exact ih followed
        · exact ih followed

/-- The path of a file ends with its name: what stands behind it would have to be looked up in the file. -/
theorem last_of_file {p} (file : d.kind? p = some .file) : ∀ s ∈ p.segments.getLast?, isIdle s = false := by
  intro s last
  obtain ⟨list, ends⟩ := List.getLast?_eq_some_iff.1 last
  unfold kind? at file
  split at file
  · rename_i place found
    unfold resolve at found
    split at found
    · cases found
    · rw [ends] at found
      refine Bool.eq_false_iff.2 fun idle => ?_
      rw [follow_idle idle found] at file
      cases file
  · cases file

end Files.Disk

namespace Files

instance : Disk.fileSystem.Steady where
  kind? _ _ := rfl
  names _ _ := rfl
  readText _ _ := rfl

structure Recording where
  disk : Disk
  written : List Location := []

namespace Recording

/-- Keeps what an operation that succeeds does to the disk, and notes where it has written. -/
def change (operation : Disk → Except FileError Disk) (written : Disk → List Location) :
    StateM Recording (Except FileError Unit) := fun r =>
  match operation r.disk with
  | .ok changed => (.ok (), ⟨changed, r.written ++ written r.disk⟩)
  | .error e => (.error e, r)

def fileSystem : FileSystem (StateM Recording) where
  kind? path := return (← get).disk.kind? path
  names path := return (← get).disk.names path
  readText path := return (← get).disk.readText path
  makeDirectory path := change (·.makeDirectory path) fun _ => []
  writeText path text := change (·.writeText path text) fun d => (d.resolve path).toOption.toList

instance : fileSystem.Steady where
  kind? _ _ := rfl
  names _ _ := rfl
  readText _ _ := rfl

/-- From `r` to `r'` files have been written at the places `ws`, and every other file is as it was. -/
structure Leads (r : Recording) (ws : List Location) (r' : Recording) : Prop where
  written : r'.written = r.written ++ ws
  others : ∀ here ∉ ws, ∀ content, r'.disk.entry? here = some (.file content) ↔
    r.disk.entry? here = some (.file content)

theorem Leads.refl (r : Recording) : Leads r [] r := ⟨(List.append_nil _).symm, fun _ _ _ => Iff.rfl⟩

theorem Leads.trans {r r' r'' : Recording} {ws vs : List Location} (first : Leads r ws r') (second : Leads r' vs r'') :
    Leads r (ws ++ vs) r'' where
  written := by rw [second.written, first.written, List.append_assoc]
  others here apart content := by
    obtain ⟨left, right⟩ := not_or.1 (mt List.mem_append.2 apart)
    exact (second.others here right content).trans (first.others here left content)

theorem makeDirectory_leads (path : Path) (r : Recording) : Leads r [] ((fileSystem.makeDirectory path).run r).2 := by
  show Leads r [] (change (·.makeDirectory path) (fun _ => []) r).2
  unfold change
  split
  · rename_i changed made
    obtain ⟨new, absent, rfl⟩ := Disk.makeDirectory_ok made
    refine ⟨rfl, fun here _ content => ?_⟩
    have name : new ≠ [] := Disk.name_of_not_directory (d := r.disk) (by simp [absent])
    rw [Disk.entry?_put name]
    split
    · rename_i same
      simp [same, absent]
    · rfl
  · exact .refl r

theorem orPresent_leads (path : Path) (made : Except FileError Unit) (r : Recording) :
    ((fileSystem.orPresent path made).run r).2 = r := by
  unfold FileSystem.orPresent
  split
  · rfl
  · rw [(FileSystem.Steady.kind? path).run_bind]
    split <;> rfl

theorem makeDirectoriesUp_leads (parts : List String) (r : Recording) :
    Leads r [] ((fileSystem.makeDirectoriesUp parts).run r).2 := by
  induction parts generalizing r with
  | nil => exact .refl r
  | cons part above ih =>
    unfold FileSystem.makeDirectoriesUp
    dsimp only
    generalize (⟨"/" ++ String.intercalate "/" (part :: above).reverse⟩ : Path) = path
    have first := makeDirectory_leads path r
    cases made : (fileSystem.makeDirectory path).run r with
    | mk result r1 =>
      rw [made] at first
      rw [run_bind_of made]
      split
      · have up := ih r1
        cases climbed : (fileSystem.makeDirectoriesUp above).run r1 with
        | mk result r2 =>
          rw [climbed] at up
          rw [run_bind_of climbed]
          cases result with
          | error e => exact first.trans up
          | ok done =>
            have again := makeDirectory_leads path r2
            cases remade : (fileSystem.makeDirectory path).run r2 with
            | mk result r3 =>
              rw [remade] at again
              dsimp only
              rw [run_bind_of remade, orPresent_leads]
              exact (first.trans up).trans again
      · rw [orPresent_leads]
        exact first

/-- A file that is written is on the disk; a failure to write it changes no file. -/
theorem writeFile_leads {path text r r' result} (ran : (fileSystem.writeFile path text).run r = (result, r')) :
    (result = .ok () ∧ ∃ here, Leads r [here] r' ∧ r'.disk.entry? here = some (.file (.text text))) ∨
      (∃ e, result = .error e) ∧ Leads r [] r' := by
  unfold FileSystem.writeFile at ran
  have above := makeDirectoriesUp_leads path.parts.dropLast.reverse r
  cases climbed : (fileSystem.makeDirectoriesUp path.parts.dropLast.reverse).run r with
  | mk made r1 =>
    rw [climbed] at above
    rw [run_bind_of climbed] at ran
    cases made with
    | error e =>
      obtain ⟨rfl, rfl⟩ := Prod.mk.inj ran
      exact .inr ⟨⟨e, rfl⟩, above⟩
    | ok done =>
      replace ran : change (·.writeText path text) (fun d => (d.resolve path).toOption.toList) r1 = (result, r') := ran
      unfold change at ran
      split at ran
      · rename_i changed wrote
        obtain ⟨rfl, rfl⟩ := Prod.mk.inj ran
        obtain ⟨here, place, file, rfl⟩ := Disk.writeText_ok wrote
        have name := Disk.name_of_not_directory file
        refine .inl ⟨rfl, here, above.trans ⟨?_, fun other apart content => ?_⟩, ?_⟩
        · simp [place, Except.toOption]
        · rw [Disk.entry?_put name, if_neg (by simpa using apart)]
        · rw [Disk.entry?_put name, if_pos rfl]
      · rename_i e wrote
        obtain ⟨rfl, rfl⟩ := Prod.mk.inj ran
        exact .inr ⟨⟨e, rfl⟩, above⟩

end Recording

end Files

theorem Files.Recording.change_projects (operation : Disk → Except FileError Disk) (written : Disk → List Location) :
    Projects Recording.disk (Recording.change operation written) (Disk.change operation) := by
  intro r
  show Disk.change operation r.disk =
    ((Recording.change operation written r).1, (Recording.change operation written r).2.disk)
  unfold Disk.change Recording.change
  cases operation r.disk <;> rfl

theorem Files.Recording.projected : FileSystem.Projected Recording.disk Recording.fileSystem Disk.fileSystem where
  kind? _ _ := rfl
  names _ _ := rfl
  readText _ _ := rfl
  makeDirectory _ := change_projects _ _
  writeText _ _ := change_projects _ _

end ComponentCompiler
