import ComponentCompiler.Proofs.Command.Accounts

/-!
# Written files

The count of a run leaves out components whose style sheet cannot be written: `runOnce_accurate`.
-/

namespace ComponentCompiler

namespace Command

open Files

section

variable {σ τ : Type} {view : σ → τ}

variable {fs : FileSystem (StateM σ)} {gs : FileSystem (StateM τ)} (same : FileSystem.Projected view fs gs)

include same

theorem writeAll_projects (results : List (Path × String)) :
    Projects view (writeAll fs results) (writeAll gs results) := by
  induction results with
  | nil => exact .pure _
  | cons result results ih =>
    unfold writeAll
    refine (same.writeFile result.1 result.2).bind fun wrote => ?_
    split
    · exact ih
    · exact .pure _

namespace Settings

variable (s : Settings)

theorem compileFile_projects (path : Path) : Projects view (s.compileFile fs path) (s.compileFile gs path) := by
  unfold compileFile
  refine (same.readText path).bind fun read => ?_
  split
  · exact .pure _
  · dsimp only
    split
    · exact .pure _
    · exact .pure _
    · exact .pure _
    · split
      · exact .pure _
      · refine (writeAll_projects same _).bind fun wrote => ?_
        split <;> exact .pure _

theorem filesOf?_projects (root : Path) : Projects view (s.filesOf? fs root) (s.filesOf? gs root) := by
  unfold filesOf?
  refine (same.kind? root).bind fun kind => ?_
  split
  · exact .pure _
  · exact .pure _
  · exact (same.filesUnder _ root).bind fun files => .pure _

theorem findFiles_projects : Projects view (s.findFiles fs) (s.findFiles gs) := by
  have collect (roots : List Path) : Projects view (findFiles.collect fs s roots) (findFiles.collect gs s roots) := by
    induction roots with
    | nil => exact .pure _
    | cons root roots ih =>
      unfold findFiles.collect
      refine (s.filesOf?_projects same root).bind fun found => ?_
      split
      · exact .pure _
      · exact ih.bind fun more => .pure _
  exact (collect s.roots).bind fun found => .pure _

end Settings

theorem runOnce_projects (s : Settings) (milliseconds : Nat) :
    Projects view (runOnce fs s (pure milliseconds)) (runOnce gs s (pure milliseconds)) := by
  unfold runOnce
  refine (s.findFiles_projects same).bind fun found => ?_
  split
  · exact .pure _
  · exact (Projects.mapM (fun path => s.compileFile_projects same path) _).bind fun reports => .pure _


end

def strands {σ : Type} (fs : FileSystem (StateM σ)) (d : σ) : List (Path × String) → Bool
  | [(first, text), (second, other)] =>
    match (fs.writeFile first text).run d with
    | (.ok (), d') => !((fs.writeFile second other).run d').1.isOk
    | (.error _, _) => false
  | _ => false

def Settings.strandsModule {σ : Type} (fs : FileSystem (StateM σ)) (s : Settings) (path : Path) (d : σ) : Bool :=
  match ((fs.readText path).run d).1 with
  | .error _ => false
  | .ok text =>
    match compile text (s.options path) with
    | .error _ => false
    | .ok c => !s.check && strands fs d (s.results path c)

theorem writeAll_cons {σ : Type} {fs : FileSystem (StateM σ)} {path text results d d' wrote}
    (ran : (fs.writeFile path text).run d = (wrote, d')) :
    (writeAll fs ((path, text) :: results)).run d =
      match wrote with
      | .ok () => (writeAll fs results).run d'
      | .error e => (.error (.unwritable path e), d') := by
  rw [writeAll, run_bind_of ran]
  cases wrote <;> rfl

theorem writeAll_leads {path text sheet} (short : sheet.length ≤ 1) {r r' outcome}
    (ran : (writeAll Recording.fileSystem ((path, text) :: sheet)).run r = (outcome, r')) :
    ∃ ws, r.Leads ws r' ∧
      match outcome with
      | .ok () => ws.length = sheet.length + 1 ∧ strands Recording.fileSystem r ((path, text) :: sheet) = false
      | .error _ =>
        if strands Recording.fileSystem r ((path, text) :: sheet) then
          ∃ here, ws = [here] ∧ r'.disk.entry? here = some (.file (.text text))
        else ws = [] := by
  cases first : (Recording.fileSystem.writeFile path text).run r with
  | mk wrote r1 =>
  rw [writeAll_cons first] at ran
  obtain ⟨rfl, here, leads, stands⟩ | ⟨⟨e, rfl⟩, leads⟩ := Recording.writeFile_leads first
  · cases sheet with
    | nil =>
      obtain ⟨rfl, rfl⟩ := Prod.mk.inj ran
      exact ⟨[here], leads, rfl, rfl⟩
    | cons second sheet =>
      obtain rfl : sheet = [] := List.eq_nil_of_length_eq_zero (by simpa using short)
      obtain ⟨path', text'⟩ := second
      dsimp only at ran
      cases next : (Recording.fileSystem.writeFile path' text').run r1 with
      | mk wrote r2 =>
      rw [writeAll_cons next] at ran
      obtain ⟨rfl, there, follows, -⟩ | ⟨⟨e, rfl⟩, follows⟩ := Recording.writeFile_leads next
      · obtain ⟨rfl, rfl⟩ := Prod.mk.inj ran
        refine ⟨[here] ++ [there], leads.trans follows, rfl, ?_⟩
        simp [strands, first, next, Except.isOk, Except.toBool]
      · obtain ⟨rfl, rfl⟩ := Prod.mk.inj ran
        have stranded : strands Recording.fileSystem r [(path, text), (path', text')] = true := by
          simp [strands, first, next, Except.isOk, Except.toBool]
        refine ⟨[here] ++ [], leads.trans follows, ?_⟩
        rw [if_pos stranded]
        exact ⟨here, rfl, (follows.others here (by simp) _).2 stands⟩
  · obtain ⟨rfl, rfl⟩ := Prod.mk.inj ran
    have kept : strands Recording.fileSystem r ((path, text) :: sheet) = false := by
      cases sheet with
      | nil => rfl
      | cons second sheet => cases sheet <;> simp [strands, first]
    exact ⟨[], leads, by simp [kept]⟩

namespace Settings

variable {s : Settings} {path : Path} {r r' : Recording} {report : FileReport}

theorem results_eq (s : Settings) (path : Path) (c : Compiled) :
    ∃ sheet, s.results path c = (s.target path "ts", c.code) :: sheet ∧ sheet.length ≤ 1 := by
  refine ⟨_, rfl, ?_⟩
  split <;> simp

theorem strandsModule_of_compiled {text c} (read : ((Recording.fileSystem.readText path).run r).1 = .ok text)
    (compiled : compile text (s.options path) = .ok c) :
    s.strandsModule Recording.fileSystem path r = (!s.check && strands Recording.fileSystem r (s.results path c)) := by
  unfold strandsModule
  rw [read]
  dsimp only
  rw [compiled]

theorem strandsModule_of_refused {text e} (read : ((Recording.fileSystem.readText path).run r).1 = .ok text)
    (refused : compile text (s.options path) = .error e) : s.strandsModule Recording.fileSystem path r = false := by
  unfold strandsModule
  rw [read]
  dsimp only
  rw [refused]

/-- What the turn of a file writes is what it reports as written, but for a module that it leaves behind. -/
theorem Processes.leads (processed : s.Processes Recording.fileSystem path r report r') :
    ∃ ws, r.Leads ws r' ∧
      if s.strandsModule Recording.fileSystem path r then
        report.tally.written = 0 ∧
          ∃ c here, Turn.Compiles Recording.fileSystem s ⟨path, r, report, r'⟩ c ∧ ws = [here] ∧
          r'.disk.entry? here = some (.file (.text c.code))
      else ws.length = report.tally.written := by
  cases processed with
  | unreadable read =>
    have keeps : s.strandsModule Recording.fileSystem path r = false := by
      unfold strandsModule
      rw [read]
    exact ⟨[], .refl r, by simp [keeps, FileReport.tally]⟩
  | malformed read refused | invalid read refused | notLowered read refused =>
    exact ⟨[], .refl r, by simp [strandsModule_of_refused read refused, FileReport.tally]⟩
  | checked read compiled check =>
    exact ⟨[], .refl r, by simp [strandsModule_of_compiled read compiled, check, FileReport.tally]⟩
  | @written text c _ read compiled check wrote =>
    obtain ⟨sheet, results, short⟩ := s.results_eq path c
    rw [results] at wrote
    obtain ⟨ws, leads, count, keeps⟩ := writeAll_leads short wrote
    refine ⟨ws, leads, ?_⟩
    rw [strandsModule_of_compiled read compiled, results, keeps, Bool.and_false, if_neg Bool.false_ne_true, count]
    rfl
  | @unwritten text c failure _ read compiled check wrote =>
    obtain ⟨sheet, results, short⟩ := s.results_eq path c
    rw [results] at wrote
    obtain ⟨ws, leads, rest⟩ := writeAll_leads short wrote
    refine ⟨ws, leads, ?_⟩
    rw [strandsModule_of_compiled read compiled, results, check, Bool.not_false, Bool.true_and]
    dsimp only at rest
    split
    · rename_i stranded
      rw [if_pos stranded] at rest
      obtain ⟨here, rfl, stands⟩ := rest
      exact ⟨rfl, c, here, ⟨text, read, compiled⟩, rfl, stands⟩
    · rename_i keeps
      rw [if_neg keeps] at rest
      rw [rest]
      rfl

theorem turns_leads (s : Settings) (files : List Path) (r : Recording) :
    ∃ ws, r.Leads ws (endState r (s.turns Recording.fileSystem files r)) ∧
      ws.length = (total (s.turns Recording.fileSystem files r)).written +
        (s.turns Recording.fileSystem files r).countP fun t =>
          s.strandsModule Recording.fileSystem t.path t.before := by
  induction files generalizing r with
  | nil => exact ⟨[], .refl r, rfl⟩
  | cons path files ih =>
    have step := (s.compileFile_processes Recording.fileSystem path r).leads
    cases ran : (s.compileFile Recording.fileSystem path).run r with
    | mk report r1 =>
    rw [ran] at step
    obtain ⟨ws, first, count⟩ := step
    obtain ⟨vs, rest, counts⟩ := ih r1
    have turns : s.turns Recording.fileSystem (path :: files) r =
        ⟨path, r, report, r1⟩ :: s.turns Recording.fileSystem files r1 := by
      rw [Settings.turns, ran]
    have sum : (total (s.turns Recording.fileSystem (path :: files) r)).written =
        report.tally.written + (total (s.turns Recording.fileSystem files r1)).written := by
      rw [turns, total, List.map_cons, Tally.ofReports_cons]
      rfl
    refine ⟨ws ++ vs, ?_, ?_⟩
    · rw [turns]
      exact first.trans rest
    · rw [sum, turns, List.countP_cons, List.length_append, counts]
      dsimp only at count ⊢
      split at count
      · obtain ⟨none, c, here, -, rfl, -⟩ := count
        rename_i stranded
        rw [none, if_pos stranded, List.length_singleton]
        omega
      · rename_i keeps
        rw [count, if_neg keeps]
        omega

end Settings

/-- How the files that a run has written compare with what it reports. -/
structure Accurate (s : Settings) (turns : List (Turn Recording)) (last : Recording) : Prop where
  /-- A file that fails adds nothing to the count. -/
  failed : ∀ t ∈ turns, ∀ path failure, t.report = .failed path failure → t.report.tally.written = 0
  /-- A file that adds nothing to the count has written nothing and changed no file. -/
  unwritten : ∀ t ∈ turns, t.report.tally.written = 0 → s.strandsModule Recording.fileSystem t.path t.before = false →
    t.before.Leads [] t.after
  /-- Unless its style sheet could not be written: then the module has been. -/
  stranded : ∀ t ∈ turns, s.strandsModule Recording.fileSystem t.path t.before = true →
    t.report.tally.written = 0 ∧ ∃ c here, t.Compiles Recording.fileSystem s c ∧ t.before.Leads [here] t.after ∧
      t.after.disk.entry? here = some (.file (.text c.code))
  written : last.written.length =
    (total turns).written + turns.countP fun t => s.strandsModule Recording.fileSystem t.path t.before

/-- A run on a disk does what it does on a recording of it, and there the files that it has written are those that it
counts and the modules of components whose style sheet could not be written. -/
theorem runOnce_accurate {s : Settings} {d : Disk} (there : ∀ root ∈ s.roots, d.kind? root ≠ none)
    (milliseconds : Nat) :
    ∃ files last, (s.findFiles Disk.fileSystem).run d = (.ok files, d) ∧
      (runOnce Disk.fileSystem s (pure milliseconds)).run d =
        (.ok (s.outcome ((s.turns Recording.fileSystem files ⟨d, []⟩).map Turn.report) milliseconds), last.disk) ∧
      last = endState ⟨d, []⟩ (s.turns Recording.fileSystem files ⟨d, []⟩) ∧
      Accurate s (s.turns Recording.fileSystem files ⟨d, []⟩) last := by
  obtain ⟨files, found, ran⟩ := runOnce_turns Recording.fileSystem (d := ⟨d, []⟩) there milliseconds
  have finds := s.findFiles_projects Recording.projected ⟨d, []⟩
  have runs := runOnce_projects Recording.projected s milliseconds ⟨d, []⟩
  rw [found] at finds
  rw [ran] at runs
  refine ⟨files, _, finds, runs, rfl, ?_⟩
  obtain ⟨ws, leads, count⟩ := s.turns_leads files ⟨d, []⟩
  have steps : ∀ t ∈ s.turns Recording.fileSystem files ⟨d, []⟩, _ := fun t mem =>
    (s.turns_processed Recording.fileSystem files ⟨d, []⟩ t mem).leads
  constructor
  · intro t mem path failure failed
    rw [failed]
    rfl
  · intro t mem none keeps
    obtain ⟨ws, leads, count⟩ := steps t mem
    rw [if_neg (by simp [keeps]), none] at count
    rwa [List.eq_nil_of_length_eq_zero count] at leads
  · intro t mem strands
    obtain ⟨ws, leads, rest⟩ := steps t mem
    rw [if_pos strands] at rest
    obtain ⟨none, c, here, compiles, rfl, stands⟩ := rest
    exact ⟨none, c, here, compiles, leads, stands⟩
  · rw [leads.written]
    exact count

theorem runOnce_accurate_two_files :
    let s : Settings := ⟨⟨"/w"⟩, [⟨"/w"⟩], some ⟨"/w/gen"⟩, Program.defaultRuntime, [], .human, false, false, false⟩
    let d : Disk := ⟨[(["w"], .directory),
      (["w", "a.iron"], .file (.text "#! template\np a\n#! style\n.a \x7b \x7d\n")),
      (["w", "b.iron"], .file (.text "p b\n")), (["w", "gen"], .directory), (["w", "gen", "b.ts"], .directory)]⟩
    (∀ root ∈ s.roots, d.kind? root ≠ none) ∧
      ∃ files last, (s.findFiles Disk.fileSystem).run d = (.ok files, d) ∧
        (runOnce Disk.fileSystem s (pure 3)).run d =
          (.ok (s.outcome ((s.turns Recording.fileSystem files ⟨d, []⟩).map Turn.report) 3), last.disk) ∧
        last = endState ⟨d, []⟩ (s.turns Recording.fileSystem files ⟨d, []⟩) ∧
        Accurate s (s.turns Recording.fileSystem files ⟨d, []⟩) last := by
  intro s d
  have there : ∀ root ∈ s.roots, d.kind? root ≠ none := by decide +kernel
  exact ⟨there, runOnce_accurate there 3⟩

/-- A directory in place of the style sheet: the component fails and counts as not written, but its module is new. -/
theorem module_left_behind :
    let s : Settings := ⟨⟨"/w"⟩, [⟨"/w"⟩], none, Program.defaultRuntime, [], .json, false, false, false⟩
    let d : Disk := ⟨[(["w"], .directory),
      (["w", "card.iron"], .file (.text "#! template\np a\n#! style\n.a \x7b \x7d\n")),
      (["w", "card.css"], .directory)]⟩
    let ran := (s.compileFile Disk.fileSystem ⟨"/w/card.iron"⟩).run d
    s.strandsModule Disk.fileSystem ⟨"/w/card.iron"⟩ d = true ∧ ran.1.tally = ⟨1, 0, 1, 0⟩ ∧
      d.entry? ["w", "card.ts"] = none ∧ (d.changedFiles ran.2).map Prod.fst = [["w", "card.ts"]] := by
  decide +kernel

end Command

end ComponentCompiler
