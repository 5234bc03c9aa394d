import ComponentCompiler.Proofs.Command.Turns
import ComponentCompiler.Proofs.Files.Disk
import ComponentCompiler.Proofs.Compile.Outcome

/-!
# Accounts of a run

The exit code, the totals and the written files of a run are those of the files it finds: `runOnce_accounted`.
-/

namespace ComponentCompiler

theorem Log.errorCount_pos {log : Log} : 0 < log.errorCount ↔ log.hasErrors = true := by
  rw [Log.errorCount, List.countP_pos_iff, Log.hasErrors, List.any_eq_true]

/-- A component is not compiled because its template cannot be read or because an error is reported, and for no other
reason. -/
theorem compile_cases (text : String) (options : CompileOptions) :
    (∃ fault log, compile text options = .error (.malformed options.filename fault log)) ∨
      (∃ log, compile text options = .error (.invalid options.filename log) ∧ 0 < log.errorCount) ∨
        ∃ c, compile text options = .ok c ∧ c.log.errorCount = 0 := by
  cases cutting : Document.cut text options.filename with
  | mk d cut =>
  cases inspecting : d.contract [] with
  | mk contract script =>
  by_cases fault : ∃ e, d.Malformed e
  · obtain ⟨e, fault⟩ := fault
    exact .inl ⟨e, _, compile_malformed cutting inspecting fault⟩
  · have outcome := compile_readable cutting inspecting fun e here => fault ⟨e, here⟩
    have same := (sorted_reported (stageReports text options).flatten).hasErrors
    split at outcome
    · rename_i errors
      exact .inr (.inl ⟨_, outcome, Log.errorCount_pos.2 (same.trans errors)⟩)
    · rename_i clean
      obtain ⟨c, done, logged⟩ := outcome
      refine .inr (.inr ⟨c, done, ?_⟩)
      rw [← Log.hasErrors_eq_false, logged, same]
      simpa using clean

theorem compile_invalid_errors {text name options log}
    (refused : compile text options = .error (.invalid name log)) : 0 < log.errorCount := by
  obtain ⟨fault, other, malformed⟩ | ⟨_, invalid, errors⟩ | ⟨c, compiled, -⟩ := compile_cases text options
  · simp [refused] at malformed
  · obtain ⟨-, rfl⟩ : name = options.filename ∧ log = _ := by simpa [refused] using invalid
    exact errors
  · simp [refused] at compiled

theorem compile_ok_errors {text options c} (compiled : compile text options = .ok c) : c.log.errorCount = 0 := by
  obtain ⟨fault, log, malformed⟩ | ⟨log, invalid, -⟩ | ⟨_, same, clean⟩ := compile_cases text options
  · simp [compiled] at malformed
  · simp [compiled] at invalid
  · obtain rfl : c = _ := by simpa [compiled] using same
    exact clean

namespace Command

open Files

namespace Event

def severity? : Event → Option Severity
  | .found _ d => some d.severity
  | _ => none

def isMalformed : Event → Bool
  | .malformed .. => true
  | _ => false

def isFailure : Event → Bool
  | .failure .. => true
  | _ => false

end Event

namespace FileReport

theorem errors_eq (r : FileReport) :
    r.tally.errors = r.events.countP (·.severity? = some .error) + r.events.countP Event.isMalformed +
      r.events.countP Event.isFailure := by
  cases r with
  | failed path failure => rfl
  | compiled source log fault written =>
    simp [tally, events, Log.errorCount, Diagnostic.isError, List.countP_append, List.countP_map,
      Function.comp_def, Event.severity?,
      Event.isMalformed, Event.isFailure]

theorem warnings_eq (r : FileReport) : r.tally.warnings = r.events.countP (·.severity? = some .warning) := by
  cases r with
  | failed path failure => rfl
  | compiled source log fault written =>
    have other (d : Diagnostic) : (!d.isError) = decide (d.severity = .warning) := by
      unfold Diagnostic.isError
      cases d.severity <;> rfl
    simp [tally, events, Log.warningCount, other, List.countP_append, List.countP_map,
      Function.comp_def, Event.severity?]

end FileReport

namespace Tally

theorem ofReports_cons (r : FileReport) (reports : List FileReport) :
    ofReports (r :: reports) = r.tally.add (ofReports reports) := by
  have onward (start : Tally) (rs : List FileReport) :
      rs.foldl (fun t r => t.add r.tally) start = start.add (ofReports rs) := by
    induction rs generalizing start with
    | nil => rfl
    | cons r rs ih =>
      rw [ofReports, List.foldl_cons, List.foldl_cons, ih, ih]
      simp only [add, Nat.add_assoc, Nat.zero_add]
  rw [ofReports, List.foldl_cons, onward]
  simp only [add, Nat.zero_add]

variable (reports : List FileReport)

theorem files_ofReports : (ofReports reports).files = reports.length := by
  induction reports with
  | nil => rfl
  | cons r reports ih =>
    have one : r.tally.files = 1 := by cases r <;> rfl
    rw [ofReports_cons, List.length_cons, ← ih, Nat.add_comm, ← one]
    rfl

theorem errors_ofReports :
    (ofReports reports).errors = (reports.flatMap FileReport.events).countP (·.severity? = some .error) +
      (reports.flatMap FileReport.events).countP Event.isMalformed +
      (reports.flatMap FileReport.events).countP Event.isFailure := by
  induction reports with
  | nil => rfl
  | cons r reports ih =>
    have step : (ofReports (r :: reports)).errors = r.tally.errors + (ofReports reports).errors := by
      rw [ofReports_cons]
      rfl
    simp only [step, ih, r.errors_eq, List.flatMap_cons, List.countP_append]
    omega

theorem warnings_ofReports :
    (ofReports reports).warnings = (reports.flatMap FileReport.events).countP (·.severity? = some .warning) := by
  induction reports with
  | nil => rfl
  | cons r reports ih =>
    rw [ofReports_cons, List.flatMap_cons, List.countP_append, ← ih, ← r.warnings_eq]
    rfl

theorem errors_pos : 0 < (ofReports reports).errors ↔ ∃ r ∈ reports, 0 < r.tally.errors := by
  induction reports with
  | nil => simp [ofReports]
  | cons r reports ih =>
    simp only [ofReports_cons, List.mem_cons, exists_eq_or_imp, ← ih]
    exact Nat.add_pos_iff_pos_or_pos

end Tally

variable {σ : Type} (fs : FileSystem (StateM σ)) (s : Settings)

namespace Turn

variable (t : Turn σ)

def text : Except FileError String := ((fs.readText t.path).run t.before).1

def Compiles (c : Compiled) : Prop := ∃ text, t.text fs = .ok text ∧ compile text (s.options t.path) = .ok c

/-- The file cannot be read, or it does not compile, or what it compiles to is to be written and cannot be. -/
def Fails : Prop :=
  (∃ e, t.text fs = .error e) ∨ (∃ text e, t.text fs = .ok text ∧ compile text (s.options t.path) = .error e) ∨
    ∃ c failure, t.Compiles fs s c ∧ s.check = false ∧
      ((writeAll fs (s.results t.path c)).run t.before).1 = .error failure

end Turn

variable {fs s}

theorem Turn.Compiles.not_fails {t : Turn σ} {c} (compiles : t.Compiles fs s c)
    (done : s.check = true ∨ ((writeAll fs (s.results t.path c)).run t.before).1 = .ok ()) : ¬ t.Fails fs s := by
  obtain ⟨text, read, compiled⟩ := compiles
  rintro (⟨e, other⟩ | ⟨text', e, read', refused⟩ | ⟨c', failure, ⟨text', read', compiled'⟩, check, wrote⟩)
  · simp [read] at other
  · obtain rfl : text = text' := by simpa [read] using read'
    simp [compiled] at refused
  · obtain rfl : text = text' := by simpa [read] using read'
    obtain rfl : c = c' := by simpa [compiled] using compiled'
    obtain only | ok := done
    · simp [check] at only
    · simp [wrote] at ok

/-- The step: a file fails exactly if its report has an error. -/
theorem Settings.Processes.errors_pos {path d d' report} (processed : s.Processes fs path d report d') :
    0 < report.tally.errors ↔ Turn.Fails fs s ⟨path, d, report, d'⟩ := by
  cases processed with
  | unreadable read => exact iff_of_true Nat.one_pos (.inl ⟨_, read⟩)
  | malformed read refused => exact iff_of_true (Nat.succ_pos _) (.inr (.inl ⟨_, _, read, refused⟩))
  | notLowered read refused => exact iff_of_true Nat.one_pos (.inr (.inl ⟨_, _, read, refused⟩))
  | unwritten read compiled check wrote =>
    exact iff_of_true Nat.one_pos (.inr (.inr ⟨_, _, ⟨_, read, compiled⟩, check, congrArg Prod.fst wrote⟩))
  -- In the other cases the errors are those of the log: there is one if the component is refused, and none else.
  | invalid read refused => exact iff_of_true (compile_invalid_errors refused) (.inr (.inl ⟨_, _, read, refused⟩))
  | checked read compiled check =>
    exact iff_of_false (Nat.not_lt.2 (Nat.le_of_eq (compile_ok_errors compiled)))
      (Turn.Compiles.not_fails ⟨_, read, compiled⟩ (.inl check))
  | written read compiled check wrote =>
    exact iff_of_false (Nat.not_lt.2 (Nat.le_of_eq (compile_ok_errors compiled)))
      (Turn.Compiles.not_fails ⟨_, read, compiled⟩ (.inr (congrArg Prod.fst wrote)))

/-- The step: only what compiles is written, and nothing if the run only checks. -/
theorem Settings.Processes.unchanged {path d d' report} (processed : s.Processes fs path d report d')
    (changed : d' ≠ d) : s.check = false ∧ ∃ c, Turn.Compiles fs s ⟨path, d, report, d'⟩ c := by
  cases processed with
  | written read compiled check wrote => exact ⟨check, _, _, read, compiled⟩
  | unwritten read compiled check wrote => exact ⟨check, _, _, read, compiled⟩
  | _ => exact absurd rfl changed

def findings (turns : List (Turn σ)) : List Event := (turns.map Turn.report).flatMap FileReport.events

def total (turns : List (Turn σ)) : Tally := .ofReports (turns.map Turn.report)

def printed (turns : List (Turn σ)) (milliseconds : Nat) : List Event :=
  findings turns ++ [.finished (total turns) milliseconds]

variable (fs s) in
/-- A run that begins in the state `d` and consists of the given turns accounts for all of its files. -/
structure Accounted (d : σ) (files : List Path) (turns : List (Turn σ)) (milliseconds : Nat)
    (outcome : Outcome) : Prop where
  paths : turns.map Turn.path = files
  out : outcome.out = ((printed turns milliseconds).map (Event.lines s.output)).flatMap Prod.fst
  /-- Before it comes at most a notice for a verbose run. -/
  err : ((printed turns milliseconds).map (Event.lines s.output)).flatMap Prod.snd <:+ outcome.err
  exitCode : outcome.exitCode = 0 ∨ outcome.exitCode = 1
  /-- The run fails exactly if a file does or, should the settings want that, if there is a warning. -/
  fails : outcome.exitCode = 1 ↔
    (∃ t ∈ turns, t.Fails fs s) ∨ s.failOnWarning = true ∧ ∃ e ∈ findings turns, e.severity? = some .warning
  files : (total turns).files = files.length
  errors : (total turns).errors = (findings turns).countP (·.severity? = some .error) +
    (findings turns).countP Event.isMalformed + (findings turns).countP Event.isFailure
  warnings : (total turns).warnings = (findings turns).countP (·.severity? = some .warning)
  changes : ∀ t ∈ turns, t.after ≠ t.before → s.check = false ∧ ∃ c, t.Compiles fs s c
  check : s.check = true → endState d turns = d

theorem Settings.outcome_exitCode (reports : List FileReport) (milliseconds : Nat) :
    (s.outcome reports milliseconds).exitCode = 1 ↔ 0 < (Tally.ofReports reports).errors ∨
      s.failOnWarning = true ∧ 0 < (Tally.ofReports reports).warnings := by
  have code : (s.outcome reports milliseconds).exitCode =
      if (Tally.ofReports reports).failed s.failOnWarning then 1 else 0 := rfl
  rw [code]
  split
  · rename_i failed
    simpa [Tally.failed] using failed
  · rename_i passed
    simpa [Tally.failed] using passed

variable [fs.Steady]

theorem Settings.turns_check (check : s.check = true) (files : List Path) (d : σ) :
    endState d (s.turns fs files d) = d := by
  induction files with
  | nil => rfl
  | cons path files ih =>
    have same : ((s.compileFile fs path).run d).2 = d := by
      refine Classical.byContradiction fun changed => ?_
      have writes := ((s.compileFile_processes fs path d).unchanged changed).1
      simp [check] at writes
    show endState ((s.compileFile fs path).run d).2 (s.turns fs files ((s.compileFile fs path).run d).2) = d
    rw [same, ih]

theorem Settings.turns_accounted (files : List Path) (d : σ) (milliseconds : Nat) :
    Accounted fs s d files (s.turns fs files d) milliseconds
      (s.outcome ((s.turns fs files d).map Turn.report) milliseconds) where
  paths := s.turns_path fs files d
  out := rfl
  err := List.suffix_append _ _
  exitCode := by
    show (if _ then 1 else 0) = 0 ∨ (if _ then 1 else 0) = 1
    split <;> simp
  fails := by
    have each : ∀ t ∈ s.turns fs files d, 0 < t.report.tally.errors ↔ t.Fails fs s := fun t mem =>
      (s.turns_processed fs files d t mem).errors_pos
    rw [Settings.outcome_exitCode, Tally.errors_pos, Tally.warnings_ofReports, List.countP_pos_iff]
    simp only [decide_eq_true_eq]
    refine or_congr_left ⟨?_, ?_⟩
    · rintro ⟨r, mem, errors⟩
      obtain ⟨t, here, rfl⟩ := List.mem_map.1 mem
      exact ⟨t, here, (each t here).1 errors⟩
    · rintro ⟨t, here, fails⟩
      exact ⟨t.report, List.mem_map_of_mem here, (each t here).2 fails⟩
  files := by
    have same := congrArg List.length (s.turns_path fs files d)
    rw [total, Tally.files_ofReports, List.length_map, ← same, List.length_map]
  errors := Tally.errors_ofReports _
  warnings := Tally.warnings_ofReports _
  changes t mem := (s.turns_processed fs files d t mem).unchanged
  check only := s.turns_check only files d

/-- A run whose roots are there accounts for every file it finds, and so does the command that it carries out. -/
theorem runOnce_accounted {d : σ} (there : ∀ root ∈ s.roots, ((fs.kind? root).run d).1 ≠ none) (milliseconds : Nat) :
    ∃ files outcome, (s.findFiles fs).run d = (.ok files, d) ∧
      (runOnce fs s (pure milliseconds)).run d = (.ok outcome, endState d (s.turns fs files d)) ∧
      Accounted fs s d files (s.turns fs files d) milliseconds outcome ∧
      ∀ workspace arguments parsed, Arguments.parse arguments = .ok parsed →
        (Settings.load fs workspace parsed).run d = (.ok s, d) →
          (run fs workspace (pure milliseconds) arguments).run d = (outcome, endState d (s.turns fs files d)) := by
  obtain ⟨files, found, ran⟩ := runOnce_turns fs there milliseconds
  refine ⟨files, _, found, ran, s.turns_accounted files d milliseconds,
    fun workspace arguments parsed parses loads => ?_⟩
  unfold run
  rw [parses]
  dsimp only
  rw [run_bind_of loads]
  dsimp only
  rw [run_bind_of ran]
  rfl

theorem runOnce_accounted_warnings :
    let s : Settings := ⟨⟨"/w"⟩, [⟨"/w"⟩, ⟨"/w/b.iron"⟩], none, Program.defaultRuntime, [], .json, false, true, false⟩
    let d : Disk := ⟨[(["w"], .directory), (["w", "a.iron"], .file (.text "p a\n")), (["w", "b.iron"], .file .binary)]⟩
    (∀ root ∈ s.roots, ((Disk.fileSystem.kind? root).run d).1 ≠ none) ∧
      ∃ files outcome, (s.findFiles Disk.fileSystem).run d = (.ok files, d) ∧
        (runOnce Disk.fileSystem s (pure 5)).run d = (.ok outcome, endState d (s.turns Disk.fileSystem files d)) ∧
        Accounted Disk.fileSystem s d files (s.turns Disk.fileSystem files d) 5 outcome := by
  intro s d
  have there : ∀ root ∈ s.roots, ((Disk.fileSystem.kind? root).run d).1 ≠ none := by decide +kernel
  obtain ⟨files, outcome, found, ran, accounted, -⟩ := runOnce_accounted there 5
  exact ⟨there, files, outcome, found, ran, accounted⟩

end Command

end ComponentCompiler
