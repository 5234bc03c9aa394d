import ComponentCompiler.Command.Run
import ComponentCompiler.Proofs.Files.FileSystem

/-!
# Turns of a run

A run is made of the turns of the files it has found.
-/

namespace ComponentCompiler

namespace Command

open Files

variable {σ : Type}

def Settings.options (s : Settings) (path : Path) : CompileOptions := { filename := path.text, runtime := s.runtime }

section

variable (fs : FileSystem (StateM σ))

/-- What can come of the turn of a component file that begins in the state `d`: a report, and the state it ends in. -/
inductive Settings.Processes (s : Settings) (path : Path) (d : σ) : FileReport → σ → Prop
  | unreadable {e : FileError} (read : ((fs.readText path).run d).1 = .error e) :
      s.Processes path d (.failed path (.unreadable path e)) d
  | malformed {text name : String} {fault : Template.ParseError} {log : Log}
      (read : ((fs.readText path).run d).1 = .ok text)
      (refused : compile text (s.options path) = .error (.malformed name fault log)) :
      s.Processes path d (.compiled ⟨path, text⟩ log (some fault) 0) d
  | invalid {text name : String} {log : Log} (read : ((fs.readText path).run d).1 = .ok text)
      (refused : compile text (s.options path) = .error (.invalid name log)) :
      s.Processes path d (.compiled ⟨path, text⟩ log none 0) d
  | notLowered {text : String} {e : Program.LoweringError} (read : ((fs.readText path).run d).1 = .ok text)
      (refused : compile text (s.options path) = .error (.lowering e)) :
      s.Processes path d (.failed path (.notLowered path e)) d
  | checked {text : String} {c : Compiled} (read : ((fs.readText path).run d).1 = .ok text)
      (compiled : compile text (s.options path) = .ok c) (check : s.check = true) :
      s.Processes path d (.compiled ⟨path, text⟩ c.log none 0) d
  | written {text : String} {c : Compiled} {d' : σ} (read : ((fs.readText path).run d).1 = .ok text)
      (compiled : compile text (s.options path) = .ok c) (check : s.check = false)
      (wrote : (writeAll fs (s.results path c)).run d = (.ok (), d')) :
      s.Processes path d (.compiled ⟨path, text⟩ c.log none (s.results path c).length) d'
  | unwritten {text : String} {c : Compiled} {failure : FileFailure} {d' : σ}
      (read : ((fs.readText path).run d).1 = .ok text)
      (compiled : compile text (s.options path) = .ok c) (check : s.check = false)
      (wrote : (writeAll fs (s.results path c)).run d = (.error failure, d')) :
      s.Processes path d (.failed path failure) d'

structure Turn (σ : Type) where
  path : Path
  before : σ
  report : FileReport
  after : σ

def Settings.turns (s : Settings) : List Path → σ → List (Turn σ)
  | [], _ => []
  | path :: paths, d =>
    let (report, d') := (s.compileFile fs path).run d
    ⟨path, d, report, d'⟩ :: s.turns paths d'

def endState (d : σ) (turns : List (Turn σ)) : σ := turns.foldl (fun _ t => t.after) d

theorem Settings.turns_path (s : Settings) (paths : List Path) (d : σ) :
    (s.turns fs paths d).map Turn.path = paths := by
  induction paths generalizing d with
  | nil => rfl
  | cons path paths ih => exact congrArg (path :: ·) (ih _)

theorem Settings.mapM_compileFile (s : Settings) (paths : List Path) (d : σ) :
    (paths.mapM (s.compileFile fs)).run d =
      ((s.turns fs paths d).map Turn.report, endState d (s.turns fs paths d)) := by
  induction paths generalizing d with
  | nil => rfl
  | cons path paths ih =>
    cases ran : (s.compileFile fs path).run d with
    | mk report d' =>
      rw [List.mapM_cons, run_bind_of ran, run_bind_of (ih d')]
      simp only [Settings.turns, ran]
      rfl

section

variable [fs.Steady]

theorem Settings.compileFile_processes (s : Settings) (path : Path) (d : σ) :
    s.Processes fs path d ((s.compileFile fs path).run d).1 ((s.compileFile fs path).run d).2 := by
  unfold Settings.compileFile
  rw [(FileSystem.Steady.readText path).run_bind]
  cases read : ((fs.readText path).run d).1 with
  | error e => exact .unreadable read
  | ok text =>
    dsimp only
    cases outcome : compile text { filename := path.text, runtime := s.runtime } with
    | error e =>
      cases e with
      | malformed name fault log => exact .malformed read outcome
      | invalid name log => exact .invalid read outcome
      | lowering e => exact .notLowered read outcome
    | ok c =>
      cases check : s.check with
      | true => exact .checked read outcome check
      | false =>
        simp only [Bool.false_eq_true, if_false]
        cases wrote : (writeAll fs (s.results path c)).run d with
        | mk result d' =>
          rw [run_bind_of wrote]
          cases result with
          | ok done => exact .written read outcome check wrote
          | error failure => exact .unwritten read outcome check wrote

theorem Settings.turns_processed (s : Settings) (paths : List Path) (d : σ) :
    ∀ t ∈ s.turns fs paths d, s.Processes fs t.path t.before t.report t.after := by
  induction paths generalizing d with
  | nil => simp [Settings.turns]
  | cons path paths ih => exact List.forall_mem_cons.2 ⟨s.compileFile_processes fs path d, ih _⟩

theorem Settings.filesOf?_still (s : Settings) (root : Path) : Still (s.filesOf? fs root) := by
  unfold Settings.filesOf?
  refine (FileSystem.Steady.kind? root).bind fun kind => ?_
  split
  · exact .pure _
  · exact .pure _
  · exact (fs.filesUnder_still _ _).bind fun _ => .pure _

theorem Settings.filesOf?_isSome {s : Settings} {root d} (there : ((fs.kind? root).run d).1 ≠ none) :
    ∃ files, (s.filesOf? fs root).run d = (some files, d) := by
  rw [(s.filesOf?_still fs root).run_eq]
  unfold Settings.filesOf?
  rw [(FileSystem.Steady.kind? root).run_bind]
  cases found : ((fs.kind? root).run d).1 with
  | none => exact absurd found there
  | some kind =>
    cases kind with
    | file => exact ⟨_, rfl⟩
    | directory =>
      dsimp only
      rw [(fs.filesUnder_still _ _).run_bind]
      exact ⟨_, rfl⟩

theorem Settings.collect_ok {s roots d} (there : ∀ root ∈ roots, ((fs.kind? root).run d).1 ≠ none) :
    ∃ files, (Settings.findFiles.collect fs s roots).run d = (.ok files, d) := by
  induction roots with
  | nil => exact ⟨[], rfl⟩
  | cons root roots ih =>
    obtain ⟨here, others⟩ := List.forall_mem_cons.1 there
    obtain ⟨files, found⟩ := s.filesOf?_isSome fs here
    obtain ⟨more, rest⟩ := ih others
    refine ⟨files ++ more, ?_⟩
    unfold Settings.findFiles.collect
    rw [run_bind_of found]
    dsimp only
    rw [run_bind_of rest]
    rfl

theorem runOnce_turns {s d} (there : ∀ root ∈ s.roots, ((fs.kind? root).run d).1 ≠ none) (milliseconds : Nat) :
    ∃ files, (s.findFiles fs).run d = (.ok files, d) ∧
      (runOnce fs s (pure milliseconds)).run d =
        (.ok (s.outcome ((s.turns fs files d).map Turn.report) milliseconds), endState d (s.turns fs files d)) := by
  obtain ⟨collected, found⟩ := s.collect_ok fs there
  have files : (s.findFiles fs).run d = (.ok (Path.sortDistinct collected), d) := by
    unfold Settings.findFiles
    rw [run_bind_of found]
    rfl
  refine ⟨_, files, ?_⟩
  unfold runOnce
  rw [run_bind_of files]
  dsimp only
  rw [run_bind_of (s.mapM_compileFile fs _ d)]
  rfl

end

end

end Command

end ComponentCompiler
