import ComponentCompiler.Command.Help
import ComponentCompiler.Command.Report
import ComponentCompiler.Command.Settings
import ComponentCompiler.Compile

/-!
# Runs

`run` takes the arguments of the command line to an exit code and lines of output: it finds the component
files, compiles each of them, writes the results and reports. It works over any `FileSystem`.
-/

namespace ComponentCompiler.Command

open Files

inductive FileFailure where
  | unreadable (path : Path) (error : FileError)
  | unwritable (path : Path) (error : FileError)
  | notLowered (path : Path) (error : Program.LoweringError)

def FileFailure.message : FileFailure → String
  | .unreadable path e => s!"failed to read {path.text}: {e.message}"
  | .unwritable path e => s!"failed to write {path.text}: {e.message}"
  | .notLowered path e => s!"code generation failed for {path.text}: {e.message}"

inductive FileReport where
  | failed (path : Path) (failure : FileFailure)
  | compiled (source : Source) (log : Log) (fault : Option Template.ParseError) (written : Nat)

namespace FileReport

def tally : FileReport → Tally
  | .failed _ _ => ⟨1, 0, 1, 0⟩
  | .compiled _ log fault written =>
    ⟨1, written, log.errorCount + fault.toList.length, log.warningCount⟩

def events : FileReport → List Event
  | .failed path failure => [.failure path failure.message]
  | .compiled source log fault _ =>
    log.map (.found source ·) ++ fault.toList.map (.malformed source ·)

end FileReport

def Tally.ofReports (reports : List FileReport) : Tally :=
  reports.foldl (fun t r => t.add r.tally) {}

/-- What is written for a compiled component: the module, and a style sheet if it has styles. -/
def Settings.results (s : Settings) (source : Path) (compiled : Compiled) : List (Path × String) :=
  let sheet :=
    if compiled.styles.isEmpty then []
    else [(s.target source "css", String.intercalate "\n" (compiled.styles.map (·.content)))]
  (s.target source "ts", compiled.code) :: sheet

structure Outcome where
  exitCode : Nat
  out : List String := []
  err : List String := []
  deriving DecidableEq, Repr

def Settings.outcome (s : Settings) (reports : List FileReport) (milliseconds : Nat) : Outcome :=
  let tally := Tally.ofReports reports
  let events := reports.flatMap FileReport.events ++ [.finished tally milliseconds]
  let lines := events.map (Event.lines s.output)
  let notice := if s.verbose then [s!"found {tally.files} component files"] else []
  { exitCode := if tally.failed s.failOnWarning then 1 else 0
    out := lines.flatMap (·.1)
    err := notice ++ lines.flatMap (·.2) }

section

variable {m : Type → Type} [Monad m] (fs : FileSystem m)

def writeAll : List (Path × String) → m (Except FileFailure Unit)
  | [] => return .ok ()
  | (path, text) :: results => do
    match ← fs.writeFile path text with
    | .ok () => writeAll results
    | .error e => return .error (.unwritable path e)

namespace Settings

variable (s : Settings)

def compileFile (path : Path) : m FileReport := do
  match ← fs.readText path with
  | .error e => return .failed path (.unreadable path e)
  | .ok text =>
    let source : Source := ⟨path, text⟩
    match compile text { filename := path.text, runtime := s.runtime } with
    | .error (.malformed _ fault log) => return .compiled source log (some fault) 0
    | .error (.invalid _ log) => return .compiled source log none 0
    | .error (.lowering e) => return .failed path (.notLowered path e)
    | .ok compiled =>
      if s.check then return .compiled source compiled.log none 0
      let results := s.results path compiled
      match ← writeAll fs results with
      | .ok () => return .compiled source compiled.log none results.length
      | .error failure => return .failed path failure

def filesOf? (root : Path) : m (Option (List Path)) := do
  match ← fs.kind? root with
  | none => return none
  | some .file => return some ([root].filter s.includes)
  | some .directory =>
    return some ((← fs.filesUnder FileSystem.depthLimit root).filter s.includes)

def findFiles : m (Except SetupError (List Path)) := do
  let rec collect : List Path → m (Except SetupError (List Path))
    | [] => return .ok []
    | root :: roots => do
      match ← s.filesOf? fs root with
      | none => return .error (.missing root)
      | some files => return (← collect roots).map (files ++ ·)
  return (← collect s.roots).map Path.sortDistinct

end Settings

/-- Compiles all component files once, one after the other in the order of their paths; files that are
compiled at the same time, with their reads and writes interleaved, are not modelled. `elapsed` tells the
time since the run began. -/
def runOnce (s : Settings) (elapsed : m Nat) : m (Except SetupError Outcome) := do
  match ← s.findFiles fs with
  | .error e => return .error e
  | .ok files =>
    let reports ← files.mapM (s.compileFile fs)
    return .ok (s.outcome reports (← elapsed))

def SetupError.outcome (e : SetupError) : Outcome := ⟨1, [], ["Error: " ++ e.message]⟩

def Stop.outcome : Stop → Outcome
  | .invalid e => ⟨2, [], e.lines⟩
  | .version => ⟨0, [versionLine], []⟩
  | .help full => ⟨0, helpLines full, []⟩

def run (workspace : Path) (elapsed : m Nat) (arguments : List String) : m Outcome := do
  match Arguments.parse arguments with
  | .error stop => return stop.outcome
  | .ok arguments =>
    match ← Settings.load fs workspace arguments with
    | .error e => return e.outcome
    | .ok settings =>
      match ← runOnce fs settings elapsed with
      | .error e => return e.outcome
      | .ok outcome => return outcome

end

end ComponentCompiler.Command
