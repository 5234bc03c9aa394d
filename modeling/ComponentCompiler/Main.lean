import ComponentCompiler.Command.Run

/-!
# The command line program

The operations of a run on real files, and the loop that watches them.
-/

namespace ComponentCompiler

open Command Files

def fileErrorOf : IO.Error → FileError
  | .noFileOrDirectory .. => .notFound
  | .alreadyExists .. => .alreadyExists
  | .permissionDenied _ code _ => .other s!"Permission denied (os error {code})"
  | .inappropriateType _ code _ =>
    if code = 20 then .notADirectory else if code = 21 then .isADirectory else .other s!"os error {code}"
  | e => .other (toString e)

def attempt (action : IO α) : IO (Except FileError α) := do
  try
    return .ok (← action)
  catch e =>
    return .error (fileErrorOf e)

def realFiles : IO (FileSystem IO) := do
  let here ← IO.currentDir
  return {
    kind? := fun path => do
      match ← attempt (here / path.text).metadata with
      | .ok data =>
        match data.type with
        | .dir => return some .directory
        | .file => return some .file
        | _ => return none
      | .error _ => return none
    names := fun path => do
      match ← attempt (here / path.text).readDir with
      | .ok entries => return entries.toList.map (·.fileName)
      | .error _ => return []
    readText := fun path => do
      match ← attempt (IO.FS.readBinFile (here / path.text)) with
      | .ok bytes =>
        match String.fromUTF8? bytes with
        | some text => return .ok text
        | none => return .error .notText
      | .error e => return .error e
    makeDirectory := fun path => attempt (IO.FS.createDir (here / path.text))
    writeText := fun path text => attempt (IO.FS.writeFile (here / path.text) text) }

def present (outcome : Outcome) : IO Unit := do
  outcome.out.forM fun line => IO.println line
  outcome.err.forM fun line => IO.eprintln line

def changeTimes (fs : FileSystem IO) (s : Settings) : IO (List (String × Int × UInt32)) := do
  match ← s.findFiles fs with
  | .error _ => return []
  | .ok files =>
    let here ← IO.currentDir
    files.filterMapM fun path => do
      match ← attempt (here / path.text).metadata with
      | .ok data => return some (path.text, data.modified.sec, data.modified.nsec)
      | .error _ => return none

def watchPause : UInt32 := 200

partial def watchFiles (fs : FileSystem IO) (s : Settings) (times : List (String × Int × UInt32)) :
    IO Unit := do
  let start ← IO.monoMsNow
  match ← runOnce fs s (return (← IO.monoMsNow) - start) with
  | .error e => present e.outcome
  | .ok outcome => present outcome
  let rec await : IO (List (String × Int × UInt32)) := do
    IO.sleep watchPause
    let now ← changeTimes fs s
    if now = times then await else return now
  watchFiles fs s (← await)

end ComponentCompiler

open ComponentCompiler Command Files in
/-- Exits with 0 on success, 1 on failure and 2 for wrong arguments. -/
def main (arguments : List String) : IO UInt32 := do
  let fs ← realFiles
  let workspace : Path := ⟨toString (← IO.currentDir)⟩
  match Arguments.parse arguments with
  | .ok parsed =>
    if parsed.watch then
      match ← Settings.load fs workspace parsed with
      | .ok settings => watchFiles fs settings (← changeTimes fs settings)
      | .error _ => pure ()
  | .error _ => pure ()
  let start ← IO.monoMsNow
  let outcome ← run fs workspace (return (← IO.monoMsNow) - start) arguments
  present outcome
  return outcome.exitCode.toUInt32
