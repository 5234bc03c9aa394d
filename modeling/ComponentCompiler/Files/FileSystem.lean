import ComponentCompiler.Files.Path

/-!
# File systems

A `FileSystem` offers the few operations that a run needs, in a monad of its own: a run over real
files and a run over a `Disk` in memory are the same function. Walking a tree and writing a file with
the directories above it are built from those operations here.
-/

namespace ComponentCompiler.Files

inductive FileError where
  | notFound
  | notADirectory
  | isADirectory
  | alreadyExists
  | notText
  | badName
  | other (message : String)
  deriving DecidableEq, Repr

def FileError.message : FileError → String
  | .notFound => "No such file or directory (os error 2)"
  | .notADirectory => "Not a directory (os error 20)"
  | .isADirectory => "Is a directory (os error 21)"
  | .alreadyExists => "File exists (os error 17)"
  | .notText => "stream did not contain valid UTF-8"
  | .badName => "file name contained an unexpected NUL byte"
  | .other message => message

inductive FileKind where
  | file
  | directory
  deriving DecidableEq, Repr

structure FileSystem (m : Type → Type) where
  kind? : Path → m (Option FileKind)
  names : Path → m (List String)
  readText : Path → m (Except FileError String)
  /-- Fails when the enclosing directory is missing or something stands there. -/
  makeDirectory : Path → m (Except FileError Unit)
  /-- Puts a file in an existing directory, or gives a file new content. -/
  writeText : Path → String → m (Except FileError Unit)

def isHidden (name : String) : Bool := name.toList.head? = some '.'

namespace FileSystem

variable {m : Type → Type} [Monad m] (fs : FileSystem m)

/-- Walks deeper than this are cut short: no path is that long. -/
def depthLimit : Nat := 4096

/-- The files under a directory down to `depth` levels, hidden names and all under them left out. -/
def filesUnder : Nat → Path → m (List Path)
  | 0, _ => pure []
  | depth + 1, root => do
    let found ← (← fs.names root).mapM fun name => do
      if isHidden name then return []
      let path := root.join ⟨name⟩
      match ← fs.kind? path with
      | some .file => return [path]
      | some .directory => filesUnder depth path
      | none => return []
    return found.flatten

/-- A directory that is there already is as good as a new one. -/
def orPresent (path : Path) (made : Except FileError Unit) : m (Except FileError Unit) := do
  match made with
  | .ok () => return .ok ()
  | .error e =>
    if (← fs.kind? path) = some .directory then return .ok () else return .error e

/-- Makes the directory whose parts are listed last one first, and those above it where they are
missing. -/
def makeDirectoriesUp : List String → m (Except FileError Unit)
  | [] => return .ok ()
  | part :: above => do
    let path : Path := ⟨"/" ++ String.intercalate "/" (part :: above).reverse⟩
    match ← fs.makeDirectory path with
    | .error .notFound =>
      match ← makeDirectoriesUp above with
      | .ok () => fs.orPresent path (← fs.makeDirectory path)
      | .error e => return .error e
    | made => fs.orPresent path made

def writeFile (path : Path) (text : String) : m (Except FileError Unit) := do
  match ← fs.makeDirectoriesUp path.parts.dropLast.reverse with
  | .ok () => fs.writeText path text
  | .error e => return .error e

end FileSystem

end ComponentCompiler.Files
