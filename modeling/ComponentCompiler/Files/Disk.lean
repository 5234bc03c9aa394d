import ComponentCompiler.Files.FileSystem

/-!
# Disks

A `Disk` is a tree of files in memory, kept as a list of what stands at each location. It has no
links, so a location is the list of names that lead to it from the root, which is always a directory.
-/

namespace ComponentCompiler.Files

inductive Content where
  | text (text : String)
  | binary
  deriving DecidableEq, Repr

inductive Entry where
  | directory
  | file (content : Content)
  deriving DecidableEq, Repr

def Entry.kind : Entry → FileKind
  | .directory => .directory
  | .file _ => .file

abbrev Location := List String

structure Disk where
  /-- Every location but the root at most once. -/
  entries : List (Location × Entry) := []
  deriving Repr

namespace Disk

def entry? (d : Disk) (location : Location) : Option Entry :=
  if location = [] then some .directory
  else (d.entries.find? fun e => e.1 = location).map (·.2)

def put (d : Disk) (location : Location) (entry : Entry) : Disk :=
  if d.entries.any fun e => e.1 = location then
    ⟨d.entries.map fun e => if e.1 = location then (location, entry) else e⟩
  else ⟨d.entries ++ [(location, entry)]⟩

/-- Puts a file or directory, and directories above it where there is nothing. -/
def place (d : Disk) (location : Location) (entry : Entry) : Disk :=
  let above := (List.range location.length).map location.take
  let d := above.foldl (fun d l => if (d.entry? l).isSome then d else d.put l .directory) d
  d.put location entry

/-- Follows segments from a location; all that is left behind must be a directory, and nothing has to
stand at the end. -/
def follow (d : Disk) : Location → List String → Except FileError Location
  | here, [] => .ok here
  | here, s :: rest =>
    match d.entry? here with
    | none => .error .notFound
    | some (.file _) => .error .notADirectory
    | some .directory =>
      if isIdle s then d.follow here rest
      else if s = parentSegment then d.follow here.dropLast rest
      else d.follow (here ++ [s]) rest

def resolve (d : Disk) (path : Path) : Except FileError Location :=
  if path.text.toList.contains '\x00' then .error .badName
  else d.follow [] path.segments

def kind? (d : Disk) (path : Path) : Option FileKind :=
  match d.resolve path with
  | .ok location => (d.entry? location).map Entry.kind
  | .error _ => none

def nameIn? (directory location : Location) : Option String :=
  if location.dropLast = directory then location.getLast? else none

def names (d : Disk) (path : Path) : List String :=
  match d.resolve path with
  | .ok location => d.entries.filterMap fun e => nameIn? location e.1
  | .error _ => []

def readText (d : Disk) (path : Path) : Except FileError String := do
  match d.entry? (← d.resolve path) with
  | none => throw .notFound
  | some .directory => throw .isADirectory
  | some (.file .binary) => throw .notText
  | some (.file (.text text)) => return text

def makeDirectory (d : Disk) (path : Path) : Except FileError Disk := do
  let location ← d.resolve path
  match d.entry? location with
  | some _ => throw .alreadyExists
  | none => return d.put location .directory

def writeText (d : Disk) (path : Path) (text : String) : Except FileError Disk := do
  let location ← d.resolve path
  match d.entry? location with
  | some .directory => throw .isADirectory
  | _ => return d.put location (.file (.text text))

def change (operation : Disk → Except FileError Disk) : StateM Disk (Except FileError Unit) :=
  fun d =>
    match operation d with
    | .ok changed => (.ok (), changed)
    | .error e => (.error e, d)

def fileSystem : FileSystem (StateM Disk) where
  kind? path := return (← get).kind? path
  names path := return (← get).names path
  readText path := return (← get).readText path
  makeDirectory path := change (·.makeDirectory path)
  writeText path text := change (·.writeText path text)

/-- The text files of `later` that `d` does not have with the same content. -/
def changedFiles (d later : Disk) : List (Location × String) :=
  later.entries.filterMap fun
    | (location, .file (.text text)) =>
      if d.entry? location = some (.file (.text text)) then none else some (location, text)
    | _ => none

end Disk

end ComponentCompiler.Files
