import ComponentCompiler.Command.Arguments
import ComponentCompiler.Files.FileSystem
import ComponentCompiler.Files.Glob
import ComponentCompiler.Program.Module
import ComponentCompiler.Text.Json

/-!
# Settings of a run

Settings come from the arguments and from a configuration file in the workspace; where both say
something the arguments win.
-/

namespace ComponentCompiler.Command

open Files Text

def componentExtension : String := "iron"

def configName : String := "wolfc.json"

def alwaysIgnored : List String := ["**/node_modules/**", "**/.git/**", "**/dist/**"]

structure FileConfig where
  outDir : Option String := none
  runtimeModule : Option String := none
  ignore : List String := []
  failOnWarning : Bool := false
  deriving DecidableEq, Repr

inductive ConfigField where
  | outDir
  | runtimeModule
  | ignore
  | failOnWarning
  deriving DecidableEq, Repr

namespace ConfigField

/-- In the order of a configuration that is written as an array. -/
def all : List ConfigField := [.outDir, .runtimeModule, .ignore, .failOnWarning]

def key : ConfigField → String
  | .outDir => "outDir"
  | .runtimeModule => "runtimeModule"
  | .ignore => "ignore"
  | .failOnWarning => "failOnWarning"

def ofKey? (key : String) : Option ConfigField := all.find? fun f => f.key = key

end ConfigField

inductive ConfigError where
  | notJson
  | unknownField (key : String)
  | repeatedField (field : ConfigField)
  | wrongType (field : ConfigField)
  | tooManyItems
  | notAnObject
  deriving DecidableEq, Repr

def ConfigError.message : ConfigError → String
  | .notJson => "the text is not one JSON value"
  | .unknownField key => s!"unknown field `{key}`"
  | .repeatedField field => s!"duplicate field `{field.key}`"
  | .wrongType field => s!"invalid type for `{field.key}`"
  | .tooManyItems => "trailing characters"
  | .notAnObject => "invalid type, expected an object"

namespace FileConfig

def optionalText? : Json → Option (Option String)
  | .null => some none
  | .string text => some (some text)
  | _ => none

def text? : Json → Option String
  | .string text => some text
  | _ => none

def texts? : Json → Option (List String)
  | .array items => items.mapM text?
  | _ => none

def bool? : Json → Option Bool
  | .bool b => some b
  | _ => none

def set? (c : FileConfig) (value : Json) : ConfigField → Option FileConfig
  | .outDir => (optionalText? value).map fun v => { c with outDir := v }
  | .runtimeModule => (optionalText? value).map fun v => { c with runtimeModule := v }
  | .ignore => (texts? value).map fun v => { c with ignore := v }
  | .failOnWarning => (bool? value).map fun v => { c with failOnWarning := v }

def set (c : FileConfig) (field : ConfigField) (value : Json) : Except ConfigError FileConfig :=
  match c.set? value field with
  | some c => .ok c
  | none => .error (.wrongType field)

/-- Takes members in order; `seen` lists the fields set before. -/
def ofMembers (c : FileConfig) (seen : List ConfigField) :
    List (String × Json) → Except ConfigError FileConfig
  | [] => .ok c
  | (key, value) :: members => do
    match ConfigField.ofKey? key with
    | none => throw (.unknownField key)
    | some field =>
      if seen.contains field then throw (.repeatedField field)
      let c ← c.set field value
      c.ofMembers (field :: seen) members

def ofItems (c : FileConfig) : List ConfigField → List Json → Except ConfigError FileConfig
  | _, [] => .ok c
  | [], _ :: _ => .error .tooManyItems
  | field :: fields, value :: values => do
    let c ← c.set field value
    c.ofItems fields values

def parse (text : String) : Except ConfigError FileConfig :=
  match Json.parse? text with
  | none => .error .notJson
  | some (.object members) => ofMembers {} [] members
  | some (.array items) => ofItems {} ConfigField.all items
  | some _ => .error .notAnObject

end FileConfig

structure Settings where
  workspace : Path
  roots : List Path
  /-- Where results go when they do not stand beside their sources. -/
  outDir : Option Path
  runtime : String
  ignore : List Glob
  output : OutputFormat
  check : Bool
  failOnWarning : Bool
  verbose : Bool

inductive SetupError where
  | unreadable (path : Path) (error : FileError)
  | badConfig (path : Path) (error : ConfigError)
  | badPattern (pattern : String) (error : GlobError)
  | missing (path : Path)
  deriving DecidableEq, Repr

def SetupError.message : SetupError → String
  | .unreadable path error => s!"failed to read {path.text}: {error.message}"
  | .badConfig path error => s!"invalid configuration in {path.text}: {error.message}"
  | .badPattern pattern error =>
    s!"invalid ignore pattern: error parsing glob '{pattern}': {error.message}"
  | .missing path => s!"no such file or directory: {path.text}"

namespace Settings

def parsePattern (pattern : String) : Except SetupError Glob :=
  match Glob.parse pattern with
  | .ok glob => .ok glob
  | .error e => .error (.badPattern pattern e)

def merge (workspace : Path) (arguments : Arguments) (config : FileConfig) :
    Except SetupError Settings := do
  let ignore ← (alwaysIgnored ++ config.ignore ++ arguments.ignore).mapM parsePattern
  let roots :=
    if arguments.paths.isEmpty then [workspace]
    else arguments.paths.map fun path => workspace.join ⟨path⟩
  return {
    workspace, roots, ignore
    outDir := (arguments.outDir <|> config.outDir).map fun dir => workspace.join ⟨dir⟩
    runtime := (arguments.runtimeModule <|> config.runtimeModule).getD Program.defaultRuntime
    output := arguments.output
    check := arguments.check
    failOnWarning := arguments.failOnWarning || config.failOnWarning
    verbose := arguments.verbose }

def includes (s : Settings) (path : Path) : Bool :=
  path.extension? = some componentExtension && !s.ignore.any fun glob => glob.accepts path.text

/-- Where the result for a source goes. Under an output directory sources keep their place in the
workspace; those from outside lose their directories. -/
def target (s : Settings) (source : Path) (extension : String) : Path :=
  let beside := source.withExtension extension
  match s.outDir with
  | none => beside
  | some dir => dir.join ((beside.relativeTo? s.workspace).getD ⟨beside.fileName?.getD ""⟩)

section

variable {m : Type → Type} [Monad m] (fs : FileSystem m)

/-- The configuration file to read: the given one, or the usual one if it is there. -/
def configPath? (workspace : Path) (arguments : Arguments) : m (Option Path) := do
  match arguments.config with
  | some path => return some (workspace.join ⟨path⟩)
  | none =>
    let path := workspace.join ⟨configName⟩
    return if (← fs.kind? path) = some .file then some path else none

def readConfig (path : Path) : m (Except SetupError FileConfig) := do
  match ← fs.readText path with
  | .error e => return .error (.unreadable path e)
  | .ok text =>
    match FileConfig.parse text with
    | .error e => return .error (.badConfig path e)
    | .ok config => return .ok config

def load (workspace : Path) (arguments : Arguments) : m (Except SetupError Settings) := do
  match ← configPath? fs workspace arguments with
  | none => return merge workspace arguments {}
  | some path => return (← readConfig fs path).bind (merge workspace arguments)

end

end Settings

end ComponentCompiler.Command
