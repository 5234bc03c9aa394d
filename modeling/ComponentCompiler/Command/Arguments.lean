/-!
# Command-line arguments

Options are spelled `--name value`, `--name=value`, `-n value`, `-nvalue` or `-n=value`; flags take no
value, and their letters can be put together. All else is a path, and so is everything after `--`.
Arguments are read from left to right, and the first one that asks for help, asks for the version or
is wrong decides.
-/

namespace ComponentCompiler.Command

inductive OutputFormat where
  /-- For people, on standard error. -/
  | human
  /-- One object per line, on standard output. -/
  | json
  deriving DecidableEq, Repr

def OutputFormat.ofName? : String → Option OutputFormat
  | "human" => some .human
  | "json" => some .json
  | _ => none

inductive Switch where
  | outDir
  | runtimeModule
  | config
  | ignore
  | output
  | check
  | watch
  | failOnWarning
  | verbose
  | help
  | version
  deriving DecidableEq, Repr

namespace Switch

def all : List Switch :=
  [.outDir, .runtimeModule, .config, .ignore, .output, .check, .watch, .failOnWarning, .verbose,
    .help, .version]

def long : Switch → String
  | .outDir => "out-dir"
  | .runtimeModule => "runtime-module"
  | .config => "config"
  | .ignore => "ignore"
  | .output => "output"
  | .check => "check"
  | .watch => "watch"
  | .failOnWarning => "fail-on-warning"
  | .verbose => "verbose"
  | .help => "help"
  | .version => "version"

def short? : Switch → Option Char
  | .outDir => some 'o'
  | .config => some 'c'
  | .watch => some 'w'
  | .verbose => some 'v'
  | .help => some 'h'
  | .version => some 'V'
  | .runtimeModule | .ignore | .output | .check | .failOnWarning => none

def ofLong? (name : String) : Option Switch := all.find? fun s => s.long = name

def ofShort? (c : Char) : Option Switch := all.find? fun s => s.short? = some c

def value? : Switch → Option String
  | .outDir => some "OUT_DIR"
  | .runtimeModule => some "RUNTIME_MODULE"
  | .config => some "CONFIG"
  | .ignore => some "IGNORE"
  | .output => some "OUTPUT"
  | .check | .watch | .failOnWarning | .verbose | .help | .version => none

def takesValue (s : Switch) : Bool := s.value?.isSome

def takesPath : Switch → Bool
  | .outDir | .config => true
  | _ => false

def spelling (s : Switch) : String :=
  match s.value? with
  | some value => s!"--{s.long} <{value}>"
  | none => s!"--{s.long}"

end Switch

structure Arguments where
  paths : List String := []
  outDir : Option String := none
  runtimeModule : Option String := none
  config : Option String := none
  ignore : List String := []
  output : OutputFormat := .human
  check : Bool := false
  watch : Bool := false
  failOnWarning : Bool := false
  verbose : Bool := false
  deriving DecidableEq, Repr

inductive ArgumentError where
  | unknown (argument : String)
  | missingValue (option : Switch)
  | needlessValue (flag : Switch) (value : String)
  | emptyValue (name : String)
  | invalidValue (option : Switch) (value : String)
  | repeated (option : Switch)
  deriving DecidableEq, Repr

def ArgumentError.message : ArgumentError → String
  | .unknown argument => s!"unexpected argument '{argument}' found"
  | .missingValue option =>
    s!"a value is required for '{option.spelling}' but none was supplied"
  | .needlessValue flag value =>
    s!"unexpected value '{value}' for '{flag.spelling}' found; no more were expected"
  | .emptyValue name => s!"a value is required for '{name}' but none was supplied"
  | .invalidValue option value => s!"invalid value '{value}' for '{option.spelling}'"
  | .repeated option =>
    s!"the argument '{option.spelling}' cannot be used multiple times"

inductive Stop where
  | invalid (error : ArgumentError)
  | version
  /-- The short form of the help has fewer words. -/
  | help (full : Bool)
  deriving DecidableEq, Repr

structure ArgumentReader where
  arguments : Arguments := {}
  seen : List Switch := []

namespace ArgumentReader

/-- Only patterns to ignore can be given more than once. -/
def see (r : ArgumentReader) (s : Switch) : Except Stop ArgumentReader :=
  if s ≠ .ignore && r.seen.contains s then .error (.invalid (.repeated s))
  else .ok { r with seen := s :: r.seen }

def addPath (r : ArgumentReader) (path : String) : Except Stop ArgumentReader :=
  if path = "" then .error (.invalid (.emptyValue "[PATHS]..."))
  else .ok { r with arguments := { r.arguments with paths := r.arguments.paths ++ [path] } }

def addPaths (r : ArgumentReader) (paths : List String) : Except Stop ArgumentReader :=
  paths.foldlM addPath r

def setOutput (arguments : Arguments) (value : String) : Except Stop Arguments :=
  match OutputFormat.ofName? value with
  | some format => .ok { arguments with output := format }
  | none => .error (.invalid (.invalidValue .output value))

def setValue (r : ArgumentReader) (s : Switch) (value : String) : Except Stop ArgumentReader := do
  let r ← r.see s
  if s.takesPath && value = "" then throw (.invalid (.emptyValue s.spelling))
  let a := r.arguments
  let changed ← match s with
    | .outDir => pure { a with outDir := some value }
    | .runtimeModule => pure { a with runtimeModule := some value }
    | .config => pure { a with config := some value }
    | .ignore => pure { a with ignore := a.ignore ++ [value] }
    | .output => setOutput a value
    | .check | .watch | .failOnWarning | .verbose | .help | .version =>
      throw (.invalid (.needlessValue s value))
  return { r with arguments := changed }

def raise (r : ArgumentReader) (s : Switch) (full : Bool) : Except Stop ArgumentReader := do
  let r ← r.see s
  let a := r.arguments
  let changed ← match s with
    | .check => pure { a with check := true }
    | .watch => pure { a with watch := true }
    | .failOnWarning => pure { a with failOnWarning := true }
    | .verbose => pure { a with verbose := true }
    | .help => throw (.help full)
    | .version => throw .version
    | .outDir | .runtimeModule | .config | .ignore | .output =>
      throw (.invalid (.missingValue s))
  return { r with arguments := changed }

/-- Reads an argument behind its two hyphens. An option without a value is left waiting for it. -/
def readLong (r : ArgumentReader) (body : List Char) :
    Except Stop (ArgumentReader × Option Switch) := do
  let name := String.ofList (body.takeWhile (· ≠ '='))
  let value? := (body.dropWhile (· ≠ '=')).tail?.map String.ofList
  match Switch.ofLong? name with
  | none => throw (.invalid (.unknown ("--" ++ String.ofList body)))
  | some s =>
    match s.takesValue, value? with
    | true, some value => return (← r.setValue s value, none)
    | true, none => return (r, some s)
    | false, some value => throw (.invalid (.needlessValue s value))
    | false, none => return (← r.raise s true, none)

def readLetters (r : ArgumentReader) : List Char → Except Stop (ArgumentReader × Option Switch)
  | [] => .ok (r, none)
  | c :: rest =>
    match Switch.ofShort? c with
    | none => .error (.invalid (.unknown (String.ofList ['-', c])))
    | some s =>
      if s.takesValue then
        match rest with
        | [] => .ok (r, some s)
        | '=' :: value => (r.setValue s (String.ofList value)).map fun r => (r, none)
        | value => (r.setValue s (String.ofList value)).map fun r => (r, none)
      else
        match r.raise s false with
        | .ok r => r.readLetters rest
        | .error stop => .error stop

/-- Reads arguments; `waiting` is the option that the next one gives a value to. -/
def read (r : ArgumentReader) (waiting : Option Switch) : List String → Except Stop Arguments
  | [] =>
    match waiting with
    | some s => .error (.invalid (.missingValue s))
    | none => .ok r.arguments
  | argument :: rest =>
    match argument.toList, waiting with
    | '-' :: _ :: _, some s => .error (.invalid (.missingValue s))
    | ['-', '-'], none => (r.addPaths rest).map (·.arguments)
    | '-' :: '-' :: body, none => do
      let (r, waiting) ← r.readLong body
      r.read waiting rest
    | '-' :: c :: letters, none => do
      let (r, waiting) ← r.readLetters (c :: letters)
      r.read waiting rest
    | _, some s => do
      let r ← r.setValue s argument
      r.read none rest
    | _, none => do
      let r ← r.addPath argument
      r.read none rest

end ArgumentReader

def Arguments.parse (arguments : List String) : Except Stop Arguments :=
  ArgumentReader.read {} none arguments

end ComponentCompiler.Command
