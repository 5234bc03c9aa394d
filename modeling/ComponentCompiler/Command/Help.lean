import ComponentCompiler.Command.Arguments

/-!
# Help and version texts
-/

namespace ComponentCompiler.Command

def versionLine : String := "wolfc 0.1.0"

def about : String := "Compile wolf component files into TypeScript modules"

def usage : String := "Usage: wolfc [OPTIONS] [PATHS]..."

namespace Switch

def purpose : Switch → String
  | .outDir => "Directory to write generated files to, laid out like the sources"
  | .runtimeModule => "Module generated code imports runtime helpers from"
  | .config => "Path to wolfc.json"
  | .ignore => "Ignore patterns (glob)"
  | .output => "Output format"
  | .check => "Report diagnostics without writing any files"
  | .watch => "Recompile when component files change"
  | .failOnWarning => "Fail on warnings"
  | .verbose => "Verbose output"
  | .help => "Print help"
  | .version => "Print version"

def heading (s : Switch) : String :=
  match s.short? with
  | some c => "  -" ++ String.ofList [c] ++ ", " ++ s.spelling
  | none => "      " ++ s.spelling

def details (s : Switch) (full : Bool) : List String :=
  match s, full with
  | .output, true =>
    [s.purpose, "", "Possible values:", "- human: Graphical reports with source excerpts",
      "- json:  One JSON object per line", "", "[default: human]"]
  | .output, false => [s.purpose ++ " [default: human] [possible values: human, json]"]
  | .help, true => [s.purpose ++ " (see a summary with '-h')"]
  | .help, false => [s.purpose ++ " (see more with '--help')"]
  | _, _ => [s.purpose]

end Switch

def indented (line : String) : String := if line = "" then "" else "          " ++ line

def spaced : List (List String) → List String
  | [] => []
  | [group] => group
  | group :: groups => group ++ "" :: spaced groups

def pathsPurpose : String := "Files or directories to compile (defaults to the current directory)"

def helpLines (full : Bool) : List String :=
  let paths :=
    if full then ["  [PATHS]...", indented pathsPurpose] else ["  [PATHS]...  " ++ pathsPurpose]
  let switches := Switch.all.map fun s => s.heading :: (s.details full).map indented
  let options := if full then spaced switches else switches.flatten
  [about, "", usage, "", "Arguments:"] ++ paths ++ ["", "Options:"] ++ options

def ArgumentError.lines (e : ArgumentError) : List String :=
  ["error: " ++ e.message, "", usage, "", "For more information, try '--help'."]

end ComponentCompiler.Command
