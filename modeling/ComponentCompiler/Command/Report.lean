import ComponentCompiler.Command.Arguments
import ComponentCompiler.Diagnostic.Log
import ComponentCompiler.Files.Path
import ComponentCompiler.Position.LineTable
import ComponentCompiler.Template.ParseError
import ComponentCompiler.Text.Json

/-!
# Reports

A run is a sequence of events: what was found in each file, failures, and a summary at the end. In
JSON each event is a line of standard output, for people it is some lines of standard error.
-/

namespace ComponentCompiler.Command

open Files Text

structure Tally where
  files : Nat := 0
  written : Nat := 0
  errors : Nat := 0
  warnings : Nat := 0
  deriving DecidableEq, Repr

namespace Tally

def add (s t : Tally) : Tally :=
  ⟨s.files + t.files, s.written + t.written, s.errors + t.errors, s.warnings + t.warnings⟩

def failed (t : Tally) (failOnWarning : Bool) : Bool :=
  0 < t.errors || (failOnWarning && 0 < t.warnings)

end Tally

structure Source where
  path : Path
  text : String

inductive Event where
  | found (source : Source) (diagnostic : Diagnostic)
  | malformed (source : Source) (error : Template.ParseError)
  | failure (path : Path) (message : String)
  | finished (tally : Tally) (milliseconds : Nat)

def Source.display (s : Source) (span : Span) : Nat × Nat :=
  ((LineTable.ofText s.text).position span.start).display

namespace Event

def spanJson (source : Source) : Option Span → Json
  | none => .null
  | some span =>
    let (line, column) := source.display span
    .object [("column", .nat column), ("end", .nat span.stop), ("line", .nat line),
      ("start", .nat span.start)]

def diagnosticJson (source : Source) (severity : Severity) (code message : String)
    (notes : List String) (span : Option Span) : Json :=
  .object [("code", .string code), ("file", .string source.path.text),
    ("message", .string message), ("notes", .array (notes.map .string)),
    ("severity", .string severity.title), ("span", spanJson source span),
    ("type", .string "diagnostic")]

def json : Event → Json
  | .found source d =>
    diagnosticJson source d.severity d.rule.title d.headline d.notes d.region.span?
  | .malformed source e => diagnosticJson source .error e.title e.message [] (some e.span)
  | .failure path message =>
    .object [("file", .string path.text), ("message", .string message),
      ("type", .string "failure")]
  | .finished t milliseconds =>
    .object [("duration_ms", .nat milliseconds), ("errors", .nat t.errors),
      ("files", .nat t.files), ("type", .string "summary"), ("warnings", .nat t.warnings),
      ("written", .nat t.written)]

def red (text : String) : String := "\x1b[31m" ++ text ++ "\x1b[0m"

def green (text : String) : String := "\x1b[32m" ++ text ++ "\x1b[0m"

def yellow (text : String) : String := "\x1b[33m" ++ text ++ "\x1b[0m"

def count (n : Nat) (thing : String) : String :=
  s!"{n} {thing}" ++ if n = 1 then "" else "s"

def summaryLines (t : Tally) (milliseconds : Nat) : List String :=
  if t.errors = 0 && t.warnings = 0 then
    ["", green "✓" ++ " Compiled " ++ count t.files "file" ++ s!" ({milliseconds}ms)"]
  else
    let errors :=
      if t.errors = 0 then []
      else [red "✗" ++ " Found " ++ count t.errors "error" ++ s!" in {t.files} files"]
    let warnings :=
      if t.warnings = 0 then [] else [yellow "⚠" ++ " Found " ++ count t.warnings "warning"]
    [""] ++ errors ++ warnings ++ [s!"Time: {milliseconds}ms"]

def placeText (source : Source) : Option Span → String
  | none => source.path.text
  | some span =>
    let (line, column) := source.display span
    s!"{source.path.text}:{line}:{column}"

def humanLines : Event → List String
  | .found source d =>
    (placeText source d.region.span? ++ ": " ++ d.summary) :: d.notes.map ("  " ++ ·)
  | .malformed source e =>
    [placeText source (some e.span) ++ s!": error[{e.title}]: {e.message}"]
  | .failure _ message => [red "error" ++ ": " ++ message]
  | .finished t milliseconds => summaryLines t milliseconds

def lines (format : OutputFormat) (e : Event) : List String × List String :=
  match format with
  | .human => ([], e.humanLines)
  | .json => ([e.json.text], [])

end Event

end ComponentCompiler.Command
