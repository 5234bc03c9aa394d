import ComponentCompiler.Program.Module
import ComponentCompiler.Script.Inspect
import ComponentCompiler.Section.Cut
import ComponentCompiler.Template.Check.Outline

/-!
# Compiling components

`compile` takes the text of a component file to the text of a module. The file is cut into sections,
the script is inspected, the template is checked against the script's contract, and other sections
are handed to their processors. All stages write to one log; the module is generated when none of them
has found an error.
-/

namespace ComponentCompiler

structure Processor where
  name : String
  /-- What a section adds to the module, if anything, and what is found in it. -/
  process : Section → Option Program.Addition × Log

structure CompileOptions where
  filename : String := "component.iron"
  runtime : String := Program.defaultRuntime
  /-- Of two with the same name the first is used. -/
  processors : List Processor := []

structure Compiled where
  code : String
  styles : List Section
  log : Log

inductive CompileError where
  | malformed (filename : String) (error : Template.ParseError) (log : Log)
  | invalid (filename : String) (log : Log)
  | lowering (error : Program.LoweringError)

namespace CompileError

def message : CompileError → String
  | .malformed filename error _ => s!"{filename}: {error.message}"
  | .invalid filename log => s!"{filename}: compilation failed with {log.errorCount} error(s)"
  | .lowering error => error.message

def log : CompileError → Log
  | .malformed _ _ log | .invalid _ log => log
  | .lowering _ => []

end CompileError

def processSection (processors : List Processor) (s : Section) : Option Program.Addition × Log :=
  match processors.find? fun p => p.name = s.name with
  | some p => p.process s
  | none =>
    (none, [.warningAt .sectionUnhandled s.markerSpan s!"no processor handles `{s.name}` sections"])

def processSections (processors : List Processor) : List Section → List Program.Addition × Log
  | [] => ([], [])
  | s :: rest =>
    let (addition, found) := processSection processors s
    let (additions, more) := processSections processors rest
    (addition.toList ++ additions, found ++ more)

def Document.contract (d : Document) (log : Log) : Contract × Log :=
  match d.script with
  | some script => Script.inspect script.content script.base log
  | none => ({}, log)

/-- The entities of a document's template; a document without one shows nothing. -/
def Document.entities (d : Document) (filename : String) (slots : Option SlotTable) (log : Log) :
    Except Template.ParseError (Option (List Template.Entity) × Log) :=
  match d.template with
  | some template => Template.parse template.content template.base slots log
  | none =>
    .ok (some [], log ++ [.fileWarning .templateEmpty filename "component has no template section"])

def compile (text : String) (options : CompileOptions) : Except CompileError Compiled :=
  let (document, log) := Document.cut text options.filename
  let (contract, log) := document.contract log
  match document.entities options.filename contract.slots log with
  | .error e => .error (.malformed options.filename e (Log.sorted log))
  | .ok (entities, log) =>
    let (additions, found) := processSections options.processors document.custom
    let log := log ++ found
    match entities with
    | some entities =>
      if log.hasErrors then .error (.invalid options.filename (Log.sorted log))
      else
        let component := Program.Component.ofContract contract entities
        match Program.generate component (document.script.map (·.content)) additions options.runtime with
        | .error e => .error (.lowering e)
        | .ok code => .ok ⟨code, document.styles, Log.sorted log⟩
    | none => .error (.invalid options.filename (Log.sorted log))

end ComponentCompiler
