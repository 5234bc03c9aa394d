import ComponentCompiler.Diagnostic.Log
import ComponentCompiler.Section.Basic
import ComponentCompiler.Section.Marker

/-!
# Cutting a file into sections

`Document.cut` files every section of a component file under its kind. Sections in a language the
compiler cannot read and second `template` or `script` sections are left out and logged.
-/

namespace ComponentCompiler

open Text

namespace Section

/-- The languages a section of this kind may be written in; `none` when any will do. -/
def languages? : SectionKind → Option (List String)
  | .template => some ["wolf"]
  | .script => some ["ts", "typescript"]
  | .style | .custom => none

def ofMarker (m : Marker.Found) (stop : Cursor) : Section where
  name := m.marker.name
  lang := m.marker.lang
  content := String.ofList (m.body.upTo stop)
  markerSpan := m.span
  contentSpan := ⟨m.body.pos, stop.pos⟩

/-- The section of a file without markers: all of it is a template. -/
def implicit (source : String) : Section where
  name := "template"
  lang := none
  content := source
  markerSpan := Span.emptyAt 0
  contentSpan := ⟨0, byteLength source.toList⟩

def langProblem? (s : Section) : Option Diagnostic :=
  match s.lang, languages? s.kind with
  | some lang, some allowed =>
    if allowed.contains lang then none
    else
      some (.errorAt .sectionUnsupportedLang s.markerSpan
        s!"unsupported language `{lang}` for the {s.name} section"
        ["supported languages: " ++ ", ".intercalate allowed])
  | _, _ => none

end Section

namespace Document

/-- Files a section, or says why it cannot be taken. -/
def add (d : Document) (s : Section) : Except Diagnostic Document :=
  match s.langProblem? with
  | some problem => .error problem
  | none =>
    match s.kind with
    | .template =>
      if d.template.isSome then
        .error (.errorAt .sectionDuplicate s.markerSpan
          "a component has at most one template section")
      else .ok { d with template := some s }
    | .script =>
      if d.script.isSome then
        .error (.errorAt .sectionDuplicate s.markerSpan
          "a component has at most one script section")
      else .ok { d with script := some s }
    | .style => .ok { d with styles := d.styles ++ [s] }
    | .custom => .ok { d with custom := d.custom ++ [s] }

def addAll (d : Document) : List Section → Document × Log
  | [] => (d, [])
  | s :: rest =>
    match d.add s with
    | .ok d => d.addAll rest
    | .error problem =>
      let (d, log) := d.addAll rest
      (d, problem :: log)

/-- Each section reaches from its marker to the next one, or to the end of the file. -/
def sections (stop : Cursor) : List Marker.Found → List Section
  | [] => []
  | [m] => [Section.ofMarker m stop]
  | m :: next :: rest => Section.ofMarker m next.start :: sections stop (next :: rest)

def strayText (leading : List Char) : Log :=
  if allBlank leading then []
  else
    let start := byteLength (leading.takeWhile isBlank)
    [.warningAt .sectionStrayContent ⟨start, byteLength (trimEnd leading)⟩
      "text before the first section marker is ignored"]

def cut (source filename : String) : Document × Log :=
  let start := Cursor.start source 0
  let found := Marker.findAll start
  match found with
  | [] =>
    ({ template := some (Section.implicit source) },
      [.fileWarning .sectionNoMarkers filename
        "file has no `#!` section markers; treating it as a template"])
  | first :: _ =>
    let stray := strayText (start.upTo first.start)
    let (document, log) := addAll {} (sections (start.skip start.rest.length) found)
    (document, stray ++ log)

end Document

end ComponentCompiler
