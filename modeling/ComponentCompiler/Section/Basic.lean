import ComponentCompiler.Position.Span

/-!
# Sections

A component file is a sequence of sections, each headed by a marker line. A `Document` keeps the
sections by the part they play.
-/

namespace ComponentCompiler

inductive SectionKind where
  | template
  | script
  | style
  | custom
  deriving DecidableEq, Repr

def SectionKind.ofName (name : String) : SectionKind :=
  if name = "template" then .template
  else if name = "script" then .script
  else if name = "style" then .style
  else .custom

structure Section where
  name : String
  lang : Option String
  content : String
  /-- Empty for the section of a file without markers. -/
  markerSpan : Span
  contentSpan : Span
  deriving DecidableEq, Repr

namespace Section

def kind (s : Section) : SectionKind := SectionKind.ofName s.name

def base (s : Section) : Nat := s.contentSpan.start

def isImplicit (s : Section) : Bool := s.markerSpan.isEmpty && s.contentSpan.start = 0

end Section

structure Document where
  template : Option Section := none
  script : Option Section := none
  styles : List Section := []
  custom : List Section := []
  deriving DecidableEq, Repr

def Document.sectionCount (d : Document) : Nat :=
  d.template.toList.length + d.script.toList.length + d.styles.length + d.custom.length

end ComponentCompiler
