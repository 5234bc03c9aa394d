import ComponentCompiler.Diagnostic.Rule
import ComponentCompiler.Position.Span

/-!
# Diagnostics

A diagnostic says which rule is broken where, in a headline and further notes.
-/

namespace ComponentCompiler

inductive Severity where
  /-- Stops code generation. -/
  | error
  /-- Reported, and output is still produced. -/
  | warning
  deriving DecidableEq, Repr

def Severity.title : Severity → String
  | .error => "error"
  | .warning => "warning"

inductive Region where
  | file (name : String)
  | span (span : Span)
  deriving DecidableEq, Repr

namespace Region

def span? : Region → Option Span
  | .file _ => none
  | .span s => some s

/-- Whole files come first, then spans by start and end. -/
def le : Region → Region → Bool
  | .file _, _ => true
  | .span _, .file _ => false
  | .span s, .span t => !t.before s

end Region

structure Diagnostic where
  severity : Severity
  rule : Rule
  region : Region
  headline : String
  notes : List String := []
  deriving DecidableEq, Repr

namespace Diagnostic

def errorAt (rule : Rule) (span : Span) (headline : String) (notes : List String := []) :
    Diagnostic :=
  ⟨.error, rule, .span span, headline, notes⟩

def warningAt (rule : Rule) (span : Span) (headline : String) (notes : List String := []) :
    Diagnostic :=
  ⟨.warning, rule, .span span, headline, notes⟩

def fileWarning (rule : Rule) (file : String) (headline : String) : Diagnostic :=
  ⟨.warning, rule, .file file, headline, []⟩

def isError (d : Diagnostic) : Bool := d.severity = .error

def paragraphs (d : Diagnostic) : List String := d.headline :: d.notes

def summary (d : Diagnostic) : String :=
  d.severity.title ++ "[" ++ d.rule.title ++ "]: " ++ d.headline

def le (d e : Diagnostic) : Bool := d.region.le e.region

end Diagnostic

end ComponentCompiler
