import ComponentCompiler.Contract
import ComponentCompiler.Diagnostic.Log
import ComponentCompiler.Template.Entity
import ComponentCompiler.Template.Outline.Basic

/-!
# Checking templates

Checking walks through an outline once and logs every rule that is broken. A part that breaks a rule
is left out and the walk goes on.
-/

namespace ComponentCompiler.Template

structure Progress where
  log : Log := []
  /-- Slots that are shown somewhere. -/
  usedSlots : List String := []
  templates : List String := []
  /-- The local templates asked for, and where. -/
  includes : List (String × Span) := []
  deriving DecidableEq

abbrev Check := StateM Progress

namespace Check

def report (d : Diagnostic) : Check Unit :=
  modify fun p => { p with log := p.log ++ [d] }

def error (rule : Rule) (span : Span) (headline : String) (notes : List String := []) :
    Check Unit :=
  report (.errorAt rule span headline notes)

def warning (rule : Rule) (span : Span) (headline : String) : Check Unit :=
  report (.warningAt rule span headline)

end Check

inductive Scope where
  | root
  /-- Directly below a component. -/
  | component
  | nested
  deriving DecidableEq

end ComponentCompiler.Template
