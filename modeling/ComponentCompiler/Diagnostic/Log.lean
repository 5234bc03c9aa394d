import ComponentCompiler.Diagnostic.Basic

/-!
# Diagnostic logs

A `Log` lists diagnostics in the order in which the stages report them. `Log.sorted` is the order
of a report: by position, and in report order where positions agree.
-/

namespace ComponentCompiler

abbrev Log := List Diagnostic

namespace Log

def hasErrors (log : Log) : Bool := log.any (·.isError)

def errorCount (log : Log) : Nat := log.countP (·.isError)

def warningCount (log : Log) : Nat := log.countP fun d => !d.isError

def mentions (log : Log) (rule : Rule) : Bool := log.any fun d => d.rule = rule

def sorted (log : Log) : Log := log.mergeSort Diagnostic.le

theorem sorted_perm (log : Log) : log.sorted.Perm log := List.mergeSort_perm log _

end Log

end ComponentCompiler
