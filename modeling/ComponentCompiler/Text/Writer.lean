/-!
# Indented writing

A `Writer` appends lines at the current depth. Its operations are values of `Writer.Step`, so a
producer of text can be described as the list of steps it takes, also before their lines are text.
-/

namespace ComponentCompiler.Text

structure Writer where
  code : String := ""
  depth : Nat := 0
  deriving DecidableEq, Repr

namespace Writer

def indentUnit : String := "    "

def indentation (depth : Nat) : String :=
  String.join (List.replicate depth indentUnit)

inductive Step (α : Type) where
  | line (text : α)
  /-- A line whose followers stand one level deeper. -/
  | enter (text : α)
  /-- A line that stands one level less deep, like its followers. -/
  | leave (text : α)
  | push (text : α)
  | indent
  | dedent
  | newline
  deriving DecidableEq, Repr

def Step.map {α β : Type} (f : α → β) : Step α → Step β
  | .line text => .line (f text)
  | .enter text => .enter (f text)
  | .leave text => .leave (f text)
  | .push text => .push (f text)
  | .indent => .indent
  | .dedent => .dedent
  | .newline => .newline

def push (w : Writer) (text : String) : Writer :=
  { w with code := w.code ++ text }

/-- An empty text gives an empty line, without indentation. -/
def line (w : Writer) (text : String) : Writer :=
  if text.isEmpty then w.push "\n" else w.push (indentation w.depth ++ text ++ "\n")

def indent (w : Writer) : Writer :=
  { w with depth := w.depth + 1 }

def dedent (w : Writer) : Writer :=
  { w with depth := w.depth - 1 }

def apply (w : Writer) : Step String → Writer
  | .line text => w.line text
  | .enter text => (w.line text).indent
  | .leave text => w.dedent.line text
  | .push text => w.push text
  | .indent => w.indent
  | .dedent => w.dedent
  | .newline => w.push "\n"

def run (w : Writer) (steps : List (Step String)) : Writer :=
  steps.foldl apply w

theorem run_append (w : Writer) (a b : List (Step String)) : w.run (a ++ b) = (w.run a).run b :=
  List.foldl_append

end Writer

end ComponentCompiler.Text
