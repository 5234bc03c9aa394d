/-!
# Paths

A path is kept as it is spelled, and read as the segments between its slashes. Empty segments and `.`
name nothing, so two spellings of one path have the same `parts`; `Path.le` orders paths by them.
-/

namespace ComponentCompiler.Files

def splitChars (separator : Char) : List Char → List (List Char)
  | [] => [[]]
  | c :: cs =>
    if c = separator then [] :: splitChars separator cs
    else
      match splitChars separator cs with
      | [] => [[c]]
      | run :: runs => (c :: run) :: runs

theorem splitChars_ne_nil (separator : Char) (cs : List Char) : splitChars separator cs ≠ [] := by
  cases cs with
  | nil => simp [splitChars]
  | cons c cs =>
    rw [splitChars]
    split
    · simp
    · split <;> simp

structure Path where
  text : String
  deriving DecidableEq, Repr

def parentSegment : String := ".."

def isIdle (segment : String) : Bool := segment = "" || segment = "."

namespace Path

def segments (p : Path) : List String :=
  (splitChars '/' p.text.toList).map String.ofList

def parts (p : Path) : List String := p.segments.filter fun s => !isIdle s

def isAbsolute (p : Path) : Bool := p.text.toList.head? = some '/'

def ofSegments (segments : List String) : Path := ⟨String.intercalate "/" segments⟩

def join (base p : Path) : Path :=
  if p.isAbsolute then p
  else if base.text.toList.getLast? = some '/' then ⟨base.text ++ p.text⟩
  else ⟨base.text ++ "/" ++ p.text⟩

/-- The last part, unless it leads upwards. -/
def fileName? (p : Path) : Option String :=
  p.parts.getLast?.filter (· ≠ parentSegment)

/-- The name up to its last dot and the text after it. A dot at the start divides nothing. -/
def splitName (name : String) : String × Option String :=
  let chars := name.toList.reverse
  let suffix := chars.takeWhile (· ≠ '.')
  match chars.drop suffix.length with
  | _ :: c :: stem => (String.ofList (c :: stem).reverse, some (String.ofList suffix.reverse))
  | _ => (name, none)

def extension? (p : Path) : Option String :=
  p.fileName?.bind fun name => (splitName name).2

def withExtension (p : Path) (extension : String) : Path :=
  match p.extension? with
  | some old => ⟨String.ofList (p.text.toList.take (p.text.length - old.length)) ++ extension⟩
  | none => ⟨p.text ++ "." ++ extension⟩

def stripParts : List String → List String → Option (List String)
  | [], segments => some (segments.dropWhile isIdle)
  | _ :: _, [] => none
  | part :: base, s :: segments =>
    if isIdle s then stripParts (part :: base) segments
    else if s = part then stripParts base segments
    else none

/-- The way from `base` to `p`, when `p` is spelled as a path below it. -/
def relativeTo? (p base : Path) : Option Path :=
  (stripParts base.parts p.segments).map ofSegments

/-- Steps upwards come first, then names by their characters. -/
def partBefore (a b : String) : Bool :=
  if a = parentSegment then b ≠ parentSegment
  else b ≠ parentSegment && decide (a < b)

def partsLe : List String → List String → Bool
  | [], _ => true
  | _ :: _, [] => false
  | a :: as, b :: bs => if a = b then partsLe as bs else partBefore a b

def le (p q : Path) : Bool := partsLe p.parts q.parts

/-- Sorted, of neighbours with the same parts only the first. -/
def sortDistinct (paths : List Path) : List Path :=
  dropRepeats (paths.mergeSort le)
where
  dropRepeats : List Path → List Path
    | [] => []
    | p :: ps =>
      match dropRepeats ps with
      | [] => [p]
      | q :: qs => if p.parts = q.parts then p :: qs else p :: q :: qs

end Path

end ComponentCompiler.Files
