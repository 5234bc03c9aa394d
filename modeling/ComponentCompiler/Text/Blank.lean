/-!
# Blank characters

A character is blank when it has the Unicode property White_Space. `trim` cuts blank characters
off both ends of a text; `eq_trimStart_append` says that only blank ones are lost at the start.
-/

namespace ComponentCompiler.Text

/-- The code points with the Unicode property White_Space, as closed ranges. -/
def blankRanges : List (Nat × Nat) :=
  [(0x09, 0x0D), (0x20, 0x20), (0x85, 0x85), (0xA0, 0xA0), (0x1680, 0x1680), (0x2000, 0x200A),
    (0x2028, 0x2029), (0x202F, 0x202F), (0x205F, 0x205F), (0x3000, 0x3000)]

def isBlank (c : Char) : Bool :=
  blankRanges.any fun r => r.1 ≤ c.toNat && c.toNat ≤ r.2

/-- Space or tab: the blanks that indentation is made of. -/
def isInlineBlank (c : Char) : Bool :=
  c = ' ' || c = '\t'

def trimStart (cs : List Char) : List Char :=
  cs.dropWhile isBlank

def trimEnd : List Char → List Char
  | [] => []
  | c :: cs =>
    match trimEnd cs with
    | [] => if isBlank c then [] else [c]
    | kept => c :: kept

def trim (cs : List Char) : List Char :=
  trimEnd (trimStart cs)

def allBlank (cs : List Char) : Bool :=
  cs.all isBlank

def trimmed (text : String) : String :=
  String.ofList (trim text.toList)

theorem eq_trimStart_append (cs : List Char) :
    cs = cs.takeWhile isBlank ++ trimStart cs :=
  (List.takeWhile_append_dropWhile).symm

end ComponentCompiler.Text
