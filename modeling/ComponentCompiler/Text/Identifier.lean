/-!
# Names

Three classes of names: script identifiers, the hyphenated names of tags, classes and attributes,
and component names. All are ASCII.
-/

namespace ComponentCompiler.Text

def isAsciiLetter (c : Char) : Bool :=
  ('a' ≤ c && c ≤ 'z') || ('A' ≤ c && c ≤ 'Z')

def isAsciiDigit (c : Char) : Bool :=
  '0' ≤ c && c ≤ '9'

def isAsciiAlphanumeric (c : Char) : Bool :=
  isAsciiLetter c || isAsciiDigit c

def isIdentifierStart (c : Char) : Bool :=
  isAsciiLetter c || c = '_' || c = '$'

def isIdentifierPart (c : Char) : Bool :=
  isAsciiAlphanumeric c || c = '_' || c = '$'

/-- A name that script code can use as it stands. -/
def isIdentifierList : List Char → Bool
  | [] => false
  | c :: cs => isIdentifierStart c && cs.all isIdentifierPart

def isIdentifier (text : String) : Bool :=
  isIdentifierList text.toList

/-- First character of an attribute, modifier, id, directive or section name. -/
def isNameStart (c : Char) : Bool :=
  isAsciiLetter c || c = '_'

def isNamePart (c : Char) : Bool :=
  isAsciiAlphanumeric c || c = '_' || c = '-'

def isWordPart (c : Char) : Bool :=
  isAsciiAlphanumeric c || c = '_'

end ComponentCompiler.Text
