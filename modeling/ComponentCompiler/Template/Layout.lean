import ComponentCompiler.Template.ParseError

/-!
# Layout

The indentation of lines stands for brackets. At the end of a line, `Layout` tokens tell how the next
line that is neither blank nor a comment relates to the open levels. Indentation is compared
character by character: a deeper line starts with the indentation of the level above.
-/

namespace ComponentCompiler.Template

open Text

inductive Layout where
  /-- The next line opens a deeper level. -/
  | indent
  /-- The next line stands on the current level. -/
  | sibling
  /-- The current level ends. -/
  | dedent
  /-- There is no next line. -/
  | eof
  deriving DecidableEq, Repr

structure Reading where
  cursor : Cursor
  /-- The indentation of every open level, innermost first. -/
  levels : List (List Char) := []
  /-- Tokens already computed for the line ahead. -/
  pending : List Layout := []
  deriving DecidableEq, Repr

namespace Layout

/-- From a line start: the indentation of the first line that is neither blank nor a comment, and the
place after it. While `inLine`, the rest of a line is passed over. -/
def nextLine? (inLine : Bool) (lead : List Char) (pos : Nat) :
    List Char → Option (List Char × Cursor)
  | [] => none
  | c :: rest =>
    if inLine then nextLine? (c ≠ '\n') [] (pos + c.utf8Size) rest
    else if isInlineBlank c then nextLine? false (lead ++ [c]) (pos + c.utf8Size) rest
    else if Cursor.atLineEnd ⟨c :: rest, pos⟩ || ['/', '/'].isPrefixOf (c :: rest) then
      nextLine? (c ≠ '\n') [] (pos + c.utf8Size) rest
    else some (lead, ⟨c :: rest, pos⟩)

def firstLine? (c : Cursor) : Option (List Char × Cursor) :=
  nextLine? false [] c.pos c.rest

/-- How a line indented by `lead` relates to the open levels: the tokens for it and the levels open
after it. `none` when it fits none of them. -/
def place? (levels : List (List Char)) (lead : List Char) :
    Option (List Layout × List (List Char)) :=
  if lead = levels.headD [] then some ([.sibling], levels)
  else if (levels.headD []).isPrefixOf lead then some ([.indent], lead :: levels)
  else if levels.contains lead then
    some (List.replicate (levels.idxOf lead) .dedent ++ [.sibling],
      levels.drop (levels.idxOf lead))
  else none

/-- At the end of the text every level but the base closes. -/
def closeAll (levels : List (List Char)) : List Layout × List (List Char) :=
  (List.replicate (levels.length - 1) .dedent ++ [.eof], levels.drop (levels.length - 1))

/-- From the end of a line, computes the tokens up to the next line and moves to its text. -/
def advance (r : Reading) : Except ParseError Reading :=
  let c := r.cursor.dropWhile isInlineBlank
  if !c.atLineEnd then .error (.unexpectedAt c .lineEnd)
  else
    let c := c.skipLine
    match firstLine? c with
    | none =>
      let (tokens, levels) := closeAll r.levels
      .ok ⟨c.skip c.rest.length, levels, tokens⟩
    | some (lead, line) =>
      match place? r.levels lead with
      | some (tokens, levels) => .ok ⟨line, levels, tokens⟩
      | none => .error (.inconsistentDedent ⟨line.pos - byteLength lead, line.pos⟩)

def peek : StateT Reading (Except ParseError) Layout := do
  let r ← get
  match r.pending with
  | token :: _ => return token
  | [] =>
    let r ← advance r
    set r
    return r.pending.headD .eof

def next : StateT Reading (Except ParseError) Layout := do
  let token ← peek
  modify fun r => { r with pending := r.pending.tail }
  return token

end Layout

end ComponentCompiler.Template
