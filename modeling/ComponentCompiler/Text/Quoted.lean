import ComponentCompiler.Text.Identifier

/-!
# Quoted text

`quote` writes a text as a double-quoted literal: quotes, backslashes and control characters are
escaped, all other characters stand for themselves. `templateText` writes a text between the
backticks of a template literal.
-/

namespace ComponentCompiler.Text

def hexDigit (n : Nat) : Char :=
  if n < 10 then Char.ofNat (0x30 + n) else Char.ofNat (0x57 + n)

def escapeChar (c : Char) : List Char :=
  if c = '"' then ['\\', '"']
  else if c = '\\' then ['\\', '\\']
  else if c.toNat = 0x08 then ['\\', 'b']
  else if c.toNat = 0x09 then ['\\', 't']
  else if c.toNat = 0x0A then ['\\', 'n']
  else if c.toNat = 0x0C then ['\\', 'f']
  else if c.toNat = 0x0D then ['\\', 'r']
  else if c.toNat < 0x20 then ['\\', 'u', '0', '0', hexDigit (c.toNat / 16), hexDigit (c.toNat % 16)]
  else [c]

def quoteList (cs : List Char) : List Char :=
  '"' :: cs.flatMap escapeChar ++ ['"']

def quote (text : String) : String :=
  String.ofList (quoteList text.toList)

/-- A name as a key of an object literal, quoted unless it is an identifier. -/
def propertyKey (name : String) : String :=
  if isIdentifier name then name else quote name

/-- Escapes backticks, backslashes and the dollar of an opening `$` and brace. -/
def templateChars : List Char → List Char
  | [] => []
  | '`' :: cs => '\\' :: '`' :: templateChars cs
  | '\\' :: cs => '\\' :: '\\' :: templateChars cs
  | '$' :: '{' :: cs => '\\' :: '$' :: '{' :: templateChars cs
  | c :: cs => c :: templateChars cs

def templateText (text : String) : String :=
  String.ofList (templateChars text.toList)

end ComponentCompiler.Text
