import ComponentCompiler.Position.Span
import ComponentCompiler.Text.Cursor

/-!
# Faults in template text

Reading a template stops at its first fault. `ParseError.message` holds the wording.
-/

namespace ComponentCompiler.Template

open Text

inductive Expectation where
  | lineStart
  | inlineChild
  | lineTail
  | lineEnd
  | idName
  | className
  | reactiveClassCode
  | receiverKind
  | receiverEnd
  | attributeName
  | modifierName
  | attributeValue
  | directiveName
  | interpolatedCode
  | blockEnd
  | templateEnd
  deriving DecidableEq, Repr

def Expectation.text : Expectation → String
  | .lineStart => "a tag, component, `@` directive or `|` text line"
  | .inlineChild => "an inline child after `:`"
  | .lineTail => "`:`, inline text or end of line"
  | .lineEnd => "end of line"
  | .idName => "an id after `#`"
  | .className => "a class name"
  | .reactiveClassCode => "`\x7b` after `.:`"
  | .receiverKind => "a receiver kind"
  | .receiverEnd => "`)`"
  | .attributeName => "an attribute name"
  | .modifierName => "a modifier after `|`"
  | .attributeValue => "a string, `\x7bcode\x7d` or identifier value"
  | .directiveName => "a directive name after `@`"
  | .interpolatedCode => "an expression inside `\x7b\x7b \x7d\x7d`"
  | .blockEnd => "end of block"
  | .templateEnd => "end of template"

inductive Found where
  | endOfInput
  | endOfLine
  | char (c : Char)
  deriving DecidableEq, Repr

namespace Found

def here (c : Cursor) : Found :=
  match c.peek? with
  | none => .endOfInput
  | some x => if x = '\n' || x = '\r' then .endOfLine else .char x

def text : Found → String
  | .endOfInput => "end of input"
  | .endOfLine => "end of line"
  | .char c => String.ofList ['`', c, '`']

def byteLength : Found → Nat
  | .char c => c.utf8Size
  | _ => 0

end Found

/-- What is left open at the end of the text or line. -/
inductive Construct where
  | comment
  | stringLiteral
  | codeBlock
  | parenthesizedCode
  | interpolation
  | attributeList
  | string
  deriving DecidableEq, Repr

def Construct.text : Construct → String
  | .comment => "comment"
  | .stringLiteral => "string literal"
  | .codeBlock => "code block"
  | .parenthesizedCode => "parenthesized code"
  | .interpolation => "interpolation"
  | .attributeList => "attribute list"
  | .string => "string"

inductive ParseError where
  | unexpected (found : Found) (expected : Expectation) (span : Span)
  | unterminated (what : Construct) (span : Span)
  | mismatchedBracket (expected found : Char) (span : Span)
  | inconsistentDedent (span : Span)
  | unexpectedIndent (span : Span)
  | unterminatedInterpolation (span : Span)
  deriving DecidableEq, Repr

namespace ParseError

/-- The fault that `c` does not show what is expected there. -/
def unexpectedAt (c : Cursor) (expected : Expectation) : ParseError :=
  let found := Found.here c
  .unexpected found expected ⟨c.pos, c.pos + found.byteLength⟩

def span : ParseError → Span
  | .unexpected _ _ span | .unterminated _ span | .mismatchedBracket _ _ span
  | .inconsistentDedent span | .unexpectedIndent span | .unterminatedInterpolation span => span

def title : ParseError → String
  | .unexpected .. => "SYNTAX_UNEXPECTED"
  | .unterminated .. => "SYNTAX_UNTERMINATED"
  | .mismatchedBracket .. => "SYNTAX_MISMATCHED_BRACKET"
  | .inconsistentDedent _ => "SYNTAX_INCONSISTENT_DEDENT"
  | .unexpectedIndent _ => "SYNTAX_UNEXPECTED_INDENT"
  | .unterminatedInterpolation _ => "SYNTAX_UNTERMINATED_INTERPOLATION"

def message : ParseError → String
  | .unexpected found expected _ => "unexpected " ++ found.text ++ ", expected " ++ expected.text
  | .unterminated what _ => "unterminated " ++ what.text
  | .mismatchedBracket expected found _ =>
    "mismatched bracket: expected `" ++ expected.toString ++ "`, found `" ++ found.toString ++ "`"
  | .inconsistentDedent _ => "indentation does not match any enclosing level"
  | .unexpectedIndent _ => "unexpected indentation: the previous line does not take a block"
  | .unterminatedInterpolation _ => "unterminated `\x7b\x7b` interpolation"

end ParseError

end ComponentCompiler.Template
