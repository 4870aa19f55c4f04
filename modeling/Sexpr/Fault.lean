import Sexpr.Position
import Sexpr.Value

/-!
# Syntax errors

Reading stops at the first fault. Every fault is reported with the position of the cursor at
the moment it was detected, which is why the texts below talk about what was *seen* there: the
next character, or the end of the input.

## Main definitions

* `Sexpr.Fault`: what went wrong, with `Sexpr.Fault.describe` giving its text.
* `Sexpr.SyntaxError`: a fault and where it was detected, with `Sexpr.SyntaxError.display`, the
  error as it is shown to a reader.
-/

set_option autoImplicit false

namespace Sexpr

/-- How to name the character the reader was looking at: between backquotes, or as the end of
the input. -/
def describeSeen : Option Char → String
  | some c => "`" ++ c.toString ++ "`"
  | none => "end of input"

/-- What can go wrong while reading. -/
inductive Fault where
  /-- The input ended inside a string literal. -/
  | unterminatedString
  /-- A list was to start here, but the next character is not an opening parenthesis. -/
  | expectedOpen (seen : Option Char)
  /-- The items of a list ended at something other than a closing parenthesis. -/
  | expectedClose (seen : Option Char)
  /-- A quote shorthand is followed by nothing that reads as an expression. -/
  | missingQuoted (seen : Option Char) (kind : QuoteKind)
  /-- A whole expression was read, but more characters follow. -/
  | superfluous (c : Char)
  /-- There was no expression at all. -/
  | emptyInput
  /-- Opening one more list or quoted form would go past the nesting budget. -/
  | nestingTooDeep
deriving DecidableEq, Repr

namespace Fault

/-- The name of the kind of fault. -/
def kindName : Fault → String
  | .unterminatedString => "UnterminatedString"
  | .expectedOpen _ => "ExpectedOpenParen"
  | .expectedClose _ => "ExpectedCloseParen"
  | .missingQuoted _ _ => "MissingQuotedExpr"
  | .superfluous _ => "Superfluous"
  | .emptyInput => "EmptyInput"
  | .nestingTooDeep => "NestingTooDeep"

/-- The text that describes a fault. -/
def describe : Fault → String
  | .unterminatedString => "Unterminated string literal"
  | .expectedOpen seen => "Expected `(` - saw " ++ describeSeen seen ++ " instead."
  | .expectedClose seen => "Expected `)` - saw: " ++ describeSeen seen
  | .missingQuoted seen kind =>
    "Unexpected " ++ describeSeen seen ++ " after `" ++ kind.shorthand ++ "`"
  | .superfluous c => "Superfluous characters after expression: `" ++ c.toString ++ "`"
  | .emptyInput => "Expected an expression, saw end of input"
  | .nestingTooDeep => "Nesting too deep"

end Fault

/-- A fault and the position where it was detected. -/
structure SyntaxError where
  /-- What went wrong. -/
  fault : Fault
  /-- Where the cursor stood when it was detected. -/
  pos : Pos
deriving DecidableEq, Repr

namespace SyntaxError

/-- The error as it is shown to a reader: the text of the fault and the position as line and
column counted from one. -/
def display (e : SyntaxError) : String :=
  "Syntax error: " ++ e.fault.describe ++ " " ++ e.pos.display

example : (SyntaxError.mk (.missingQuoted none .unquoteSplicing) ⟨3, 0, 3⟩).display =
    "Syntax error: Unexpected end of input after `,@` @1.4" := by decide

end SyntaxError
end Sexpr
