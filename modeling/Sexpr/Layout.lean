import Sexpr.Value

/-!
# Layout settings and lines

The printer writes one token per line: an atom, a string literal, or a parenthesis. Each line
sits at a depth, the number of lists open around it, and is indented by a fixed number of spaces
per level. Quoted forms are written either as the two-element lists they stand for or with their
shorthands glued to the front of the first line of their body.

## Main definitions

* `Sexpr.QuoteStyle`, `Sexpr.Layout`: how to print, with the presets `Layout.standard` and
  `Layout.verbatim`.
* `Sexpr.Line`, `Sexpr.Line.render`: a line of output as a depth and a text, and its characters.
-/

set_option autoImplicit false

namespace Sexpr

/-- How to print a quoted form. -/
inductive QuoteStyle where
  /-- As the list it stands for: an opening parenthesis, the kind's name, the body, and a
  closing parenthesis, each on a line of its own. -/
  | list
  /-- With the shorthand in front of the first line of the body. -/
  | shorthand
deriving DecidableEq, Repr

/-- How to print a value. -/
structure Layout where
  /-- Spaces per level of nesting. -/
  width : Nat
  /-- Whether to write escapes in atoms and string literals, so that the output reads back as
  the same value. -/
  escape : Bool
  /-- How to print quoted forms. -/
  quoteStyle : QuoteStyle
deriving DecidableEq, Repr

namespace Layout

/-- Escapes on, quoted forms as lists, two spaces per level. -/
def standard : Layout where
  width := 2
  escape := true
  quoteStyle := .list

/-- Atoms and strings written as they are, so that a string holding a quote does not read back;
quoted forms as lists, two spaces per level. -/
def verbatim : Layout where
  width := 2
  escape := false
  quoteStyle := .list

end Layout

/-- A line of output: how deep it sits and what it says. -/
structure Line where
  /-- The number of levels it is indented by. -/
  depth : Nat
  /-- The text after the indentation. -/
  text : List Char
deriving DecidableEq, Repr

/-- The characters of a line indented by `width` spaces per level, with its line feed. -/
def Line.render (width : Nat) (l : Line) : List Char :=
  List.replicate (width * l.depth) ' ' ++ l.text ++ ['\n']

end Sexpr
