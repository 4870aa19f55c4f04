import Sexpr.Read.Expr
import Sexpr.Print

/-!
# Formatting

Formatting a text is reading it as one expression and printing the value read.

## Main definitions

* `Sexpr.Settings`: a layout and reading limits.
* `Sexpr.formatWith`, `Sexpr.format`: a text formatted, or the syntax error that stopped it.
-/

set_option autoImplicit false

namespace Sexpr

/-- How to read and how to print. -/
structure Settings where
  /-- How to print. -/
  layout : Layout := Layout.standard
  /-- Limits on reading. -/
  limits : Limits := {}
deriving DecidableEq, Repr

/-- Reads `text` as one expression within the settings' limits and prints it with their
layout. -/
def formatWith (text : String) (s : Settings) : Except SyntaxError String :=
  (parse text s.limits).map (Value.print s.layout)

/-- Formats `text` with the standard layout at `width` spaces per level, within the standard
limits. -/
def format (text : String) (width : Nat) : Except SyntaxError String :=
  formatWith text { layout := { Layout.standard with width := width } }

end Sexpr
