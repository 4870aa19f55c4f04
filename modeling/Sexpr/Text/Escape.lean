import Sexpr.Text.Blank

/-!
# Escapes

A backslash lets a character stand where it would otherwise mean something else. Inside a bare
atom it takes the next character literally. Inside a string literal it goes through a small
table: `r`, `t`, `n`, `f` and `b` stand for carriage return, tab, line feed, form feed and
backspace, and every other character stands for itself.

Printing goes the other way. A string literal writes the seven characters that may not stand for
themselves (the double quote, the backslash and the five controls of the table) as escape
sequences; an atom puts a backslash before every character that would end it.

## Main definitions

* `Sexpr.Text.endsAtom`: the characters that end a bare atom.
* `Sexpr.Text.Escape.resolve`, `Sexpr.Text.Escape.letter?`: the table, read and written.
* `Sexpr.Text.Escape.encodeString`, `Sexpr.Text.Escape.encodeAtom`: escaping for printing.
* `Sexpr.Text.Escape.resolveUnit`: what follows a backslash in a string literal, resolved.
-/

set_option autoImplicit false

namespace Sexpr
namespace Text

/-- Whether a character ends a bare atom: a blank, the backslash, the double quote, one of the
quote shorthands, or a parenthesis. Such a character appears in an atom only behind a
backslash. -/
def endsAtom (c : Char) : Bool :=
  isBlank c || c == '\\' || c == '"' || c == '\'' || c == '\x60' || c == ',' || c == '(' ||
    c == ')'

namespace Escape

/-- The character that a backslash followed by `c` stands for inside a string literal. -/
def resolve (c : Char) : Char :=
  match c with
  | 'r' => '\r'
  | 't' => '\t'
  | 'n' => '\n'
  | 'f' => '\x0c'
  | 'b' => '\x08'
  | _ => c

/-- The letter written after a backslash for a character that may not stand for itself
between the quotes of a string literal. -/
def letter? (c : Char) : Option Char :=
  match c with
  | '"' => some '"'
  | '\\' => some '\\'
  | '\r' => some 'r'
  | '\t' => some 't'
  | '\n' => some 'n'
  | '\x0c' => some 'f'
  | '\x08' => some 'b'
  | _ => none

/-- The escape sequence written for `c` in a string literal, if it has one. -/
def sequence? (c : Char) : Option String :=
  (letter? c).map fun l => String.ofList ['\\', l]

/-- Resolves what a backslash in a string literal took: a single character goes through the
table, and anything else (a carriage return and line feed taken as one) stays as it is. -/
def resolveUnit (taken : List Char) : List Char :=
  match taken with
  | [c] => [resolve c]
  | cs => cs

/-- A text as it is written between the quotes of a string literal. -/
def encodeString (cs : List Char) : List Char :=
  cs.flatMap fun c =>
    match letter? c with
    | some l => ['\\', l]
    | none => [c]

/-- A text as it is written as a bare atom: a backslash before each character that would end
it. -/
def encodeAtom (cs : List Char) : List Char :=
  cs.flatMap fun c => if endsAtom c then ['\\', c] else [c]

/-- Reading back what the table writes gives the character that was written. -/
theorem resolve_letter? {c l : Char} (h : letter? c = some l) : resolve l = c := by
  unfold letter? at h
  split at h <;> simp_all <;> subst h <;> rfl

example : String.ofList (encodeAtom "a b(c)".toList) = "a\\ b\\(c\\)" := by decide

end Escape
end Text
end Sexpr
