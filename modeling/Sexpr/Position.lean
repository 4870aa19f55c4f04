/-!
# Positions in a text

A position names a place between two characters of a text in three ways: the byte offset into
its UTF-8 encoding, and the line and column, both counted from zero and in characters. A
carriage return followed by a line feed, a lone carriage return and a lone line feed each end
one line.

## Main definitions

* `Sexpr.Pos.advance`: the position after reading some characters.
* `Sexpr.Pos.display`: the text `@line.column` shown to a reader, both counted from one.
-/

set_option autoImplicit false

namespace Sexpr

/-- A place in a text: a byte offset, and a line and column counted from zero in characters. -/
structure Pos where
  /-- Bytes of UTF-8 before the place. -/
  offset : Nat
  /-- Line breaks before the place. -/
  line : Nat
  /-- Characters between the last line break and the place. -/
  col : Nat
deriving DecidableEq, Repr

namespace Pos

/-- The start of a text. -/
def start : Pos := ⟨0, 0, 0⟩

/-- The start of the next line, after a line break that takes `bytes` bytes. -/
def nextLine (p : Pos) (bytes : Nat) : Pos := ⟨p.offset + bytes, p.line + 1, 0⟩

/-- One column further, past the character `c`. -/
def nextCol (p : Pos) (c : Char) : Pos := ⟨p.offset + c.utf8Size, p.line, p.col + 1⟩

/-- The position reached from `p` by reading `cs`. -/
def advance : Pos → List Char → Pos
  | p, [] => p
  | p, '\r' :: '\n' :: r => advance (p.nextLine 2) r
  | p, c :: r => advance (if c == '\r' || c == '\n' then p.nextLine 1 else p.nextCol c) r

/-- The position as shown to a reader: `@line.column`, both counted from one. -/
def display (p : Pos) : String :=
  "@" ++ toString (p.line + 1) ++ "." ++ toString (p.col + 1)

example : (start.advance "a\r\nb\nc\rd".toList) = ⟨8, 3, 1⟩ := by decide
example : (start.advance "λx".toList) = ⟨3, 0, 2⟩ := by decide

end Pos
end Sexpr
