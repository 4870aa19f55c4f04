import Sexpr.Position
import Sexpr.Text.Blank

/-!
# A cursor over a text

A cursor is the part of a text not read yet, together with the position where it starts. It
moves by whole *units*: one character, or a carriage return with the line feed that follows it,
which count as one line break and are never separated.

## Main definitions

* `Sexpr.Cursor.splitUnit`, `Sexpr.Cursor.spanUnits`: units at the front of a text.
* `Sexpr.Cursor.skip`: the one way a cursor moves, past the first characters of the rest; every
  operation below is built on it, so the position always describes the characters read.
* `Sexpr.Cursor.next?`, `Sexpr.Cursor.takeUntil`, `Sexpr.Cursor.skipBlank`: reading.
-/

set_option autoImplicit false

namespace Sexpr

/-- The part of a text not read yet, and the position where it starts. -/
structure Cursor where
  /-- The characters not read yet. -/
  rest : List Char
  /-- Where they start in the text. -/
  pos : Pos
deriving DecidableEq, Repr

namespace Cursor

/-- A cursor at the start of `text`. -/
def start (text : String) : Cursor := ⟨text.toList, Pos.start⟩

/-- Whether everything has been read. -/
def atEnd (c : Cursor) : Bool := c.rest.isEmpty

/-- The next character, if any, without reading it. -/
def peek? (c : Cursor) : Option Char := c.rest.head?

/-- Moves past the next `n` characters. -/
def skip (c : Cursor) (n : Nat) : Cursor := ⟨c.rest.drop n, c.pos.advance (c.rest.take n)⟩

/-- The first unit of a text and what follows it: a carriage return with the line feed after
it, or else one character. -/
def splitUnit : List Char → Option (List Char × List Char)
  | [] => none
  | '\r' :: '\n' :: r => some (['\r', '\n'], r)
  | c :: r => some ([c], r)

/-- Reads the next unit; `none` at the end, where nothing moves. -/
def next? (c : Cursor) : Option (List Char × Cursor) :=
  match splitUnit c.rest with
  | none => none
  | some (u, _) => some (u, c.skip u.length)

/-- The longest run of whole units at the front of a text whose first characters `stop`
refuses, and what follows it. Only the first character of a unit is tested. -/
def spanUnits (stop : Char → Bool) : List Char → List Char × List Char
  | [] => ([], [])
  | '\r' :: '\n' :: r =>
    if stop '\r' then ([], '\r' :: '\n' :: r)
    else
      let p := spanUnits stop r
      ('\r' :: '\n' :: p.1, p.2)
  | c :: r =>
    if stop c then ([], c :: r)
    else
      let p := spanUnits stop r
      (c :: p.1, p.2)

/-- Reads units until `stop` accepts the next character or the text ends, and returns what it
read. -/
def takeUntil (stop : Char → Bool) (c : Cursor) : List Char × Cursor :=
  let taken := (spanUnits stop c.rest).1
  (taken, c.skip taken.length)

/-- Reads the blanks at the cursor. -/
def skipBlank (c : Cursor) : Cursor :=
  (c.takeUntil fun ch => !Text.isBlank ch).2

/-- What a run of units leaves is what follows the run. -/
theorem spanUnits_append (stop : Char → Bool) (cs : List Char) :
    (spanUnits stop cs).1 ++ (spanUnits stop cs).2 = cs := by
  induction cs using spanUnits.induct stop <;> simp_all [spanUnits]

example : (start "a\r\nb").takeUntil (· == '\n') = ("a\r\nb".toList, ⟨[], ⟨4, 1, 1⟩⟩) := by
  decide

end Cursor
end Sexpr
