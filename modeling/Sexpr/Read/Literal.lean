import Sexpr.Text.Escape

/-!
# Literals

The two leaves of an S-expression, read from the front of a list of characters: a bare atom and
the body of a string literal. Each reader returns the text it read and how many characters it
spans, so that the cursor can move past exactly those.

A bare atom runs until a character that ends it; a backslash takes the next character
literally, and a carriage return with the line feed after it as one. A string body runs to the
closing double quote; a backslash goes through the escape table.

## Main definitions

* `Sexpr.Literal.bareAtom`, with `bareAtom_spanned_le` and `bareAtom_spanned_pos`.
* `Sexpr.Literal.stringBody`, with `stringBody_spanned_le`.
* `Sexpr.Literal.bareAtom_of_ne`, `Sexpr.Literal.stringBody_of_ne`: the last case of each, at a
  character other than a backslash.
-/

set_option autoImplicit false

namespace Sexpr
namespace Literal

open Text

/-- The bare atom at the front of `cs`: its text, with the backslashes taken out, and how many
characters it spans. A backslash with nothing after it spans one character and adds nothing. -/
def bareAtom : List Char → List Char × Nat
  | [] => ([], 0)
  | ['\\'] => ([], 1)
  | '\\' :: '\r' :: '\n' :: r =>
    let p := bareAtom r
    ('\r' :: '\n' :: p.1, p.2 + 3)
  | '\\' :: c :: r =>
    let p := bareAtom r
    (c :: p.1, p.2 + 2)
  | c :: r =>
    if endsAtom c then ([], 0)
    else
      let p := bareAtom r
      (c :: p.1, p.2 + 1)

/-- The body of a string literal at the front of `cs`, just after its opening quote: the text,
with the escapes resolved, and how many characters it spans including the closing quote.
`none` when the input ends first. -/
def stringBody : List Char → Option (List Char × Nat)
  | [] => none
  | '"' :: _ => some ([], 1)
  | ['\\'] => none
  | '\\' :: c :: r => (stringBody r).map fun p => (Escape.resolve c :: p.1, p.2 + 2)
  | c :: r => (stringBody r).map fun p => (c :: p.1, p.2 + 1)

/-- The side conditions of the last case of `bareAtom` and `stringBody`: a character that is
neither a lone backslash at the end nor a backslash before another character is no backslash. -/
theorem ne_backslash {d : Char} {r : List Char} (hend : d = '\\' → r = [] → False)
    (hesc : ∀ e r', d = '\\' → r = e :: r' → False) : d ≠ '\\' := by
  rintro rfl
  cases r with
  | nil => exact hend rfl rfl
  | cons e r' => exact hesc e r' rfl rfl

/-- An atom read from a character other than a backslash: the character ends it, or is taken
as it is. -/
theorem bareAtom_of_ne {d : Char} (hd : d ≠ '\\') (r : List Char) :
    bareAtom (d :: r) =
      if endsAtom d then ([], 0) else (d :: (bareAtom r).1, (bareAtom r).2 + 1) :=
  bareAtom.eq_5 d r (fun h => absurd h hd) (fun _ h => absurd h hd) (fun _ _ h => absurd h hd)

/-- A closing parenthesis ends an atom before it starts. -/
theorem bareAtom_close (r : List Char) : bareAtom (')' :: r) = ([], 0) := by
  rw [bareAtom_of_ne (by decide), if_pos (by decide)]

/-- A string body goes on past a character other than a quote or a backslash, taken as it is. -/
theorem stringBody_of_ne {d : Char} (hq : d ≠ '"') (hd : d ≠ '\\') (r : List Char) :
    stringBody (d :: r) = (stringBody r).map fun p => (d :: p.1, p.2 + 1) :=
  stringBody.eq_5 d r hq (fun h => absurd h hd) (fun _ _ h => absurd h hd)

/-- A bare atom spans no more than there is. -/
theorem bareAtom_spanned_le (cs : List Char) : (bareAtom cs).2 ≤ cs.length := by
  induction cs using bareAtom.induct <;> simp_all [bareAtom]

/-- A bare atom with some text spans some characters. -/
theorem bareAtom_spanned_pos {cs : List Char} (h : (bareAtom cs).1 ≠ []) :
    0 < (bareAtom cs).2 := by
  induction cs using bareAtom.induct <;> simp_all [bareAtom]

/-- A string body spans no more than there is. -/
theorem stringBody_spanned_le {cs t : List Char} {n : Nat} (h : stringBody cs = some (t, n)) :
    n ≤ cs.length := by
  induction cs using stringBody.induct generalizing t n <;> simp_all [stringBody] <;>
    grind

example : bareAtom "a\\ b(c".toList = ("a b".toList, 4) := by decide

example : stringBody "a\\nb\" x".toList = some ("a\nb".toList, 5) := by decide

end Literal
end Sexpr
