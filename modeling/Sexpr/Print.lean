import Sexpr.Layout
import Sexpr.Text.Escape

/-!
# Printing values

A value becomes a list of `Sexpr.Line`s: an atom or a string literal is one line, a list is its
opening parenthesis, its items one level deeper, and its closing parenthesis at its own level.
A quoted form in list style is printed as the list of its kind's name and its body; in shorthand
style the shorthand goes in front of the first line of the body, which stays at the same depth,
so that several shorthands can pile up there.

With escaping on, what is printed reads back as the value printed (with quoted forms spelt out
as lists in list style): atoms get a backslash before each character that would end them, string
literals get escape sequences, and an atom starting with `@` right after a comma shorthand gets a
backslash in front, since `,@` would read as the splicing shorthand.

## Main definitions

* `Sexpr.Value.lines`: the lines of a value at a depth, after some shorthands.
* `Sexpr.Value.render`, `Sexpr.Value.print`: the whole output, every line ending in a line feed.
-/

set_option autoImplicit false

namespace Sexpr
namespace Value

open Text

/-- The shorthands of a run of quote kinds, one after another. -/
def shorthands (ks : List QuoteKind) : List Char :=
  ks.flatMap fun k => k.shorthand.toList

/-- How the text of an atom is written after the shorthands `pre`. -/
def atomText (f : Layout) (pre : List QuoteKind) (s : String) : List Char :=
  if f.escape then
    (if pre.getLast? = some .unquote ∧ s.toList.head? = some '@' then ['\\'] else []) ++
      Escape.encodeAtom s.toList
  else s.toList

/-- How a string literal with text `s` is written, quotes included. -/
def stringText (f : Layout) (s : String) : List Char :=
  '"' :: ((if f.escape then Escape.encodeString s.toList else s.toList) ++ ['"'])

mutual

/-- The lines of a value printed at `depth`, with the shorthands `pre` in front of its first
line. -/
def lines (f : Layout) (depth : Nat) (pre : List QuoteKind) : Value → List Line
  | .atom s => [⟨depth, shorthands pre ++ atomText f pre s⟩]
  | .string s => [⟨depth, shorthands pre ++ stringText f s⟩]
  | .list vs => ⟨depth, shorthands pre ++ ['(']⟩ :: (linesItems f (depth + 1) vs ++ [⟨depth, [')']⟩])
  | .quoted k v =>
    match f.quoteStyle with
    | .list =>
      ⟨depth, shorthands pre ++ ['(']⟩ :: ⟨depth + 1, k.name.toList⟩ ::
        (lines f (depth + 1) [] v ++ [⟨depth, [')']⟩])
    | .shorthand => lines f depth (pre ++ [k]) v

/-- The lines of the items of a list, each printed at `depth` with no shorthands. -/
def linesItems (f : Layout) (depth : Nat) : List Value → List Line
  | [] => []
  | v :: vs => lines f depth [] v ++ linesItems f depth vs

end

/-- The characters of a printed value. -/
def render (f : Layout) (v : Value) : List Char :=
  ((v.lines f 0 []).map (Line.render f.width)).flatten

/-- A value printed with the layout `f`. -/
def print (f : Layout) (v : Value) : String :=
  String.ofList (v.render f)

example :
    (Value.quoted .unquote (.atom "@x")).print { Layout.standard with quoteStyle := .shorthand } =
      ",\\@x\n" := by
  decide

end Value
end Sexpr
