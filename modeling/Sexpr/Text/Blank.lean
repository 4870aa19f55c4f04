/-!
# Blank characters

Blanks separate the tokens of an expression and are otherwise ignored. The set is the Unicode
`White_Space` property without U+0085 (next line) and with U+FEFF (zero width no-break space,
the byte order mark): 25 code points in ten ranges.

## Main definitions

* `Sexpr.Text.blankRanges`: the set as closed ranges of code points, ascending and apart.
* `Sexpr.Text.isBlank`: membership in those ranges.
-/

set_option autoImplicit false

namespace Sexpr
namespace Text

/-- The blank characters as closed ranges of code points, ascending and apart. -/
def blankRanges : List (Nat × Nat) :=
  [(0x09, 0x0D), (0x20, 0x20), (0xA0, 0xA0), (0x1680, 0x1680), (0x2000, 0x200A),
    (0x2028, 0x2029), (0x202F, 0x202F), (0x205F, 0x205F), (0x3000, 0x3000), (0xFEFF, 0xFEFF)]

/-- Whether a character separates tokens. -/
def isBlank (c : Char) : Bool :=
  blankRanges.any fun r => decide (r.1 ≤ c.toNat) && decide (c.toNat ≤ r.2)

example : blankRanges.length = 10 ∧
    blankRanges.foldr (fun r n => r.2 + 1 - r.1 + n) 0 = 25 := by
  decide

example : isBlank '\u0085' = false ∧ isBlank '\uFEFF' = true ∧ isBlank 'a' = false := by decide

end Text
end Sexpr
