import Sexpr.Read.Literal
import Sexpr.Proofs.Position

/-!
# Escaping is undone by reading

The printer writes a text so that the reader gives it back: a string literal with the escape
sequences of `Sexpr.Text.Escape.letter?`, a bare atom with a backslash before every character that
would end it.  This file proves both directions meet, on the characters alone, with whatever
follows the literal.

For a string literal nothing can go wrong: the closing quote is never written raw inside, and
neither carriage return nor line feed is ever written raw, so no pair can form across the
escapes.  For a bare atom there is exactly one seam.  A backslash takes the next *unit*
literally, and a carriage return with a line feed after it is one unit; so an atom whose last
character is a carriage return, followed directly by a line feed, reads back with the line feed
swallowed.  `bareAtom_encodeAtom` therefore excludes that cut (`Sexpr.Text.BreaksPair`).

## What is here

* `Sexpr.Literal.stringBody_encodeString`: an escaped string body reads back, up to its closing
  quote.
* `Sexpr.Literal.bareAtom_encodeAtom`: an escaped atom reads back, up to the character that ends
  it, unless a line feed follows its final carriage return; `bareAtom_backslash_encodeAtom`: so
  does one behind one more backslash.
-/

set_option autoImplicit false

namespace Sexpr
namespace Literal

open Text Text.Escape

/-! ## String literals -/

theorem encodeString_cons (c : Char) (s : List Char) :
    encodeString (c :: s) =
      (match letter? c with
        | some l => ['\\', l]
        | none => [c]) ++ encodeString s :=
  rfl

/-- The characters that the table leaves raw are neither the closing quote nor the backslash. -/
theorem ne_of_letter?_eq_none {c : Char} (h : letter? c = none) : c ≠ '"' ∧ c ≠ '\\' := by
  constructor <;> (rintro rfl; simp [letter?] at h)

/-- **An escaped string body reads back** as the text it was written from, and spans the escaped
text with its closing quote. -/
theorem stringBody_encodeString (s rest : List Char) :
    stringBody (encodeString s ++ '"' :: rest) = some (s, (encodeString s).length + 1) := by
  induction s with
  | nil => simp [encodeString, stringBody]
  | cons c s ih =>
    rw [encodeString_cons]
    cases hl : letter? c with
    | some l =>
      simp only [List.cons_append, List.nil_append]
      rw [stringBody.eq_4, ih, resolve_letter? hl]
      simp only [Option.map_some, List.length_cons]
    | none =>
      obtain ⟨hq, hb⟩ := ne_of_letter?_eq_none hl
      simp only [List.cons_append, List.nil_append]
      rw [stringBody_of_ne hq hb, ih]
      simp only [Option.map_some, List.length_cons]

/-! ## Bare atoms -/

theorem encodeAtom_cons (c : Char) (s : List Char) :
    encodeAtom (c :: s) = (if endsAtom c then ['\\', c] else [c]) ++ encodeAtom s := by
  simp only [encodeAtom, List.flatMap_cons]

theorem endsAtom_backslash : endsAtom '\\' = true := by decide

/-- **An escaped atom reads back** as the text it was written from, and spans exactly the escaped
text, provided what follows ends it without being a backslash, and no line feed follows a final
carriage return of the atom. -/
theorem bareAtom_encodeAtom (s rest : List Char)
    (hrest : ∀ c, rest.head? = some c → endsAtom c = true ∧ c ≠ '\\')
    (hpair : ¬ BreaksPair s rest) :
    bareAtom (encodeAtom s ++ rest) = (s, (encodeAtom s).length) := by
  induction s with
  | nil =>
    cases rest with
    | nil => simp [encodeAtom, bareAtom]
    | cons c r =>
      obtain ⟨hc, hne⟩ := hrest c rfl
      rw [encodeAtom, List.flatMap_nil, List.nil_append, bareAtom_of_ne hne, if_pos hc]
      rfl
  | cons c s ih =>
    have hpair' : ¬ BreaksPair s rest := by
      by_cases hs : s = []
      · rw [hs]
        exact not_breaksPair_nil_left rest
      · rwa [← breaksPair_cons_iff rest hs]
    rw [encodeAtom_cons]
    by_cases hc : endsAtom c
    · -- `c` is escaped, and the backslash takes it alone: no line feed comes next when `c` is a
      -- carriage return
      have hunit : ∀ r', c = '\r' → encodeAtom s ++ rest = '\n' :: r' → False := by
        intro r' hcr he
        cases s with
        | nil =>
          rw [encodeAtom, List.flatMap_nil, List.nil_append] at he
          exact hpair ((breaksPair_singleton_iff c rest).mpr ⟨hcr, by simp [he]⟩)
        | cons d s =>
          -- an escaped atom starts with a backslash or a character that does not end it
          rw [encodeAtom_cons] at he
          by_cases hd : endsAtom d
          · simp [hd] at he
          · simp only [hd, Bool.false_eq_true, if_false, List.cons_append,
              List.cons.injEq] at he
            exact hd (he.1 ▸ by decide)
      simp only [if_pos hc, List.cons_append, List.nil_append]
      rw [bareAtom.eq_4 c _ hunit, ih hpair']
      simp only [List.length_cons]
    · have hne : c ≠ '\\' := fun h => hc (h ▸ endsAtom_backslash)
      simp only [hc, Bool.false_eq_true, if_false, List.cons_append, List.nil_append]
      rw [bareAtom_of_ne hne, if_neg hc]
      simp only [ih hpair', List.length_cons]

/-- An escaped atom that starts with a character which does not end an atom reads back behind
one more backslash: the backslash takes that character as it is. -/
theorem bareAtom_backslash_encodeAtom {c : Char} (hc : endsAtom c = false) (s rest : List Char)
    (hrest : ∀ d, rest.head? = some d → endsAtom d = true ∧ d ≠ '\\')
    (hpair : ¬ BreaksPair (c :: s) rest) :
    bareAtom ('\\' :: (encodeAtom (c :: s) ++ rest)) = (c :: s, (encodeAtom (c :: s)).length + 1) := by
  have hcr : c ≠ '\r' := by
    rintro rfl
    cases hc
  have hpair' : ¬ BreaksPair s rest := by
    by_cases hs : s = []
    · rw [hs]
      exact not_breaksPair_nil_left rest
    · rwa [← breaksPair_cons_iff rest hs]
  rw [encodeAtom_cons, if_neg (by simp [hc]), List.singleton_append, List.cons_append,
    bareAtom.eq_4 c _ fun _ h _ => hcr h, bareAtom_encodeAtom s rest hrest hpair']
  simp

end Literal
end Sexpr
