import Mathlib
import Sexpr.Proofs.Escape
import Sexpr.Proofs.Read.Dispatch

/-!
# Reading escaped leaves

The printer escapes the text of an atom and of a string literal so that the reader takes it back.
This file says so at the level of the reader's leaf steps, `Sexpr.Reader.atom` and
`Sexpr.Reader.string`: from a reader whose text left starts with an escaped atom, or with a string
literal written with the escape table, the step reads the text back and stops right after it, with
whatever follows left to read.

A string literal always reads back: the escape table writes neither its closing quote nor a line
break raw, so nothing inside it can end it early or pair up across an escape.

A bare atom reads back when what follows ends an atom without being a backslash, and also behind
the extra backslash that printing puts before an atom starting with `@` after a comma.  There is
one seam.  A backslash takes the *unit* after it, and a carriage return with a line feed after it
is one unit; so an atom whose last character is a carriage return, followed directly by a line
feed, reads back with the line feed taken into it (`atom_encodeAtom_cr`).  The statement for atoms
therefore excludes that cut (`Sexpr.Text.BreaksPair`).

## What is here

* `Sexpr.Reader.atom_encodeAtom`: **an escaped atom reads back**, unless a line feed follows its
  final carriage return; `atom_encodeAtom_cr`: with one, it does not.
* `Sexpr.Reader.string_encodeString`: **an escaped string literal reads back**.
-/

set_option autoImplicit false

namespace Sexpr

open Text Text.Escape

namespace Literal

/-- An escaped atom starts with a backslash or with its own first character, which does not end
an atom: never with a double quote. -/
theorem head_encodeAtom_ne_quote (c : Char) (s rest : List Char) :
    (encodeAtom (c :: s) ++ rest).head? ≠ some '"' := by
  rw [encodeAtom_cons]
  by_cases hc : endsAtom c
  · simp [hc]
  · simp only [hc, Bool.false_eq_true, if_false, List.cons_append, List.head?_cons, ne_eq,
      Option.some.injEq]
    rintro rfl
    exact hc rfl

end Literal

namespace Reader

/-- **An escaped atom reads back.**  Let `s` be a non-empty text and `r` a text that is empty or
starts with a character that ends an atom and is not a backslash.  A reader whose text left is the
atom `s` escaped, followed by `r`, or that with one more backslash in front when `s` starts with
`@` (as printing writes it after a comma), reads the atom `s` and stops at the start of `r`,
provided that `s` does not end in a carriage return with `r` starting with a line feed. -/
theorem atom_encodeAtom {s : String} (hs : s ≠ "") {r : List Char}
    (hr : ∀ c, r.head? = some c → endsAtom c = true ∧ c ≠ '\\')
    (hpair : ¬ BreaksPair s.toList r) {pre : List Char}
    (hpre : pre = [] ∨ pre = ['\\'] ∧ s.toList.head? = some '@') (rd : Reader)
    (hrd : rd.cursor.rest = pre ++ encodeAtom s.toList ++ r) :
    rd.atom = (rd.skip (pre ++ encodeAtom s.toList).length).reply (some (.atom s)) ∧
      (rd.skip (pre ++ encodeAtom s.toList).length).cursor.rest = r := by
  obtain ⟨d, ds, hds⟩ : ∃ d ds, s.toList = d :: ds := by
    cases h : s.toList with
    | nil => exact absurd (String.toList_eq_nil_iff.mp h) hs
    | cons d ds => exact ⟨d, ds, rfl⟩
  -- the atom's text is read whole, backslash in front included
  have hread : Literal.bareAtom rd.cursor.rest = (s.toList, (pre ++ encodeAtom s.toList).length) := by
    rcases hpre with rfl | ⟨rfl, hat⟩
    · rw [hrd, List.nil_append]
      exact Literal.bareAtom_encodeAtom _ r hr hpair
    · have hd : d = '@' := by simpa [hds] using hat
      subst hd
      rw [hds] at hpair
      rw [hrd, hds, List.append_assoc, List.singleton_append,
        Literal.bareAtom_backslash_encodeAtom (by decide) ds r hr hpair]
      simp [Nat.add_comm]
  have hpeek : rd.peek? ≠ some '"' := by
    rw [peek?_eq, hrd]
    rcases hpre with rfl | ⟨rfl, -⟩
    · rw [hds, List.nil_append]
      exact Literal.head_encodeAtom_ne_quote d ds r
    · simp
  have hrest : (rd.skip (pre ++ encodeAtom s.toList).length).cursor.rest = r := by
    rw [rest_skip, hrd, List.drop_left]
  have hne : s.toList.isEmpty = false := by rw [hds]; rfl
  refine ⟨?_, hrest⟩
  rw [atom, if_neg hpeek, bare, hread]
  simp only [hne, Bool.false_eq_true, if_false, String.ofList_toList]

/-- A comma shorthand's atom `@a b`, escaped behind its extra backslash, before a closing
parenthesis. -/
theorem atom_encodeAtom_comma_at :
    (Reader.start "\\@a\\ b)x").atom =
        ((Reader.start "\\@a\\ b)x").skip 6).reply (some (.atom "@a b")) ∧
      ((Reader.start "\\@a\\ b)x").skip 6).cursor.rest = [')', 'x'] :=
  atom_encodeAtom (s := "@a b") (by decide) (r := [')', 'x'])
    (fun c hc => by cases hc; decide) (by decide) (.inr ⟨rfl, rfl⟩) _ (by decide)

/-- An atom ending in a carriage return, escaped, and followed by a line feed: the backslash
takes the carriage return and the line feed as one unit, and the atom reads back with both, not
as itself, and stops past the line feed. -/
theorem atom_encodeAtom_cr :
    (Reader.start "a\\\r\n").cursor.rest = encodeAtom "a\r".toList ++ ['\n'] ∧
      (Reader.start "a\\\r\n").atom.result ≠ .ok (some (.atom "a\r")) ∧
      (Reader.start "a\\\r\n").atom.result = .ok (some (.atom "a\r\n")) ∧
      (Reader.start "a\\\r\n").atom.state.cursor.rest = [] := by
  have hres : (Reader.start "a\\\r\n").atom.result = .ok (some (.atom "a\r\n")) := by cbv
  refine ⟨by decide, ?_, hres, by cbv⟩
  rw [hres]
  simp

/-- **An escaped string literal reads back.**  A reader whose text left is a double quote, the
text `s` written with the escape table, a double quote and then `r`, reads the string literal `s`
and stops at the start of `r`. -/
theorem string_encodeString (s : String) (r : List Char) (rd : Reader)
    (hrd : rd.cursor.rest = '"' :: (encodeString s.toList ++ '"' :: r)) :
    rd.string = (rd.skip ((encodeString s.toList).length + 2)).reply (some (.string s)) ∧
      (rd.skip ((encodeString s.toList).length + 2)).cursor.rest = r := by
  refine ⟨?_, by simp [hrd]⟩
  rw [string, hrd, List.drop_one, List.tail_cons, Literal.stringBody_encodeString]
  simp [String.ofList_toList]

/-- A string literal with a quote, a line feed and a backslash in it, before more text. -/
theorem string_encodeString_escapes :
    (Reader.start "\"a\\\"\\n\\\\\" x").cursor.rest =
        '"' :: (encodeString "a\"\n\\".toList ++ '"' :: [' ', 'x']) ∧
      (Reader.start "\"a\\\"\\n\\\\\" x").string =
        ((Reader.start "\"a\\\"\\n\\\\\" x").skip 9).reply (some (.string "a\"\n\\")) :=
  ⟨by decide, (string_encodeString "a\"\n\\" [' ', 'x'] _ (by decide)).1⟩

end Reader
end Sexpr
