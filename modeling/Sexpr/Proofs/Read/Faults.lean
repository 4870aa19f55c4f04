import Mathlib.Control.Monad.Basic
import Sexpr.Proofs.Cursor
import Sexpr.Proofs.Read.Calls

/-!
# Where faults are reported

A fault is reported with the position of the cursor at the moment it was detected, and the
reader that a failed call leaves behind stands exactly there.  This file shows that the position
is always one that the text has: every reader met while reading a text from its start is a cursor
over that text in the sense of `Sexpr.Cursor.Over`, so its position is the byte size, line breaks
and column of what it has read, and it never stands between a carriage return and its line feed.
What each fault says about the character it names is then checked where it is raised
(`Sexpr.Reader.Raises`), and passes unchanged up to the caller.

Two facts about literals carry the first part.  A cursor only ever moves by whole units, so the
reader moves past an atom, a string literal or a single delimiter only where no carriage return
is cut from its line feed: `Sexpr.Literal.bareAtom_whole`, `Sexpr.Literal.stringBody_last`.

## What is here

* `Sexpr.Reader.Over`: a reader over a text, with one lemma per step of reading, and
  `Sexpr.Reader.over_expr`: reading keeps it.
* `Sexpr.Fault.Fits`: what a fault says about the text left where it is reported.
* `Sexpr.Reader.fits_of_error`, `Sexpr.Reader.document_fits`: faults fit the text where they are
  reported.
* `Sexpr.parse_error_position`: **every syntax error agrees with the text**.
-/

set_option autoImplicit false

namespace Sexpr

open Text

/-! ## Literals end at unit boundaries -/

namespace Literal

theorem take_bareAtom_ne_nil {r : List Char} (hp : (bareAtom r).2 ≠ 0) :
    r.take (bareAtom r).2 ≠ [] := by
  rw [Ne, List.take_eq_nil_iff, not_or]
  refine ⟨hp, ?_⟩
  rintro rfl
  exact hp rfl

/-- A bare atom never ends between a carriage return and its line feed: a carriage return in it
is escaped, and an escaped one is taken with its line feed. -/
theorem bareAtom_whole (cs : List Char) :
    ¬ BreaksPair (cs.take (bareAtom cs).2) (cs.drop (bareAtom cs).2) := by
  induction cs using bareAtom.induct with
  | case1 => simp [bareAtom, BreaksPair]
  | case2 => simp [bareAtom, BreaksPair]
  | case3 r ih =>
    simp only [bareAtom, List.take_succ_cons, List.drop_succ_cons]
    by_cases hp : (bareAtom r).2 = 0
    · simp [hp, BreaksPair]
    · rwa [breaksPair_cons_iff _ (by simp), breaksPair_cons_iff _ (by simp),
        breaksPair_cons_iff _ (take_bareAtom_ne_nil hp)]
  | case4 c r hc ih =>
    rw [bareAtom.eq_4 c r hc]
    simp only [List.take_succ_cons, List.drop_succ_cons]
    by_cases hp : (bareAtom r).2 = 0
    · -- the escaped character is the last one taken; it is no carriage return before a line feed
      rw [hp, List.take_zero, List.drop_zero, breaksPair_cons_iff _ (by simp),
        breaksPair_singleton_iff]
      rintro ⟨rfl, hlf⟩
      obtain ⟨r', rfl⟩ : ∃ r', r = '\n' :: r' := by
        cases r with
        | nil => simp at hlf
        | cons d r' => exact ⟨r', by simpa using hlf⟩
      exact hc r' rfl rfl
    · rwa [breaksPair_cons_iff _ (by simp), breaksPair_cons_iff _ (take_bareAtom_ne_nil hp)]
  | case5 c r hc₁ hc₂ hc₃ hend =>
    rw [bareAtom.eq_5 c r hc₁ hc₂ hc₃, if_pos hend]
    simp [BreaksPair]
  | case6 c r hc₁ hc₂ hc₃ hend ih =>
    rw [bareAtom.eq_5 c r hc₁ hc₂ hc₃, if_neg hend]
    simp only [List.take_succ_cons, List.drop_succ_cons]
    by_cases hp : (bareAtom r).2 = 0
    · -- a character that does not end an atom is no carriage return
      have hcr : c ≠ '\r' := by
        rintro rfl
        exact hend (by decide)
      simp [hp, BreaksPair, hcr]
    · rwa [breaksPair_cons_iff _ (take_bareAtom_ne_nil hp)]

/-- A string body ends with its closing quote. -/
theorem stringBody_last {cs t : List Char} {n : Nat} (h : stringBody cs = some (t, n)) :
    ∃ a, cs.take n = a ++ ['"'] := by
  induction cs using stringBody.induct generalizing t n with
  | case1 => simp [stringBody] at h
  | case2 r =>
    simp only [stringBody, Option.some.injEq, Prod.mk.injEq] at h
    obtain ⟨-, rfl⟩ := h
    exact ⟨[], rfl⟩
  | case3 => simp [stringBody] at h
  | case4 c r ih =>
    rw [stringBody.eq_4] at h
    obtain ⟨⟨t', n'⟩, hr, hp⟩ := Option.map_eq_some_iff.1 h
    simp only [Prod.mk.injEq] at hp
    obtain ⟨-, rfl⟩ := hp
    obtain ⟨a, ha⟩ := ih hr
    exact ⟨'\\' :: c :: a, by simp [ha]⟩
  | case5 c r hq hb hc ih =>
    rw [stringBody.eq_5 c r hq hb hc] at h
    obtain ⟨⟨t', n'⟩, hr, hp⟩ := Option.map_eq_some_iff.1 h
    simp only [Prod.mk.injEq] at hp
    obtain ⟨-, rfl⟩ := hp
    obtain ⟨a, ha⟩ := ih hr
    exact ⟨c :: a, by simp [ha]⟩

end Literal

/-! ## Readers over a text -/

namespace Cursor

/-- Moving past the first `n` characters keeps a cursor over its text, if it cuts no pair. -/
theorem Over.skip_take {t pre : List Char} {c : Cursor} (h : c.Over t pre) {n : Nat}
    (hn : n ≤ c.rest.length) (hw : ¬ BreaksPair (c.rest.take n) (c.rest.drop n)) :
    (c.skip n).Over t (pre ++ c.rest.take n) := by
  have hskip := h.skip (List.take_append_drop n c.rest) hw
  rwa [List.length_take_of_le hn] at hskip

/-- Moving past one character that is not a carriage return keeps a cursor over its text. -/
theorem Over.skip_one {t pre : List Char} {c : Cursor} (h : c.Over t pre) {ch : Char}
    (hp : c.peek? = some ch) (hcr : ch ≠ '\r') : (c.skip 1).Over t (pre ++ [ch]) := by
  obtain ⟨rest, hrest⟩ := List.head?_eq_some_iff.1 hp
  have hskip := h.skip_take (n := 1) (by simp [hrest])
    (by simp [hrest, breaksPair_singleton_iff, hcr])
  simpa [hrest] using hskip

end Cursor

/-- A quote shorthand is one of its three characters. -/
theorem QuoteKind.ofChar?_eq_some {c : Char} {k : QuoteKind} (h : QuoteKind.ofChar? c = some k) :
    c = '\'' ∨ c = '\x60' ∨ c = ',' := by
  unfold QuoteKind.ofChar? at h
  split at h
  · exact .inl rfl
  · exact .inr (.inl rfl)
  · exact .inr (.inr rfl)
  · cases h

/-- What starts a quoted form is a character that stands for a quote kind on its own. -/
theorem Opening.ofChar?_of_quote {c : Option Char} {k : QuoteKind} (h : Opening.of c = .quote k) :
    ∃ ch, c = some ch ∧ QuoteKind.ofChar? ch = some k := by
  cases c with
  | none => simp [Opening.of] at h
  | some ch =>
    refine ⟨ch, rfl, ?_⟩
    simp only [Opening.of] at h
    split at h
    · rename_i k' hk
      cases h
      exact hk
    · split at h <;> cases h

theorem QuoteKind.ne_cr_of_ofChar? {c : Char} {k : QuoteKind} (h : QuoteKind.ofChar? c = some k) :
    c ≠ '\r' := by
  rcases QuoteKind.ofChar?_eq_some h with rfl | rfl | rfl <;> decide

namespace Reader

/-- The reader is somewhere over the text `t`: its cursor has read a part of `t` that does not
end inside a pair, and its position is where that part ends. -/
def Over (t : List Char) (r : Reader) : Prop := ∃ pre, r.cursor.Over t pre

theorem over_start (t : String) (limits : Limits) : (start t limits).Over t.toList :=
  ⟨[], Cursor.over_start t⟩

section Steps

variable {t : List Char}

theorem Over.skipBlank {r : Reader} (h : r.Over t) : r.skipBlank.Over t := by
  obtain ⟨pre, h⟩ := h
  obtain ⟨more, hmore⟩ := h.skipBlank
  exact ⟨_, hmore⟩

theorem Over.skip_one {r : Reader} (h : r.Over t) {ch : Char} (hp : r.peek? = some ch)
    (hcr : ch ≠ '\r') : (r.skip 1).Over t := by
  obtain ⟨pre, h⟩ := h
  exact ⟨_, h.skip_one hp hcr⟩

theorem Over.enter {r : Reader} (h : r.Over t) {ch : Char} (hp : r.peek? = some ch)
    (hcr : ch ≠ '\r') : r.enter.Over t :=
  h.skip_one hp hcr

theorem Over.leave {r : Reader} (h : r.Over t) {ch : Char} (hp : r.peek? = some ch)
    (hcr : ch ≠ '\r') : r.leave.Over t :=
  h.skip_one hp hcr

theorem Over.openQuote {r : Reader} {k : QuoteKind} (h : r.Over t)
    (hc : Opening.of r.peek? = .quote k) : (r.openQuote k).state.Over t := by
  obtain ⟨c, hp, hk⟩ := Opening.ofChar?_of_quote hc
  have he := h.enter hp (QuoteKind.ne_cr_of_ofChar? hk)
  unfold Reader.openQuote
  split
  · exact h
  · split
    · rename_i hat
      exact (he.skip_one hat.2 (by decide)).skipBlank
    · exact he.skipBlank

theorem Over.openList {r : Reader} (h : r.Over t) : r.openList.state.Over t := by
  unfold Reader.openList
  split
  · rename_i hp
    split
    · exact h
    · exact h.enter hp (by decide)
  · exact h

theorem Over.closeList {r : Reader} (h : r.Over t) : r.closeList.state.Over t := by
  unfold Reader.closeList
  split
  · rename_i hp
    exact h.leave hp (by decide)
  · exact h

/-- A string literal is read up to its closing quote, or to the end of the text. -/
theorem Over.string {r : Reader} (h : r.Over t) (hp : r.peek? = some '"') :
    r.string.state.Over t := by
  obtain ⟨pre, h⟩ := h
  obtain ⟨body, hrest⟩ := List.head?_eq_some_iff.1 hp
  unfold Reader.string
  cases hs : Literal.stringBody (r.cursor.rest.drop 1) with
  | some p =>
    obtain ⟨s, n⟩ := p
    rw [hrest, List.drop_succ_cons, List.drop_zero] at hs
    obtain ⟨a, ha⟩ := Literal.stringBody_last hs
    have hle := Literal.stringBody_spanned_le hs
    have hlast : (r.cursor.rest.take (n + 1)).getLast? = some '"' := by
      rw [hrest, List.take_succ_cons, ha, ← List.cons_append, List.getLast?_concat]
    refine ⟨_, h.skip_take (n := n + 1) (by simp [hrest]; omega) fun hb => ?_⟩
    rw [BreaksPair, hlast] at hb
    exact absurd hb.1 (by decide)
  | none =>
    exact ⟨_, h.skip_take (n := r.size) (Nat.le_refl _) (by simp [size, BreaksPair])⟩

theorem Over.bare {r : Reader} (h : r.Over t) : r.bare.state.Over t := by
  obtain ⟨pre, h⟩ := h
  exact ⟨_, h.skip_take (Literal.bareAtom_spanned_le _) (Literal.bareAtom_whole _)⟩

theorem Over.atom {r : Reader} (h : r.Over t) : r.atom.state.Over t := by
  unfold Reader.atom
  split
  · rename_i hp
    exact h.string hp
  · exact h.bare

theorem Over.closeQuote {k : QuoteKind} {body : Reply (Option Value)} (h : body.state.Over t) :
    (closeQuote k body).state.Over t := by
  unfold Reader.closeQuote
  split
  · exact h
  · exact h
  · exact h

theorem Over.finishList {body : Reply (List Value)} (h : body.state.Over t) :
    (finishList body).state.Over t := by
  unfold Reader.finishList
  split
  · exact h
  · exact h.closeList

theorem Over.replySkipBlank {α : Type} {rep : Reply α} (h : rep.state.Over t) :
    rep.skipBlank.state.Over t := by
  unfold Reply.skipBlank
  split
  · exact h.skipBlank
  · exact h

end Steps

/-- **Reading keeps a reader over its text**: wherever reading an expression, or the items of a
list, stops, the reader is still over the text it started on. -/
theorem over_expr (t : List Char) :
    (∀ r : Reader, r.Over t → (expr r).1.state.Over t) ∧
    (∀ r : Reader, r.Over t → (items r).1.state.Over t) := by
  refine read_induction _ _ ?leaf ?quote ?list ?items
  case leaf =>
    intro r hc h
    rw [expr_of_leaf hc]
    exact h.skipBlank.atom.replySkipBlank
  case quote =>
    intro r k hc ih h
    cases ho : (r.skipBlank.openQuote k).result with
    | error e =>
      rw [expr_of_quote_error hc ho]
      exact h.skipBlank.openQuote hc
    | ok k' =>
      rw [expr_of_quote hc ho]
      exact (ih k' ho (h.skipBlank.openQuote hc)).closeQuote.replySkipBlank
  case list =>
    intro r hc ih h
    cases ho : r.skipBlank.openList.result with
    | error e =>
      rw [expr_of_list_error hc ho]
      exact h.skipBlank.openList
    | ok u =>
      rw [expr_of_list hc ho]
      exact (ih ho h.skipBlank.openList).finishList.replySkipBlank
  case items =>
    intro r hexpr ih h
    cases he : (expr r).1.result with
    | error e =>
      rw [items_of_error he]
      exact hexpr h
    | ok o =>
      cases o with
      | none =>
        rw [items_of_none he]
        exact hexpr h
      | some v =>
        rw [items_of_some he]
        exact ih v he (hexpr h)

theorem Over.afterExprs {t : List Char} {r : Reader} (h : r.Over t) (j : Nat) :
    (r.afterExprs j).Over t := by
  induction j with
  | zero => exact h
  | succ j ih =>
    rw [afterExprs_succ]
    exact (over_expr t).1 _ ih

end Reader

/-! ## What a fault says about the text -/

/-- What a fault says about the text left where it is reported: a string literal or an empty
input is reported at the end; a superfluous character, a character seen where a closing
parenthesis or a quoted form was wanted, and a refused opening are reported at that character;
and no list is ever expected where there is no opening parenthesis. -/
def Fault.Fits : Fault → List Char → Prop
  | .unterminatedString, rest => rest = []
  | .expectedOpen _, _ => False
  | .expectedClose seen, rest => seen = rest.head?
  | .missingQuoted seen _, rest => seen = rest.head?
  | .superfluous c, rest => rest.head? = some c ∧ isBlank c = false
  | .emptyInput, rest => rest = []
  | .nestingTooDeep, rest =>
    rest.head? = some '(' ∨ rest.head? = some '\'' ∨ rest.head? = some '\x60' ∨
      rest.head? = some ','

namespace Reader

/-- A leaf fails only as a string literal that the input ends inside, at the end. -/
theorem atom_of_error {r : Reader} {e : SyntaxError} (h : r.atom.result = .error e) :
    r.atom.state.cursor.rest = [] ∧ e = ⟨.unterminatedString, r.atom.state.cursor.pos⟩ := by
  unfold atom at h ⊢
  by_cases hp : r.peek? = some '"'
  · rw [if_pos hp] at h ⊢
    unfold string at h ⊢
    cases hs : Literal.stringBody (r.cursor.rest.drop 1) with
    | some p =>
      obtain ⟨s, n⟩ := p
      rw [hs] at h
      cases h
    | none =>
      rw [hs] at h
      cases h
      exact ⟨by simp [fail, size], rfl⟩
  · rw [if_neg hp] at h
    cases h

/-- **A fault fits the text where it is raised**, and is reported where the reader stops. -/
theorem Raises.fits {s : Reader} {i : Nat} {e : SyntaxError} (h : s.Raises i e) :
    e.pos = (expr s).1.state.cursor.pos ∧ e.fault.Fits (expr s).1.state.cursor.rest := by
  cases h with
  | leaf hc h =>
    rw [expr_of_leaf hc, Reply.skipBlank_of_error h]
    obtain ⟨hrest, rfl⟩ := atom_of_error h
    exact ⟨rfl, hrest⟩
  | quoteRefused hc h =>
    obtain ⟨-, hstate, rfl⟩ := openQuote_of_error h
    rw [expr_of_quote_error hc h, hstate]
    obtain ⟨c, hp, hk⟩ := Opening.ofChar?_of_quote hc
    refine ⟨rfl, ?_⟩
    rw [peek?_eq] at hp
    simp only [Fault.Fits, hp]
    rcases QuoteKind.ofChar?_eq_some hk with rfl | rfl | rfl <;> simp
  | listRefused hc h =>
    obtain ⟨hstate, ⟨hp, -, rfl⟩ | ⟨hp, -⟩⟩ := openList_of_error h
    · rw [expr_of_list_error hc h, hstate]
      exact ⟨rfl, .inl hp⟩
    · exact absurd (Opening.peek_of_list hc) hp
  | quoteEmpty hc ho h =>
    rw [expr_of_quote hc ho, closeQuote_of_none h, Reply.skipBlank_of_error rfl]
    exact ⟨rfl, rfl⟩
  | listUnclosed hc ho h hclose =>
    obtain ⟨hstate, -, rfl⟩ := closeList_of_error hclose
    rw [expr_of_list hc ho, finishList_of_ok h, hclose, Reply.skipBlank_of_error rfl, hstate]
    exact ⟨rfl, rfl⟩

/-- A fault that reading an expression gives fits the text where the reader stops. -/
theorem fits_of_error {r : Reader} {e : SyntaxError} (h : (expr r).1.result = .error e) :
    e.pos = (expr r).1.state.cursor.pos ∧ e.fault.Fits (expr r).1.state.cursor.rest := by
  obtain ⟨n, s, i, hcalls, hraises⟩ := raises_of_error.1 r e h
  rw [hcalls.expr_of_error hraises.result_eq.1]
  exact hraises.fits

/-- A fault in reading a whole document fits the text where it was detected: after the
expression, or after the blanks that follow it. -/
theorem document_fits {t : List Char} {r : Reader} (hr : r.Over t) {e : SyntaxError}
    (h : r.document.result = .error e) :
    ∃ s : Reader, s.Over t ∧ e.pos = s.cursor.pos ∧ e.fault.Fits s.cursor.rest := by
  have hover := (over_expr t).1 r hr
  unfold document at h
  cases he : (expr r).1.result with
  | error e' =>
    rw [he] at h
    cases h
    exact ⟨_, hover, fits_of_error he⟩
  | ok o =>
    rw [he] at h
    dsimp only at h
    -- what follows the expression and its blanks decides
    cases hp : (expr r).1.state.skipBlank.peek? with
    | some c =>
      rw [hp] at h
      cases h
      refine ⟨_, hover.skipBlank, rfl, ?_, ?_⟩
      · rw [← peek?_eq, hp]
      · rw [peek?_eq, rest_skipBlank] at hp
        exact dropBlank_head _ c hp
    | none =>
      rw [hp] at h
      cases o with
      | some v => cases h
      | none =>
        cases h
        refine ⟨_, hover.skipBlank, rfl, ?_⟩
        rw [peek?_eq] at hp
        exact List.head?_eq_none_iff.1 hp

end Reader

open Reader

/-- **Every syntax error agrees with the text.**  When reading `t` fails, the error is reported
at a place that cuts `t` into a part read and a part left, never between a carriage return and
its line feed; its position is the byte size of the part read, the line breaks in it and the
characters after the last of them, so it is the position the cursor has at that offset; the
offset is the end of `t` exactly when nothing is left; and the fault fits the characters left:
an unterminated string literal and an empty input are at the end, a superfluous character and
the character seen where a closing parenthesis or a quoted form was wanted are the character
there, a refused opening is at its parenthesis or quote character, and a list is never expected
where none starts. -/
theorem parse_error_position {t : String} {m : Nat} {e : SyntaxError}
    (h : parse t ⟨m⟩ = .error e) :
    ∃ pre rest, t.toList = pre ++ rest ∧ ¬ BreaksPair pre rest ∧
      e.pos = ⟨(String.ofList pre).utf8ByteSize, lineBreaks pre, column pre⟩ ∧
      (e.pos.offset = t.utf8ByteSize ↔ rest = []) ∧ e.fault.Fits rest := by
  obtain ⟨s, ⟨pre, hover⟩, hpos, hfits⟩ := document_fits (over_start t ⟨m⟩) h
  have hat : e.pos = ⟨(String.ofList pre).utf8ByteSize, lineBreaks pre, column pre⟩ := by
    rw [hpos, hover.pos_eq, Pos.start_advance]
  refine ⟨pre, s.cursor.rest, hover.split.symm, hover.whole, hat, ?_, hfits⟩
  rw [hpos]
  exact hover.offset_eq_size_iff

/-- An unterminated string literal on the second line: the error is at the end, after a carriage
return with its line feed that counts as one line break. -/
theorem parse_error_position_unterminated :
    parse "(a\r\n  \"x" ⟨500⟩ = .error ⟨.unterminatedString, ⟨8, 1, 4⟩⟩ ∧
      ∃ pre rest, "(a\r\n  \"x".toList = pre ++ rest ∧ ¬ BreaksPair pre rest ∧
        (⟨8, 1, 4⟩ : Pos) = ⟨(String.ofList pre).utf8ByteSize, lineBreaks pre, column pre⟩ ∧
        ((8 : Nat) = "(a\r\n  \"x".utf8ByteSize ↔ rest = []) ∧ Fault.unterminatedString.Fits rest :=
  have h : parse "(a\r\n  \"x" ⟨500⟩ = .error ⟨.unterminatedString, ⟨8, 1, 4⟩⟩ := by
    decide +kernel
  ⟨h, parse_error_position h⟩

end Sexpr
