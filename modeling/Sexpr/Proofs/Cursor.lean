import Mathlib
import Sexpr.Cursor
import Sexpr.Proofs.Position

/-!
# The position invariant of a cursor

A cursor over a text `t` keeps only what is left of `t` and a position.  This file shows that,
however it is moved, the two always describe the same split of `t`: a part `pre` already read
and the rest, with the position exactly the byte size, the line breaks and the column of `pre`
(`Sexpr.Pos.start_advance`).

Everything rests on one fact about units.  `Sexpr.Pos.advance_append` joins two readings only
when the cut between them does not separate a carriage return from its line feed, and a cursor
only ever moves by whole units — `Cursor.splitUnit` and `Cursor.spanUnits` never cut a pair
(`splitUnit_whole`, `spanUnits_whole`).  So the invariant `Cursor.Over` carries, besides the
split and the position, that `pre` does not end between the two.

## What is here

* `Sexpr.Cursor.Over`: the invariant, with one lemma per way of moving (`Over.skip`, `Over.next?`,
  `Over.takeUntil`, `Over.skipBlank`).
* `Sexpr.Cursor.Op`, `Sexpr.Cursor.apply`, `Sexpr.Cursor.run`: the requests a caller can make
  of a cursor, and a run of them.
* `Sexpr.Cursor.over_run`: the invariant holds after every run.
* `Sexpr.Cursor.run_position`: **what the position of a cursor is** after any run from the start
  of a text, and what reading a unit there gives.
-/

set_option autoImplicit false

namespace Sexpr
namespace Cursor

open Text

/-! ## Units never cut a pair -/

theorem splitUnit_eq_none_iff (cs : List Char) : splitUnit cs = none ↔ cs = [] := by
  rw [splitUnit.eq_def]
  split <;> simp

/-- The unit at the front of a text is a carriage return with its line feed, or one character,
and taking it leaves no line feed behind its carriage return. -/
theorem splitUnit_whole {cs u r : List Char} (h : splitUnit cs = some (u, r)) :
    u ++ r = cs ∧ ¬ BreaksPair u r ∧ (u = ['\r', '\n'] ∨ ∃ ch, u = [ch]) := by
  rw [splitUnit.eq_def] at h
  split at h
  · exact absurd h (by simp)
  · rename_i r'
    obtain ⟨rfl, rfl⟩ := Prod.mk.inj (Option.some.inj h)
    exact ⟨rfl, by simp [BreaksPair], Or.inl rfl⟩
  · rename_i c r' hc
    obtain ⟨rfl, rfl⟩ := Prod.mk.inj (Option.some.inj h)
    refine ⟨rfl, fun hb => ?_, Or.inr ⟨c, rfl⟩⟩
    obtain ⟨hcr, hlf⟩ := (breaksPair_singleton_iff c r').mp hb
    cases r' with
    | nil => simp at hlf
    | cons d r'' =>
      simp only [List.head?_cons, Option.some.injEq] at hlf
      exact hc r'' hcr (by rw [hlf])

/-- A run of whole units ends at a unit boundary. -/
theorem spanUnits_whole (stop : Char → Bool) (cs : List Char) :
    ¬ BreaksPair (spanUnits stop cs).1 (spanUnits stop cs).2 := by
  induction cs using spanUnits.induct stop with
  | case1 => simp [spanUnits, BreaksPair]
  | case2 r hs => simp [spanUnits, hs, BreaksPair]
  | case3 r hs ih =>
    simp only [spanUnits, hs, Bool.false_eq_true, if_false]
    by_cases hp : (spanUnits stop r).1 = []
    · simp [BreaksPair, hp]
    · rwa [breaksPair_cons_iff _ (List.cons_ne_nil _ _), breaksPair_cons_iff _ hp]
  | case4 c r hc hs => simp [spanUnits.eq_def, hs, BreaksPair]
  | case5 c r hc hs ih =>
    rw [spanUnits.eq_def]
    split
    · simp [BreaksPair]
    · rename_i r' heq
      exact absurd (List.cons.inj heq).2 fun h => hc r' (List.cons.inj heq).1 h
    · rename_i c' r' _ heq
      obtain ⟨rfl, rfl⟩ := List.cons.inj heq
      simp only [hs, Bool.false_eq_true, if_false]
      by_cases hp : (spanUnits stop r).1 = []
      · -- the run is `c` alone; it stops at the head of `r`, which follows no pair
        have hr : (spanUnits stop r).2 = r := by
          simpa [hp] using spanUnits_append stop r
        rw [hp, hr, breaksPair_singleton_iff]
        rintro ⟨rfl, hlf⟩
        cases r with
        | nil => simp at hlf
        | cons d r'' =>
          simp only [List.head?_cons, Option.some.injEq] at hlf
          exact hc r'' rfl (by rw [hlf])
      · rwa [breaksPair_cons_iff _ hp]

/-! ## The invariant -/

/-- `c` is a cursor over the text `t` that has read `pre`: what it has left is the rest of `t`,
`pre` does not end between a carriage return and its line feed, and the position is where
reading `pre` from the start of a text lands. -/
structure Over (t pre : List Char) (c : Cursor) : Prop where
  /-- The text is what was read followed by what is left. -/
  split : pre ++ c.rest = t
  /-- The cut between them does not separate a carriage return from its line feed. -/
  whole : ¬ BreaksPair pre c.rest
  /-- The position is that of the end of `pre`. -/
  pos_eq : c.pos = Pos.start.advance pre

theorem over_start (t : String) : (start t).Over t.toList [] :=
  ⟨rfl, not_breaksPair_nil_left _, rfl⟩

/-- Moving past a piece `u` at the front of what is left keeps the invariant, unless the piece
ends inside a pair. -/
theorem Over.skip {t pre : List Char} {c : Cursor} (h : c.Over t pre) {u r : List Char}
    (hsplit : u ++ r = c.rest) (hu : ¬ BreaksPair u r) :
    (c.skip u.length).Over t (pre ++ u) := by
  have htake : c.rest.take u.length = u := by simp [← hsplit]
  have hdrop : c.rest.drop u.length = r := by simp [← hsplit]
  refine ⟨?_, ?_, ?_⟩
  · simp only [Cursor.skip, hdrop, List.append_assoc, hsplit, h.split]
  · show ¬ BreaksPair (pre ++ u) (c.rest.drop u.length)
    rw [hdrop]
    by_cases hn : u = []
    · subst hn
      rw [List.nil_append] at hsplit
      rw [List.append_nil, hsplit]
      exact h.whole
    · rwa [breaksPair_append_left_iff _ _ hn]
  · show c.pos.advance (c.rest.take u.length) = _
    rw [htake, h.pos_eq, Pos.advance_append]
    by_cases hn : u = []
    · rw [hn]
      exact not_breaksPair_nil_right _
    · rw [← breaksPair_append_right_iff pre r hn, hsplit]
      exact h.whole

theorem next?_eq_none_iff (c : Cursor) : c.next? = none ↔ c.rest = [] := by
  rw [next?]
  split
  · rename_i hs
    simpa using (splitUnit_eq_none_iff _).mp hs
  · rename_i u r hs
    simp only [reduceCtorEq, false_iff]
    intro he
    rw [he] at hs
    simp [splitUnit] at hs

/-- **Reading one unit** takes exactly the next unit of the text, a carriage return with its line
feed or one character, and the cursor has then read it too. -/
theorem Over.next? {t pre : List Char} {c c' : Cursor} {u : List Char} (h : c.Over t pre)
    (hn : c.next? = some (u, c')) :
    c'.Over t (pre ++ u) ∧ (u = ['\r', '\n'] ∨ ∃ ch, u = [ch]) := by
  rw [Cursor.next?] at hn
  split at hn
  · exact absurd hn (by simp)
  · rename_i u' r hs
    obtain ⟨rfl, rfl⟩ := Prod.mk.inj (Option.some.inj hn)
    obtain ⟨hsplit, hwhole, hform⟩ := splitUnit_whole hs
    exact ⟨h.skip hsplit hwhole, hform⟩

theorem Over.takeUntil {t pre : List Char} {c : Cursor} (h : c.Over t pre)
    (stop : Char → Bool) : (c.takeUntil stop).2.Over t (pre ++ (c.takeUntil stop).1) :=
  h.skip (spanUnits_append stop c.rest) (spanUnits_whole stop c.rest)

theorem Over.skipBlank {t pre : List Char} {c : Cursor} (h : c.Over t pre) :
    ∃ more, c.skipBlank.Over t (pre ++ more) :=
  ⟨_, h.takeUntil _⟩

/-! ## Runs of requests -/

/-- A request to a cursor.  `peek`, `pos` and `atEnd` only look; the other three read. -/
inductive Op where
  /-- The next character, without reading it. -/
  | peek
  /-- Read the next unit. -/
  | next
  /-- Read units until `stop` accepts the next character. -/
  | takeUntil (stop : Char → Bool)
  /-- Read the blanks at the cursor. -/
  | skipBlank
  /-- The position. -/
  | pos
  /-- Whether everything has been read. -/
  | atEnd

/-- The cursor after a request.  Reading a unit at the end of the text leaves it where it is. -/
def apply (c : Cursor) : Op → Cursor
  | .next =>
    match c.next? with
    | some (_, c') => c'
    | none => c
  | .takeUntil stop => (c.takeUntil stop).2
  | .skipBlank => c.skipBlank
  | .peek | .pos | .atEnd => c

/-- The cursor after a run of requests, made one after another. -/
def run (c : Cursor) (ops : List Op) : Cursor := ops.foldl apply c

/-- One request keeps the invariant, having read some more of the text. -/
theorem Over.apply {t pre : List Char} {c : Cursor} (h : c.Over t pre) (op : Op) :
    ∃ more, (c.apply op).Over t (pre ++ more) := by
  cases op with
  | next =>
    rw [Cursor.apply]
    split
    · rename_i u c' hn
      exact ⟨u, (h.next? hn).1⟩
    · exact ⟨[], by simpa using h⟩
  | takeUntil stop => exact ⟨_, h.takeUntil stop⟩
  | skipBlank => exact h.skipBlank
  | peek | pos | atEnd => exact ⟨[], by simpa [Cursor.apply] using h⟩

/-- A run of requests keeps the invariant. -/
theorem Over.run {t pre : List Char} {c : Cursor} (h : c.Over t pre) (ops : List Op) :
    ∃ more, (c.run ops).Over t (pre ++ more) := by
  induction ops generalizing c pre with
  | nil => exact ⟨[], by simpa [Cursor.run] using h⟩
  | cons op ops ih =>
    obtain ⟨more, hop⟩ := h.apply op
    obtain ⟨more', hrun⟩ := ih hop
    exact ⟨more ++ more', by simpa [Cursor.run] using hrun⟩

theorem over_run (t : String) (ops : List Op) : ∃ pre, ((start t).run ops).Over t.toList pre := by
  simpa using (over_start t).run ops

/-! ## What the position is -/

theorem Over.offset_eq {t pre : List Char} {c : Cursor} (h : c.Over t pre) :
    c.pos.offset = (String.ofList pre).utf8ByteSize := by
  rw [h.pos_eq, Pos.start_advance]

/-- A cursor over `t` is at the end of `t` exactly when nothing is left. -/
theorem Over.offset_eq_size_iff {t : String} {pre : List Char} {c : Cursor}
    (h : c.Over t.toList pre) : c.pos.offset = t.utf8ByteSize ↔ c.rest = [] := by
  -- the bytes of `t` are those read and those left
  have hsize : t.utf8ByteSize = c.pos.offset + (String.ofList c.rest).utf8ByteSize := by
    rw [h.offset_eq, ← String.utf8ByteSize_append, ← String.ofList_append, h.split,
      String.ofList_toList]
  rw [hsize, ← String.ofList_eq_empty_iff, ← String.utf8ByteSize_eq_zero_iff]
  omega

/-- The offset of a cursor over `t` is a character boundary of `t`. -/
theorem Over.isValid {t : String} {pre : List Char} {c : Cursor} (h : c.Over t.toList pre) :
    (String.Pos.Raw.mk c.pos.offset).IsValid t := by
  rw [String.Pos.Raw.isValid_iff_exists_take_toList]
  refine ⟨pre.length, ?_⟩
  rw [← h.split, List.take_left, h.offset_eq]

/-- Reading never moves the offset back. -/
theorem Over.offset_le_apply {t pre : List Char} {c : Cursor} (h : c.Over t pre) (op : Op) :
    c.pos.offset ≤ (c.apply op).pos.offset := by
  obtain ⟨more, hop⟩ := h.apply op
  rw [h.offset_eq, hop.offset_eq, String.ofList_append, String.utf8ByteSize_append]
  exact Nat.le_add_right _ _

/-- **The position of a cursor after any run of requests from the start of a text `t`.**
It has read a part `pre` of `t` that does not end between a carriage return and its line feed;
its offset is the byte size of `pre`, a character boundary of `t`; its line is the number of line
breaks in `pre` and its column the number of characters after the last one, so that the two
together never exceed the characters of `pre`, and neither overflows 32 bits on a text of fewer
than `2 ^ 32 - 1` characters.  No request moves the offset back.  Reading a unit there gives
nothing exactly at the end, where the cursor stays; otherwise it gives the next piece of `t`,
one character or a carriage return with its line feed, and the cursor has then read it. -/
theorem run_position (t : String) (ops : List Op) :
    let c := (start t).run ops
    ∃ pre, c.Over t.toList pre ∧
      c.pos = ⟨(String.ofList pre).utf8ByteSize, lineBreaks pre, column pre⟩ ∧
      (String.Pos.Raw.mk c.pos.offset).IsValid t ∧ c.pos.offset ≤ t.utf8ByteSize ∧
      c.pos.line + c.pos.col ≤ pre.length ∧
      (t.length < 2 ^ 32 - 1 → c.pos.line + 1 < 2 ^ 32 ∧ c.pos.col + 1 < 2 ^ 32) ∧
      (∀ op, c.pos.offset ≤ (c.apply op).pos.offset) ∧
      (c.next? = none ↔ c.atEnd) ∧ (c.atEnd → c.apply .next = c) ∧
      ∀ u c', c.next? = some (u, c') →
        c'.Over t.toList (pre ++ u) ∧ (u = ['\r', '\n'] ∨ ∃ ch, u = [ch]) := by
  intro c
  obtain ⟨pre, h⟩ := over_run t ops
  have hbound : c.pos.line + c.pos.col ≤ pre.length := by
    have := Pos.line_add_col_advance_le Pos.start pre
    rw [h.pos_eq]
    simpa [Pos.start] using this
  have hlen : pre.length ≤ t.length := by
    rw [← String.length_toList, ← h.split, List.length_append]
    exact Nat.le_add_right _ _
  have hnone : c.next? = none ↔ c.atEnd := by
    rw [next?_eq_none_iff, atEnd, List.isEmpty_iff]
  refine ⟨pre, h, by rw [h.pos_eq, Pos.start_advance], h.isValid, h.isValid.le_utf8ByteSize,
    hbound, fun _ => ⟨by omega, by omega⟩, h.offset_le_apply, hnone, fun he => ?_,
    fun u c' hn => h.next? hn⟩
  rw [Cursor.apply, hnone.mpr he]

end Cursor
end Sexpr
