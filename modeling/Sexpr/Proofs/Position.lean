import Sexpr.Position

/-!
# What a position counts

`Sexpr.Pos.advance` moves a position over a text one *unit* at a time, a carriage return with the
line feed after it being a single line break.  This file says what the three counters of the
position it reaches are, without reference to how they were reached: the byte size of the text
read, its line breaks, and the characters after the last of them.

The one subtlety is the pair.  Reading a text in two pieces lands where reading it whole does,
except when the cut falls between a carriage return and its line feed: then the two halves are
two line breaks, and the whole is one.  `Sexpr.Text.BreaksPair` names that cut, and every
statement below that joins two readings excludes it.

## What is here

* `Sexpr.Text.lineBreaks`, `Sexpr.Text.column`: the line breaks of a text, and the characters
  after the last one, counted directly on the text.
* `Sexpr.Pos.advance_append`: **reading in two pieces is reading whole**, unless the cut breaks
  a pair.
* `Sexpr.Pos.start_advance`: the position reached from the start of a text is its byte size, its
  line breaks and its column.
* `Sexpr.Pos.line_add_col_advance_le`: line and column together grow by at most one per
  character read.
-/

set_option autoImplicit false

namespace Sexpr
namespace Text

/-- Whether a character breaks a line on its own: a carriage return or a line feed. -/
def isBreak (c : Char) : Bool := c == '\r' || c == '\n'

/-- The line breaks of a text: every line feed, and every carriage return that no line feed
follows.  A carriage return with a line feed after it is one break, counted at the line feed. -/
def lineBreaks : List Char → Nat
  | [] => 0
  | c :: r => lineBreaks r + if c = '\n' ∨ (c = '\r' ∧ r.head? ≠ some '\n') then 1 else 0

/-- The number of characters after the last line break of a text; all of them if it has
none. -/
def column (cs : List Char) : Nat := (cs.reverse.takeWhile fun c => !isBreak c).length

/-- Cutting a text into `a` and `b` separates a carriage return from the line feed after it. -/
def BreaksPair (a b : List Char) : Prop := a.getLast? = some '\r' ∧ b.head? = some '\n'

instance (a b : List Char) : Decidable (BreaksPair a b) :=
  inferInstanceAs (Decidable (_ ∧ _))

/-! ## Cuts that break a pair -/

theorem not_breaksPair_nil_left (b : List Char) : ¬ BreaksPair [] b := by
  simp [BreaksPair]

theorem not_breaksPair_nil_right (a : List Char) : ¬ BreaksPair a [] := by
  simp [BreaksPair]

theorem breaksPair_cons_iff {c : Char} {r : List Char} (b : List Char) (hr : r ≠ []) :
    BreaksPair (c :: r) b ↔ BreaksPair r b := by
  obtain ⟨d, r', rfl⟩ := List.exists_cons_of_ne_nil hr
  simp [BreaksPair]

theorem breaksPair_singleton_iff (c : Char) (b : List Char) :
    BreaksPair [c] b ↔ c = '\r' ∧ b.head? = some '\n' := by
  simp [BreaksPair]

/-- Adding to the front of the left part changes nothing unless that part was empty. -/
theorem breaksPair_append_left_iff (a : List Char) {r : List Char} (b : List Char)
    (hr : r ≠ []) : BreaksPair (a ++ r) b ↔ BreaksPair r b := by
  simp [BreaksPair, List.getLast?_eq_some_getLast hr]

/-- Adding to the back of the right part changes nothing unless that part was empty. -/
theorem breaksPair_append_right_iff (a : List Char) {r : List Char} (b : List Char)
    (hr : r ≠ []) : BreaksPair a (r ++ b) ↔ BreaksPair a r := by
  obtain ⟨d, r', rfl⟩ := List.exists_cons_of_ne_nil hr
  simp [BreaksPair]

/-! ## Counting directly on the text -/

theorem lineBreaks_cons (c : Char) (r : List Char) :
    lineBreaks (c :: r) =
      lineBreaks r + if c = '\n' ∨ (c = '\r' ∧ r.head? ≠ some '\n') then 1 else 0 := rfl

theorem column_append_of_any {a b : List Char} (h : b.any isBreak = true) :
    column (a ++ b) = column b := by
  rw [column, column, List.reverse_append, List.takeWhile_append, if_neg]
  -- the run after the last break stops short of the whole of `b`, at that break
  intro hlen
  have hall := List.all_takeWhile (p := fun c => !isBreak c) (l := b.reverse)
  rw [(List.takeWhile_prefix _).eq_of_length hlen] at hall
  obtain ⟨x, hx, hb⟩ := List.any_eq_true.mp h
  have := List.all_eq_true.mp hall x (List.mem_reverse.mpr hx)
  simp [hb] at this

theorem column_append_of_not_any {a b : List Char} (h : b.any isBreak = false) :
    column (a ++ b) = column a + b.length := by
  have hall : ∀ x ∈ b.reverse, (!isBreak x) = true := by
    intro x hx
    simpa using List.any_eq_false.mp h x (List.mem_reverse.mp hx)
  rw [column, column, List.reverse_append, List.takeWhile_append_of_pos hall]
  simp [Nat.add_comm]

theorem column_of_not_any {b : List Char} (h : b.any isBreak = false) : column b = b.length := by
  simpa [column] using column_append_of_not_any (a := []) h

theorem column_cons_of_any (c : Char) {r : List Char} (h : r.any isBreak = true) :
    column (c :: r) = column r :=
  column_append_of_any (a := [c]) h

theorem column_cons_of_not_any (c : Char) {r : List Char} (h : r.any isBreak = false) :
    column (c :: r) = if isBreak c then r.length else r.length + 1 := by
  rw [← List.singleton_append, column_append_of_not_any h]
  cases hc : isBreak c <;> simp [column, hc, Nat.add_comm]

/-- The byte size of a text is that of its first character and of the rest. -/
theorem utf8ByteSize_ofList_cons (c : Char) (cs : List Char) :
    (String.ofList (c :: cs)).utf8ByteSize = c.utf8Size + (String.ofList cs).utf8ByteSize := by
  rw [← List.singleton_append, String.ofList_append, String.utf8ByteSize_append,
    ← String.singleton_eq_ofList, String.utf8ByteSize_singleton]

end Text

namespace Pos

open Text

/-! ## Reading in pieces -/

/-- **Reading in two pieces is reading whole**, as long as the cut does not separate a carriage
return from its line feed. -/
theorem advance_append (p : Pos) (a b : List Char) (h : ¬ BreaksPair a b) :
    p.advance (a ++ b) = (p.advance a).advance b := by
  induction p, a using advance.induct with
  | case1 p => rfl
  | case2 p r ih =>
    rw [List.cons_append, List.cons_append, advance, advance]
    refine ih fun hr => h ?_
    have hne : r ≠ [] := fun he => not_breaksPair_nil_left b (he ▸ hr)
    rwa [breaksPair_cons_iff b (List.cons_ne_nil _ _), breaksPair_cons_iff b hne]
  | case3 p c r hc ih =>
    -- the pair the cut would break is `c` with the head of `b`, when `r` is empty
    have hc' : ∀ r', c = '\r' → r ++ b = '\n' :: r' → False := by
      intro r' hcr hrb
      cases r with
      | nil =>
        rw [List.nil_append] at hrb
        exact h ((breaksPair_singleton_iff c b).mpr ⟨hcr, by simp [hrb]⟩)
      | cons d r => exact hc r hcr (by simpa using (List.cons_eq_cons.mp hrb).1)
    rw [List.cons_append, advance.eq_3 p c (r ++ b) hc', advance.eq_3 p c r hc]
    refine ih fun hr => h ?_
    have hne : r ≠ [] := fun he => not_breaksPair_nil_left b (he ▸ hr)
    rwa [breaksPair_cons_iff b hne]

/-! ## The three counters -/

theorem offset_advance (p : Pos) (cs : List Char) :
    (p.advance cs).offset = p.offset + (String.ofList cs).utf8ByteSize := by
  induction p, cs using advance.induct with
  | case1 p => simp [advance]
  | case2 p r ih =>
    rw [advance, ih, utf8ByteSize_ofList_cons, utf8ByteSize_ofList_cons]
    have hcr : '\r'.utf8Size = 1 := rfl
    have hlf : '\n'.utf8Size = 1 := rfl
    simp only [nextLine, hcr, hlf]
    omega
  | case3 p c r hc ih =>
    rw [advance.eq_3 p c r hc, ih, utf8ByteSize_ofList_cons]
    by_cases hb : (c == '\r' || c == '\n') = true
    · have hsize : c.utf8Size = 1 := by
        simp only [Bool.or_eq_true, beq_iff_eq] at hb
        rcases hb with rfl | rfl <;> rfl
      simp [hb, nextLine, hsize]
      omega
    · simp [hb, nextCol]
      omega

theorem line_advance (p : Pos) (cs : List Char) :
    (p.advance cs).line = p.line + lineBreaks cs := by
  induction p, cs using advance.induct with
  | case1 p => simp [advance, lineBreaks]
  | case2 p r ih =>
    rw [advance, ih, lineBreaks_cons, lineBreaks_cons]
    simp [nextLine]
    omega
  | case3 p c r hc ih =>
    rw [advance.eq_3 p c r hc, ih, lineBreaks_cons]
    by_cases hb : (c == '\r' || c == '\n') = true
    · -- a carriage return here has no line feed after it, so it counts
      have hcount : c = '\n' ∨ (c = '\r' ∧ r.head? ≠ some '\n') := by
        simp only [Bool.or_eq_true, beq_iff_eq] at hb
        rcases hb with rfl | rfl
        · refine Or.inr ⟨rfl, fun hr => ?_⟩
          obtain ⟨r', rfl⟩ : ∃ r', r = '\n' :: r' := by
            cases r with
            | nil => simp at hr
            | cons d r' => exact ⟨r', by simpa using hr⟩
          exact hc r' rfl rfl
        · exact Or.inl rfl
      simp [hb, nextLine, hcount]
      omega
    · have hcount : ¬ (c = '\n' ∨ (c = '\r' ∧ r.head? ≠ some '\n')) := by
        simp only [Bool.or_eq_true, beq_iff_eq, not_or] at hb
        rintro (h | ⟨h, -⟩)
        · exact hb.2 h
        · exact hb.1 h
      simp [hb, nextCol, hcount]

theorem col_advance (p : Pos) (cs : List Char) :
    (p.advance cs).col = if cs.any isBreak then column cs else p.col + cs.length := by
  induction p, cs using advance.induct with
  | case1 p => simp [advance]
  | case2 p r ih =>
    rw [advance, ih]
    have hbreak : ('\r' :: '\n' :: r).any isBreak = true := by simp [isBreak]
    have hlf : ('\n' :: r).any isBreak = true := by simp [isBreak]
    rw [if_pos hbreak, column_cons_of_any _ hlf]
    cases hr : r.any isBreak with
    | true => simp [column_cons_of_any _ hr]
    | false => simp [column_cons_of_not_any _ hr, isBreak, nextLine]
  | case3 p c r hc ih =>
    rw [advance.eq_3 p c r hc, ih]
    cases hr : r.any isBreak with
    | true => simp [hr, column_cons_of_any _ hr]
    | false =>
      by_cases hb : (c == '\r' || c == '\n') = true
      · have hcb : isBreak c = true := hb
        simp [hb, hr, hcb, column_cons_of_not_any _ hr, nextLine]
      · have hcb : isBreak c = false := by simpa [isBreak] using hb
        simp [hb, hr, hcb, nextCol]
        omega

/-- **The position after reading a text from its start** is its byte size, its line breaks,
and the characters after the last of them. -/
theorem start_advance (cs : List Char) :
    start.advance cs = ⟨(String.ofList cs).utf8ByteSize, lineBreaks cs, column cs⟩ := by
  have hcol : (start.advance cs).col = column cs := by
    rw [col_advance]
    split
    · rfl
    · rename_i h
      simp [start, column_of_not_any (Bool.not_eq_true _ ▸ h)]
  rw [Pos.mk.injEq]
  exact ⟨by simp [offset_advance, start], by simp [line_advance, start], hcol⟩

/-- Line and column together grow by at most one for each character read. -/
theorem line_add_col_advance_le (p : Pos) (cs : List Char) :
    (p.advance cs).line + (p.advance cs).col ≤ p.line + p.col + cs.length := by
  induction p, cs using advance.induct with
  | case1 p => simp [advance]
  | case2 p r ih =>
    rw [advance]
    simp only [nextLine, List.length_cons] at ih ⊢
    omega
  | case3 p c r hc ih =>
    rw [advance.eq_3 p c r hc]
    by_cases hb : (c == '\r' || c == '\n') = true
    · rw [if_pos hb] at ih ⊢
      simp only [nextLine, List.length_cons] at ih ⊢
      omega
    · rw [if_neg hb] at ih ⊢
      simp only [nextCol, List.length_cons] at ih ⊢
      omega

end Pos
end Sexpr
