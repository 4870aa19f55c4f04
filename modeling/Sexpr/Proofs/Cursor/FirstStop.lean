import Mathlib
import Sexpr.Proofs.Cursor

/-!
# Where reading up to a stop ends

`Sexpr.Cursor.takeUntil stop` reads whole units for as long as `stop` refuses the next character.
Only the first character of a unit is ever shown to `stop`: the line feed of a carriage return and
line feed pair is read with its carriage return, whatever `stop` says of it.  This file says where
reading ends in terms of the text alone, with offsets in bytes as the cursor counts them.

A *unit boundary* of a text is a byte offset between two characters that does not separate a
carriage return from its line feed (`Sexpr.Cursor.UnitBoundary`).  From a cursor at offset `o`,
reading ends at the first unit boundary at or after `o` whose next character `stop` accepts, or at
the end of the text if there is none (`Sexpr.Cursor.FirstStop`), and it returns the bytes of the
text between the two offsets.  So the characters read include one that `stop` accepts only as the
line feed of a pair whose carriage return `stop` refuses.

## What is here

* `Sexpr.Cursor.spanUnits_stops`, `Sexpr.Cursor.spanUnits_first`: the run of units ends at the
  end of the text or before a character that `stop` accepts, and at no unit boundary before that.
* `Sexpr.Cursor.FirstStop.unique`: the first stop is one offset.
* `Sexpr.Cursor.Over.firstStop_takeUntil`, `Sexpr.Cursor.Over.extract_eq`: for any cursor over a
  text, where reading ends and which bytes it returns.
* `Sexpr.Cursor.takeUntil_first_stop`: **where reading until `stop` ends and what it returns**, on
  every cursor reached from the start of a text.
-/

set_option autoImplicit false

namespace Sexpr
namespace Cursor

open Text

/-! ## Cuts of a text -/

/-- A cut that keeps pairs whole still does so with less in front of it. -/
theorem not_breaksPair_of_append_left {a x b : List Char} (h : ¬ BreaksPair (a ++ x) b) :
    ¬ BreaksPair x b := by
  by_cases hx : x = []
  · rw [hx]
    exact not_breaksPair_nil_left b
  · rwa [breaksPair_append_left_iff a b hx] at h

/-- Of two cuts of one text, the one with fewer bytes in front of it comes first: otherwise what
lies between them would have no bytes, and be empty. -/
theorem exists_append_of_utf8ByteSize_le {q₁ r₁ q₂ r₂ : List Char} (h : q₁ ++ r₁ = q₂ ++ r₂)
    (hle : (String.ofList q₁).utf8ByteSize ≤ (String.ofList q₂).utf8ByteSize) :
    ∃ x, q₂ = q₁ ++ x ∧ r₁ = x ++ r₂ := by
  rcases List.append_eq_append_iff.mp h with ⟨x, hq, hr⟩ | ⟨x, hq, hr⟩
  · exact ⟨x, hq, hr⟩
  · have hx : (String.ofList x).utf8ByteSize = 0 := by
      rw [hq, String.ofList_append, String.utf8ByteSize_append] at hle
      omega
    rw [String.utf8ByteSize_eq_zero_iff, String.ofList_eq_empty_iff] at hx
    subst hx
    exact ⟨[], by simpa using hq.symm, by simpa using hr.symm⟩

/-! ## The run of units -/

/-- The run of units ends at the end of the text or before a character that `stop` accepts. -/
theorem spanUnits_stops (stop : Char → Bool) (cs : List Char) :
    ∀ ch ∈ (spanUnits stop cs).2.head?, stop ch = true := by
  induction cs using spanUnits.induct stop with
  | case1 => simp [spanUnits]
  | case2 r hs => simp [spanUnits, hs]
  | case3 r hs ih => simpa [spanUnits, hs] using ih
  | case4 c r hc hs => simp [spanUnits.eq_3 stop c r hc, hs]
  | case5 c r hc hs ih => simpa [spanUnits.eq_3 stop c r hc, hs] using ih

/-- No unit boundary inside the run is followed by a character that `stop` accepts: where the
run is cut into `x` and `ch :: y` without separating a pair, `stop` refuses `ch`.  At a pair the
cut is before it or after it, since between its two characters it would separate them. -/
theorem spanUnits_first (stop : Char → Bool) {cs x y : List Char} {ch : Char}
    (hx : x ++ ch :: y = (spanUnits stop cs).1)
    (hw : ¬ BreaksPair x (ch :: y ++ (spanUnits stop cs).2)) : stop ch = false := by
  induction cs using spanUnits.induct stop generalizing x with
  | case1 => simp [spanUnits] at hx
  | case2 r hs => simp [spanUnits, hs] at hx
  | case3 r hs ih =>
    simp only [spanUnits, hs, Bool.false_eq_true, if_false] at hx hw
    rcases x with _ | ⟨d, _ | ⟨e, x⟩⟩
    · obtain ⟨rfl, -⟩ := List.cons.inj hx
      simpa using hs
    · obtain ⟨rfl, rfl, -⟩ : d = '\r' ∧ ch = '\n' ∧ y = (spanUnits stop r).1 := by simpa using hx
      exact absurd ⟨rfl, rfl⟩ hw
    · obtain ⟨-, -, hx⟩ : d = '\r' ∧ e = '\n' ∧ x ++ ch :: y = (spanUnits stop r).1 := by
        simpa using hx
      exact ih hx (not_breaksPair_of_append_left (a := [d, e]) hw)
  | case4 c r hc hs => simp [spanUnits.eq_3 stop c r hc, hs] at hx
  | case5 c r hc hs ih =>
    simp only [spanUnits.eq_3 stop c r hc, hs, Bool.false_eq_true, if_false] at hx hw
    rcases x with _ | ⟨d, x⟩
    · obtain ⟨rfl, -⟩ := List.cons.inj hx
      simpa using hs
    · exact ih (List.cons.inj hx).2 (not_breaksPair_of_append_left (a := [d]) hw)

/-- A character of the run that `stop` accepts is the line feed of a pair whose carriage return
`stop` refuses: the cut before it must separate a pair, or `stop` would refuse it, and the cut
before that carriage return keeps pairs whole. -/
theorem spanUnits_accepted (stop : Char → Bool) {cs x y : List Char} {ch : Char}
    (hx : x ++ ch :: y = (spanUnits stop cs).1) (hs : stop ch = true) :
    ch = '\n' ∧ x.getLast? = some '\r' ∧ stop '\r' = false := by
  have hb : BreaksPair x (ch :: y ++ (spanUnits stop cs).2) := by
    by_contra hw
    simp [spanUnits_first stop hx hw] at hs
  obtain ⟨hlast, hlf⟩ := hb
  obtain ⟨rfl⟩ : ch = '\n' := by simpa using hlf
  obtain ⟨x', rfl⟩ := List.getLast?_eq_some_iff.mp hlast
  have hcr : stop '\r' = false :=
    spanUnits_first stop (show x' ++ '\r' :: '\n' :: y = _ by simpa using hx) (by simp [BreaksPair])
  exact ⟨rfl, hlast, hcr⟩

/-! ## Unit boundaries and the first stop -/

/-- The byte offset `p` is a unit boundary of the text `t`, with `r` the rest of `t` after it: the
characters of `t` before `r` take `p` bytes, and the cut does not separate a carriage return from
its line feed. -/
def UnitBoundary (t : List Char) (p : Nat) (r : List Char) : Prop :=
  ∃ pre, pre ++ r = t ∧ (String.ofList pre).utf8ByteSize = p ∧ ¬ BreaksPair pre r

/-- `o'` is the first unit boundary of the text `t` at or after the offset `o` whose next
character `stop` accepts, or the end of `t` if there is none. -/
structure FirstStop (t : List Char) (stop : Char → Bool) (o o' : Nat) : Prop where
  /-- It is not before `o`. -/
  le : o ≤ o'
  /-- It is a unit boundary at the end of `t` or before a character that `stop` accepts. -/
  stops : ∃ r, UnitBoundary t o' r ∧ ∀ ch ∈ r.head?, stop ch = true
  /-- No unit boundary from `o` on and before it comes before a character that `stop` accepts. -/
  first : ∀ p r, UnitBoundary t p r → o ≤ p → p < o' → ∀ ch ∈ r.head?, stop ch = false

theorem Over.unitBoundary {t pre : List Char} {c : Cursor} (h : c.Over t pre) :
    UnitBoundary t c.pos.offset c.rest :=
  ⟨pre, h.split, h.offset_eq.symm, h.whole⟩

/-- The bytes in front of a unit boundary and after it make up the text. -/
theorem UnitBoundary.add_utf8ByteSize {t r : List Char} {p : Nat} (h : UnitBoundary t p r) :
    p + (String.ofList r).utf8ByteSize = (String.ofList t).utf8ByteSize := by
  obtain ⟨pre, rfl, rfl, -⟩ := h
  rw [String.ofList_append, String.utf8ByteSize_append]

/-- A unit boundary from the offset of one cursor over a text on, and before the offset of
another that has read `u` more, cuts `u` without separating a pair, with a character `ch` of `u`
after it. -/
theorem UnitBoundary.cut_read {t pre u : List Char} {c c' : Cursor} (h : c.Over t pre)
    (h' : c'.Over t (pre ++ u)) {p : Nat} {r : List Char} (hb : UnitBoundary t p r)
    (hle : c.pos.offset ≤ p) (hlt : p < c'.pos.offset) :
    ∃ x ch y, x ++ ch :: y = u ∧ r = ch :: y ++ c'.rest ∧ ¬ BreaksPair x r := by
  obtain ⟨q, hq, rfl, hw⟩ := hb
  rw [h.offset_eq] at hle
  rw [h'.offset_eq] at hlt
  obtain ⟨x, rfl, -⟩ := exists_append_of_utf8ByteSize_le (h.split.trans hq.symm) hle
  obtain ⟨y, hy, rfl⟩ := exists_append_of_utf8ByteSize_le (hq.trans h'.split.symm) hlt.le
  obtain ⟨ch, y, rfl⟩ : ∃ ch y', y = ch :: y' := by
    cases y with
    | nil => simp at hy; simp [hy] at hlt
    | cons ch y' => exact ⟨ch, y', rfl⟩
  refine ⟨x, ch, y, ?_, rfl, not_breaksPair_of_append_left hw⟩
  exact (List.append_cancel_left (hy.trans (List.append_assoc _ _ _))).symm

/-- A stop before another one is the end of the text, since `stop` would both accept and refuse
the character after it; so there is no other one after it. -/
theorem FirstStop.not_lt {t : List Char} {stop : Char → Bool} {o a b : Nat}
    (ha : FirstStop t stop o a) (hb : FirstStop t stop o b) : ¬ a < b := by
  intro hlt
  obtain ⟨r, hr, hstop⟩ := ha.stops
  have hfree := hb.first a r hr ha.le hlt
  have hnil : r = [] := by
    cases r with
    | nil => rfl
    | cons ch r' => simp [hstop ch (by simp)] at hfree
  obtain ⟨r', hr', -⟩ := hb.stops
  have hend := hr.add_utf8ByteSize
  have hend' := hr'.add_utf8ByteSize
  rw [hnil] at hend
  simp only [String.ofList_nil, String.utf8ByteSize_empty, Nat.add_zero] at hend
  omega

/-- The first stop is one offset. -/
theorem FirstStop.unique {t : List Char} {stop : Char → Bool} {o o₁ o₂ : Nat}
    (h₁ : FirstStop t stop o o₁) (h₂ : FirstStop t stop o o₂) : o₁ = o₂ :=
  Nat.le_antisymm (Nat.not_lt.mp (h₂.not_lt h₁)) (Nat.not_lt.mp (h₁.not_lt h₂))

/-! ## Reading until a stop -/

theorem takeUntil_fst (stop : Char → Bool) (c : Cursor) :
    (c.takeUntil stop).1 = (spanUnits stop c.rest).1 := rfl

theorem takeUntil_rest (stop : Char → Bool) (c : Cursor) :
    (c.takeUntil stop).2.rest = (spanUnits stop c.rest).2 := by
  show c.rest.drop (spanUnits stop c.rest).1.length = _
  have h := spanUnits_append stop c.rest
  generalize spanUnits stop c.rest = p at h ⊢
  rw [← h]
  exact List.drop_left

/-- **Reading until `stop` ends at the first stop.**  A unit boundary before the end of what was
read cuts it, and `stop` refuses the character after such a cut. -/
theorem Over.firstStop_takeUntil {t pre : List Char} {c : Cursor} (h : c.Over t pre)
    (stop : Char → Bool) : FirstStop t stop c.pos.offset (c.takeUntil stop).2.pos.offset := by
  have h' := h.takeUntil stop
  refine ⟨?_, ⟨_, h'.unitBoundary, (takeUntil_rest stop c).symm ▸ spanUnits_stops stop c.rest⟩, ?_⟩
  · rw [h.offset_eq, h'.offset_eq, String.ofList_append, String.utf8ByteSize_append]
    exact Nat.le_add_right _ _
  · intro p r hb hle hlt ch hch
    obtain ⟨x, ch', y, hread, rfl, hw⟩ := hb.cut_read h h' hle hlt
    obtain rfl : ch' = ch := by simpa using hch
    rw [takeUntil_fst] at hread
    rw [takeUntil_rest] at hw
    exact spanUnits_first stop hread hw

/-- What a cursor reads between two places over a text is the text's bytes between their
offsets. -/
theorem Over.extract_eq {t : String} {pre u : List Char} {c c' : Cursor}
    (h : c.Over t.toList pre) (h' : c'.Over t.toList (pre ++ u)) :
    t.toByteArray.extract c.pos.offset c'.pos.offset = (String.ofList u).toByteArray := by
  have ht : t = String.ofList pre ++ (String.ofList u ++ String.ofList c'.rest) := by
    rw [← String.ofList_append, ← String.ofList_append, ← List.append_assoc, h'.split,
      String.ofList_toList]
  calc t.toByteArray.extract c.pos.offset c'.pos.offset
      = ((String.ofList pre).toByteArray ++
          ((String.ofList u).toByteArray ++ (String.ofList c'.rest).toByteArray)).extract
          ((String.ofList pre).toByteArray.size + 0)
          ((String.ofList pre).toByteArray.size + (String.ofList u).toByteArray.size) := by
        rw [h.offset_eq, h'.offset_eq, ht]
        simp only [String.toByteArray_append, String.size_toByteArray, String.ofList_append,
          String.utf8ByteSize_append, Nat.add_zero]
    _ = ((String.ofList u).toByteArray ++ (String.ofList c'.rest).toByteArray).extract 0
          (String.ofList u).toByteArray.size := ByteArray.extract_append_size_add
    _ = (String.ofList u).toByteArray := ByteArray.extract_append_eq_left rfl

/-- **Where reading until `stop` ends, and what it returns**, from any cursor reached by a run of
requests from the start of a text `t`, at offset `o`.  Reading ends at the offset `o'` that is
the first unit boundary of `t` at or after `o` whose next character `stop` accepts, or the end of
`t` if there is none; the cursor is then over `t` at `o'`, and what it returns is the bytes of `t`
from `o` to `o'`.  A character that `stop` accepts is among them only as the line feed of a pair
whose carriage return `stop` refuses. -/
theorem takeUntil_first_stop (t : String) (ops : List Op) (stop : Char → Bool) :
    (let c := (start t).run ops
     let r := c.takeUntil stop
     (∃ pre, c.Over t.toList pre ∧ r.2.Over t.toList (pre ++ r.1)) ∧
     t.toByteArray.extract c.pos.offset r.2.pos.offset = (String.ofList r.1).toByteArray ∧
     (∀ o', FirstStop t.toList stop c.pos.offset o' ↔ o' = r.2.pos.offset) ∧
     ∀ x ch y, r.1 = x ++ ch :: y → stop ch = true →
       ch = '\n' ∧ x.getLast? = some '\r' ∧ stop '\r' = false) := by
  intro c r
  obtain ⟨pre, h⟩ := over_run t ops
  have hstop := h.firstStop_takeUntil stop
  refine ⟨⟨pre, h, h.takeUntil stop⟩, h.extract_eq (h.takeUntil stop), fun o' => ?_,
    fun x ch y hx hs => spanUnits_accepted stop hx.symm hs⟩
  exact ⟨fun ho => ho.unique hstop, fun ho => ho ▸ hstop⟩

end Cursor
end Sexpr
