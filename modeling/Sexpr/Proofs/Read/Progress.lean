import Sexpr.Proofs.Position
import Sexpr.Proofs.Read.Calls

/-!
# Reading always moves forward

Reading stops on every text, because every step of it moves forward.  `Sexpr.Reader.expr` and
`Sexpr.Reader.items` are total, defined by recursion on the characters left; this file says what
that recursion rests on, in terms of the text itself: the bytes not read yet, and the offset of
the cursor.

Every step of reading moves the cursor past some characters at the front of what is left and
adds their bytes to the offset, or leaves it where it was (`Sexpr.Cursor.LeadsTo`).  This holds
of any reader, whatever its position says, since the position is only ever moved by
`Sexpr.Cursor.skip`.  On top of it:

* reading an expression moves forward by at least one byte whenever it gives one, so the loop over
  the items of a list reads at least one byte per turn or stops;
* every call of `expr` nested inside another, in the body of a quoted form or among the items of
  a list, is made on strictly fewer bytes, because the opening character has been read.

So neither the nesting of calls nor the loop over items can go on forever: both relations are
well founded, measured by the bytes left.

## What is here

* `Sexpr.Reader.bytesLeft`: the bytes of UTF-8 not read yet.
* `Sexpr.Cursor.LeadsTo`: one cursor is another one having read some more characters; one lemma
  per step of reading, and `Sexpr.Reader.leadsTo_read` for whole calls.
* `Sexpr.Reader.Calls.leadsTo`: along the tree of nested calls.
* `Sexpr.Reader.reading_terminates`: **reading terminates on every reader**.
-/

set_option autoImplicit false

namespace Sexpr

open Text

namespace Cursor

/-- `c.LeadsTo c'`: `c'` is `c` having read some more characters `u`: what `c` has left is `u`
followed by what `c'` has left, and the offset of `c'` is that of `c` plus the bytes of `u`. -/
def LeadsTo (c c' : Cursor) : Prop :=
  ∃ u, c.rest = u ++ c'.rest ∧ c'.pos.offset = c.pos.offset + (String.ofList u).utf8ByteSize

theorem LeadsTo.refl (c : Cursor) : c.LeadsTo c := ⟨[], by simp, by simp⟩

theorem LeadsTo.trans {c c' c'' : Cursor} (h : c.LeadsTo c') (h' : c'.LeadsTo c'') :
    c.LeadsTo c'' := by
  obtain ⟨u, hrest, hoff⟩ := h
  obtain ⟨u', hrest', hoff'⟩ := h'
  refine ⟨u ++ u', by rw [hrest, hrest', List.append_assoc], ?_⟩
  rw [hoff', hoff, String.ofList_append, String.utf8ByteSize_append]
  omega

/-- Moving past characters is reading them: this is the one way a cursor moves. -/
theorem leadsTo_skip (c : Cursor) (n : Nat) : c.LeadsTo (c.skip n) :=
  ⟨c.rest.take n, (List.take_append_drop n c.rest).symm, Pos.offset_advance _ _⟩

theorem LeadsTo.length_le {c c' : Cursor} (h : c.LeadsTo c') : c'.rest.length ≤ c.rest.length := by
  obtain ⟨u, hrest, -⟩ := h
  rw [hrest, List.length_append]
  exact Nat.le_add_left _ _

/-- A cursor that has fewer characters left has read at least one byte more. -/
theorem LeadsTo.offset_lt {c c' : Cursor} (h : c.LeadsTo c')
    (hlt : c'.rest.length < c.rest.length) : c.pos.offset < c'.pos.offset := by
  obtain ⟨u, hrest, hoff⟩ := h
  obtain ⟨d, ds, rfl⟩ : ∃ d ds, u = d :: ds := by
    cases u with
    | nil => simp [hrest] at hlt
    | cons d ds => exact ⟨d, ds, rfl⟩
  have hd := Char.utf8Size_pos d
  rw [hoff, utf8ByteSize_ofList_cons]
  omega

/-- The bytes left are those read on the way and those left at the end. -/
theorem LeadsTo.bytes_eq {c c' : Cursor} (h : c.LeadsTo c') :
    ∃ u, c.rest = u ++ c'.rest ∧
      (String.ofList c.rest).utf8ByteSize =
        (String.ofList u).utf8ByteSize + (String.ofList c'.rest).utf8ByteSize := by
  obtain ⟨u, hrest, -⟩ := h
  exact ⟨u, hrest, by rw [hrest, String.ofList_append, String.utf8ByteSize_append]⟩

end Cursor

namespace Reader

/-- The bytes of UTF-8 that the reader has not read yet. -/
def bytesLeft (r : Reader) : Nat := (String.ofList r.cursor.rest).utf8ByteSize

/-- Fewer characters left is fewer bytes left. -/
theorem bytesLeft_lt {r s : Reader} (h : r.cursor.LeadsTo s.cursor) (hlt : s.size < r.size) :
    s.bytesLeft < r.bytesLeft := by
  obtain ⟨u, hrest, hbytes⟩ := h.bytes_eq
  obtain ⟨d, ds, rfl⟩ : ∃ d ds, u = d :: ds := by
    cases u with
    | nil => simp [size, hrest] at hlt
    | cons d ds => exact ⟨d, ds, rfl⟩
  have hd := Char.utf8Size_pos d
  rw [bytesLeft, bytesLeft, hbytes, utf8ByteSize_ofList_cons]
  omega

/-! ## Each step moves forward -/

theorem leadsTo_skip (r : Reader) (n : Nat) : r.cursor.LeadsTo (r.skip n).cursor :=
  Cursor.leadsTo_skip _ _

theorem leadsTo_skipBlank (r : Reader) : r.cursor.LeadsTo r.skipBlank.cursor :=
  Cursor.leadsTo_skip _ _

theorem leadsTo_enter (r : Reader) : r.cursor.LeadsTo r.enter.cursor :=
  Cursor.leadsTo_skip _ _

theorem leadsTo_leave (r : Reader) : r.cursor.LeadsTo r.leave.cursor :=
  Cursor.leadsTo_skip _ _

theorem leadsTo_openQuote (r : Reader) (k : QuoteKind) :
    r.cursor.LeadsTo (r.openQuote k).state.cursor := by
  unfold openQuote
  split
  · exact .refl _
  · split
    · exact (leadsTo_enter r).trans ((leadsTo_skip _ 1).trans (leadsTo_skipBlank _))
    · exact (leadsTo_enter r).trans (leadsTo_skipBlank _)

theorem leadsTo_openList (r : Reader) : r.cursor.LeadsTo r.openList.state.cursor := by
  unfold openList
  split
  · split
    · exact .refl _
    · exact leadsTo_enter r
  · exact .refl _

theorem leadsTo_closeList (r : Reader) : r.cursor.LeadsTo r.closeList.state.cursor := by
  unfold closeList
  split
  · exact leadsTo_leave r
  · exact .refl _

theorem leadsTo_atom (r : Reader) : r.cursor.LeadsTo r.atom.state.cursor := by
  unfold atom string bare
  split
  · split
    · exact leadsTo_skip r _
    · exact leadsTo_skip r _
  · exact leadsTo_skip r _

/-- Completing a quoted form moves nothing: only the budget changes. -/
theorem leadsTo_closeQuote (k : QuoteKind) (body : Reply (Option Value)) :
    body.state.cursor.LeadsTo (closeQuote k body).state.cursor := by
  unfold closeQuote
  split <;> exact .refl _

theorem leadsTo_finishList (body : Reply (List Value)) :
    body.state.cursor.LeadsTo (finishList body).state.cursor := by
  unfold finishList
  split
  · exact .refl _
  · exact leadsTo_closeList _

theorem leadsTo_replySkipBlank {α : Type} (rep : Reply α) :
    rep.state.cursor.LeadsTo rep.skipBlank.state.cursor := by
  unfold Reply.skipBlank
  split
  · exact leadsTo_skipBlank _
  · exact .refl _

/-- **Reading only moves forward**: a call of `expr` or of `items` leaves the reader past some
characters of what it had left, with the offset grown by their bytes. -/
theorem leadsTo_read :
    (∀ r : Reader, r.cursor.LeadsTo (expr r).1.state.cursor) ∧
    (∀ r : Reader, r.cursor.LeadsTo (items r).1.state.cursor) := by
  refine read_induction _ _ ?leaf ?quote ?list ?items
  case leaf =>
    intro r hc
    rw [expr_of_leaf hc]
    exact (leadsTo_skipBlank r).trans ((leadsTo_atom _).trans (leadsTo_replySkipBlank _))
  case quote =>
    intro r k hc ih
    have hopen := (leadsTo_skipBlank r).trans (leadsTo_openQuote r.skipBlank k)
    cases ho : (r.skipBlank.openQuote k).result with
    | error e =>
      rw [expr_of_quote_error hc ho]
      exact hopen
    | ok k' =>
      rw [expr_of_quote hc ho]
      exact hopen.trans ((ih k' ho).trans
        ((leadsTo_closeQuote _ _).trans (leadsTo_replySkipBlank _)))
  case list =>
    intro r hc ih
    have hopen := (leadsTo_skipBlank r).trans (leadsTo_openList r.skipBlank)
    cases ho : r.skipBlank.openList.result with
    | error e =>
      rw [expr_of_list_error hc ho]
      exact hopen
    | ok u =>
      rw [expr_of_list hc ho]
      exact hopen.trans ((ih ho).trans
        ((leadsTo_finishList _).trans (leadsTo_replySkipBlank _)))
  case items =>
    intro r hexpr ih
    cases he : (expr r).1.result with
    | error e =>
      rw [items_of_error he]
      exact hexpr
    | ok o =>
      cases o with
      | none =>
        rw [items_of_none he]
        exact hexpr
      | some v =>
        rw [items_of_some he]
        exact hexpr.trans (ih v he)

/-! ## Along the tree of calls -/

theorem NextItem.leadsTo {a b : Reader} (h : NextItem a b) : a.cursor.LeadsTo b.cursor := by
  obtain ⟨v, -, rfl⟩ := h
  exact leadsTo_read.1 a

theorem NextItem.size_lt {a b : Reader} (h : NextItem a b) : b.size < a.size := by
  obtain ⟨v, hv, rfl⟩ := h
  exact (expr a).2.lt v hv

theorem leadsTo_of_nextItems {a q : Reader} (h : Relation.ReflTransGen NextItem a q) :
    a.cursor.LeadsTo q.cursor := by
  induction h with
  | refl => exact .refl _
  | tail _ hstep ih => exact ih.trans hstep.leadsTo

/-- Every call nested inside reading from `r` is made further on, and strictly further on when it
is inside a form that `r` opened: the opening character has been read. -/
theorem Calls.leadsTo {r s : Reader} {n : Nat} (h : r.Calls n s) :
    r.cursor.LeadsTo s.cursor ∧ (0 < n → s.size < r.size) := by
  induction h with
  | self r => exact ⟨.refl _, fun hn => absurd hn (Nat.lt_irrefl 0)⟩
  | @quote r s k k' n hc ho _ ih =>
    have hopen := (leadsTo_skipBlank r).trans (leadsTo_openQuote r.skipBlank k)
    have hlt : (r.skipBlank.openQuote k).state.size < r.size := by
      obtain ⟨ch, hch⟩ := Opening.peek_of_quote hc
      exact Nat.lt_of_lt_of_le (size_openQuote_lt (size_pos_of_peek? hch) ho)
        (size_skipBlank_le _)
    exact ⟨hopen.trans ih.1, fun _ => Nat.lt_of_le_of_lt ih.1.length_le hlt⟩
  | @list r q s n hc ho hq _ ih =>
    have hopen := (leadsTo_skipBlank r).trans (leadsTo_openList r.skipBlank)
    have hlt : r.skipBlank.openList.state.size < r.size :=
      Nat.lt_of_lt_of_le (size_openList_lt ho) (size_skipBlank_le _)
    have hitems := leadsTo_of_nextItems hq
    refine ⟨hopen.trans (hitems.trans ih.1), fun _ => ?_⟩
    calc s.size ≤ q.size := ih.1.length_le
      _ ≤ r.skipBlank.openList.state.size := hitems.length_le
      _ < r.size := hlt

/-! ## Termination -/

/-- **Reading terminates on every reader.**  Whatever the reader, reading an expression or the
items of a list only moves it forward, adding the bytes it reads to the offset; it moves at least
one byte whenever it reads an expression, and so does reading a leaf, which covers the loops over
the characters of an atom and of a string literal.  Every call of `expr` nested inside a quoted
form or a list is made on strictly fewer bytes than the call it is nested in.  Hence neither
nesting calls nor turning the loop over the items of a list can go on forever. -/
theorem reading_terminates :
    (∀ r : Reader, r.cursor.LeadsTo (expr r).1.state.cursor ∧
      r.cursor.LeadsTo (items r).1.state.cursor) ∧
    (∀ (r : Reader) (v : Value), (expr r).1.result = .ok (some v) →
      r.cursor.pos.offset < (expr r).1.state.cursor.pos.offset ∧
        (expr r).1.state.bytesLeft < r.bytesLeft) ∧
    (∀ r : Reader, r.cursor.LeadsTo r.atom.state.cursor ∧
      ∀ v, r.atom.result = .ok (some v) → r.cursor.pos.offset < r.atom.state.cursor.pos.offset) ∧
    (∀ (r s : Reader) (n : Nat), r.Calls (n + 1) s → s.bytesLeft < r.bytesLeft) ∧
    WellFounded (fun s r : Reader => ∃ n, r.Calls (n + 1) s) ∧
    WellFounded (fun b a : Reader => NextItem a b) := by
  have hnested : ∀ (r s : Reader) (n : Nat), r.Calls (n + 1) s → s.bytesLeft < r.bytesLeft :=
    fun r s n h => bytesLeft_lt (h.leadsTo).1 ((h.leadsTo).2 (Nat.succ_pos n))
  have hitem : ∀ a b : Reader, NextItem a b → b.bytesLeft < a.bytesLeft :=
    fun a b h => bytesLeft_lt h.leadsTo h.size_lt
  refine ⟨fun r => ⟨leadsTo_read.1 r, leadsTo_read.2 r⟩, fun r v hv => ?_, fun r => ?_, hnested,
    ?_, ?_⟩
  · have hlt := (expr r).2.lt v hv
    exact ⟨(leadsTo_read.1 r).offset_lt hlt, bytesLeft_lt (leadsTo_read.1 r) hlt⟩
  · exact ⟨leadsTo_atom r, fun v hv => (leadsTo_atom r).offset_lt (size_atom_lt hv)⟩
  · exact Subrelation.wf (fun ⟨n, h⟩ => hnested _ _ n h) (measure bytesLeft).wf
  · exact Subrelation.wf (fun h => hitem _ _ h) (measure bytesLeft).wf

end Reader
end Sexpr
