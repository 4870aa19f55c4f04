import Sexpr.Proofs.Read.Faults

/-!
# Reading never looks ahead of a fault

The reader decides every step on the next character alone, never backtracks, and stops at the
first fault.  So what it does up to the place where it stops cannot depend on the text after
that place: change everything after the character there, and the reader does exactly the same.
This file proves that, and from it that a fault inside a text is a fault of every text that
starts the same way up to and including the character where it is reported.

Two texts that agree up to and including a character `c` are `P ++ c :: T` and `P ++ c :: T'`.
Readers over them that stand at the same place are *twins* (`Sexpr.Cursor.Twin`,
`Sexpr.Reader.Twin`), and each step of reading, run on twins, gives the same result and twins
again, as long as it stops before `c`: it may look at `c`, but not past it.  The only steps that
look further than the next character are a run of blanks (which tests the character that stops
it, never the line feed after a carriage return that stops it), a bare atom and a string literal;
for these the lemmas `Sexpr.Cursor.spanUnits_twin`, `Sexpr.Literal.bareAtom_twin` and
`Sexpr.Literal.stringBody_twin` say that what they read ahead of `c` is read alike.

## What is here

* `Sexpr.Reader.twin_expr`: twin readers read the same expression and the same items.
* `Sexpr.Reader.Twin.document`: and the same document.
* `Sexpr.parse_error_extends`: **a fault is kept by every text that starts with the text up to
  its character.**
-/

set_option autoImplicit false

namespace Sexpr

open Text

/-! ## Texts that agree up to a character -/

section Twin

variable {c : Char} {T T' : List Char}

/-- Two texts that agree up to and including `c` start alike. -/
theorem head?_twin (P : List Char) : (P ++ c :: T').head? = (P ++ c :: T).head? := by
  cases P <;> rfl

/-- Two texts that agree up to and including `c` start with the same character. -/
theorem cons_twin {P r₁ : List Char} {d : Char} (h : P ++ c :: T' = d :: r₁) :
    ∃ r₂, P ++ c :: T = d :: r₂ :=
  List.head?_eq_some_iff.1 (by rw [← head?_twin (T := T) P, h]; rfl)

/-- A character `d` just before `P` is a single unit in both texts or in neither: a line feed
follows it in one text exactly when it follows it in the other. -/
theorem single_unit_twin {P : List Char} {d : Char}
    (h : ∀ r, d = '\r' → P ++ c :: T = '\n' :: r → False) :
    ∀ r, d = '\r' → P ++ c :: T' = '\n' :: r → False := by
  intro r₁ hcr hlf
  obtain ⟨r₂, hr₂⟩ := cons_twin hlf
  exact h r₂ hcr hr₂

/-- Reading `X` from a text that has `c` after `P`, where `X` is no longer than `P`, reads part of
`P`: `X` cannot be `P` and more. -/
theorem eq_append_of_twin {X r P : List Char} (h : X ++ r = P ++ c :: T)
    (hX : X.length ≤ P.length) : ∃ P₁, P = X ++ P₁ ∧ r = P₁ ++ c :: T := by
  rcases List.append_eq_append_iff.1 h with ⟨P₁, hP, hr⟩ | ⟨Q, hXQ, hct⟩
  · exact ⟨P₁, hP, hr⟩
  · have hQ : Q = [] := by
      have := congrArg List.length hXQ
      simp only [List.length_append] at this
      exact List.eq_nil_of_length_eq_zero (by omega)
    subst hQ
    exact ⟨[], by simpa using hXQ.symm, by simpa using hct.symm⟩

/-- A text with more left than follows `c` after reading `n` characters has read only part of
what comes before `c`. -/
theorem le_of_lt_sub {P : List Char} {n : Nat} (hs : T.length < (P ++ c :: T).length - n) :
    n ≤ P.length := by
  simp only [List.length_append, List.length_cons] at hs
  omega

end Twin

namespace Cursor

theorem spanUnits_of_stop {stop : Char → Bool} {d : Char} (hd : stop d = true) (rest : List Char) :
    spanUnits stop (d :: rest) = ([], d :: rest) := by
  by_cases hpair : d = '\r' ∧ rest.head? = some '\n'
  · obtain ⟨rfl, hlf⟩ := hpair
    obtain ⟨r, rfl⟩ := List.head?_eq_some_iff.1 hlf
    rw [spanUnits.eq_2, if_pos hd]
  · rw [spanUnits.eq_3 stop d rest (fun r h1 h2 => hpair ⟨h1, by rw [h2]; rfl⟩), if_pos hd]

/-- **A run of units that ends before `c` reads nothing after it.** -/
theorem spanUnits_twin (stop : Char → Bool) {c : Char} {T T' : List Char} :
    ∀ l P, l = P ++ c :: T → (spanUnits stop l).1.length ≤ P.length →
      (spanUnits stop (P ++ c :: T')).1 = (spanUnits stop l).1 := by
  intro l
  induction l using spanUnits.induct stop with
  | case1 =>
    intro P hl
    exact absurd hl.symm (by simp)
  | case2 r hs =>
    intro P hl _
    obtain ⟨rest, hrest⟩ := cons_twin (T := T') hl.symm
    rw [hrest, spanUnits_of_stop hs, spanUnits.eq_2, if_pos hs]
  | case3 r hs ih =>
    intro P hl hn
    rw [spanUnits.eq_2, if_neg hs] at hn ⊢
    obtain ⟨P₁, rfl, rfl⟩ := eq_append_of_twin (X := ['\r', '\n']) hl (by simp at hn ⊢; omega)
    simp only [List.cons_append, List.nil_append, List.length_cons] at hn ⊢
    rw [spanUnits.eq_2, if_neg hs]
    dsimp only
    rw [ih P₁ rfl (by omega)]
  | case4 d r hpair hs =>
    intro P hl _
    obtain ⟨rest, hrest⟩ := cons_twin (T := T') hl.symm
    rw [hrest, spanUnits_of_stop hs, spanUnits.eq_3 stop d r hpair, if_pos hs]
  | case5 d r hpair hs ih =>
    intro P hl hn
    rw [spanUnits.eq_3 stop d r hpair, if_neg hs] at hn ⊢
    obtain ⟨P₁, rfl, rfl⟩ := eq_append_of_twin (X := [d]) hl (by simp at hn ⊢; omega)
    simp only [List.cons_append, List.nil_append, List.length_cons] at hn ⊢
    rw [spanUnits.eq_3 stop d _ (single_unit_twin hpair), if_neg hs]
    dsimp only
    rw [ih P₁ rfl (by omega)]

end Cursor

namespace Literal

/-- **A bare atom that ends before `c` reads nothing after it.**  A backslash that ends the text
is read with it and so never ends before `c`, and a character that ends the atom is read by
nothing. -/
theorem bareAtom_twin {c : Char} {T T' : List Char} :
    ∀ l P, l = P ++ c :: T → (bareAtom l).2 ≤ P.length → bareAtom (P ++ c :: T') = bareAtom l := by
  intro l
  induction l using bareAtom.induct with
  | case1 =>
    intro P hl
    exact absurd hl.symm (by simp)
  | case2 =>
    intro P hl hn
    obtain ⟨P₁, -, hr⟩ := eq_append_of_twin (X := ['\\']) (r := []) hl hn
    exact absurd hr (by simp)
  | case3 r ih =>
    intro P hl hn
    simp only [bareAtom.eq_3] at hn ⊢
    obtain ⟨P₁, rfl, rfl⟩ := eq_append_of_twin (X := ['\\', '\r', '\n']) hl (by simp; omega)
    simp only [List.cons_append, List.nil_append, List.length_cons] at hn ⊢
    rw [bareAtom.eq_3, ih P₁ rfl (by omega)]
  | case4 d r hpair ih =>
    intro P hl hn
    rw [bareAtom.eq_4 d r hpair] at hn ⊢
    obtain ⟨P₁, rfl, rfl⟩ := eq_append_of_twin (X := ['\\', d]) hl (by simp at hn ⊢; omega)
    simp only [List.cons_append, List.nil_append, List.length_cons] at hn ⊢
    rw [bareAtom.eq_4 d _ (single_unit_twin hpair), ih P₁ rfl (by omega)]
  | case5 d r h₁ h₂ h₃ hend =>
    intro P hl _
    have hd := ne_backslash h₁ h₃
    obtain ⟨rest, hrest⟩ := cons_twin (T := T') hl.symm
    rw [hrest, bareAtom_of_ne hd, bareAtom_of_ne hd, if_pos hend, if_pos hend]
  | case6 d r h₁ h₂ h₃ hend ih =>
    intro P hl hn
    have hd : d ≠ '\\' := by
      rintro rfl
      exact hend (by decide)
    rw [bareAtom_of_ne hd, if_neg hend] at hn ⊢
    obtain ⟨P₁, rfl, rfl⟩ := eq_append_of_twin (X := [d]) hl (by simp at hn ⊢; omega)
    simp only [List.cons_append, List.nil_append, List.length_cons] at hn ⊢
    rw [bareAtom_of_ne hd, if_neg hend, ih P₁ rfl (by omega)]

/-- **A string literal that ends before `c` reads nothing after it.** -/
theorem stringBody_twin {c : Char} {T T' : List Char} {s : List Char} {n : Nat} :
    ∀ l P, l = P ++ c :: T → stringBody l = some (s, n) → n ≤ P.length →
      stringBody (P ++ c :: T') = some (s, n) := by
  intro l
  induction l using stringBody.induct generalizing s n with
  | case1 =>
    intro P hl
    exact absurd hl.symm (by simp)
  | case2 r =>
    intro P hl hs hn
    rw [stringBody] at hs
    obtain ⟨rfl, rfl⟩ := Prod.mk.inj (Option.some.inj hs)
    obtain ⟨P₁, rfl, -⟩ := eq_append_of_twin (X := ['"']) hl hn
    rfl
  | case3 =>
    intro P _ hs
    exact absurd hs (by simp [stringBody])
  | case4 d r ih =>
    intro P hl hs hn
    rw [stringBody.eq_4] at hs
    obtain ⟨⟨s', n'⟩, hr, hp⟩ := Option.map_eq_some_iff.1 hs
    obtain ⟨rfl, rfl⟩ := Prod.mk.inj hp
    obtain ⟨P₁, rfl, rfl⟩ := eq_append_of_twin (X := ['\\', d]) hl (by simp at hn ⊢; omega)
    simp only [List.cons_append, List.nil_append, List.length_cons] at hn ⊢
    rw [stringBody.eq_4, ih P₁ rfl hr (by omega)]
    rfl
  | case5 d r hq h₁ h₂ ih =>
    intro P hl hs hn
    have hd := ne_backslash h₁ h₂
    rw [stringBody_of_ne hq hd] at hs
    obtain ⟨⟨s', n'⟩, hr, hp⟩ := Option.map_eq_some_iff.1 hs
    obtain ⟨rfl, rfl⟩ := Prod.mk.inj hp
    obtain ⟨P₁, rfl, rfl⟩ := eq_append_of_twin (X := [d]) hl (by simp at hn ⊢; omega)
    simp only [List.cons_append, List.nil_append, List.length_cons] at hn ⊢
    rw [stringBody_of_ne hq hd, ih P₁ rfl hr (by omega)]
    rfl

end Literal

/-! ## Twin cursors and readers -/

namespace Cursor

/-- Two cursors at the same position over texts that agree up to and including `c`, which
neither has read yet: `T` follows `c` in the text of one and `T'` in that of the other. -/
structure Twin (c : Char) (T T' : List Char) (x x' : Cursor) : Prop where
  pos_eq : x'.pos = x.pos
  rest : ∃ P, x.rest = P ++ c :: T ∧ x'.rest = P ++ c :: T'

theorem skipBlank_eq_skip (x : Cursor) :
    x.skipBlank = x.skip (spanUnits (fun ch => !isBlank ch) x.rest).1.length :=
  rfl

section Steps

variable {c : Char} {T T' : List Char} {x x' : Cursor}

theorem Twin.peek? (h : x.Twin c T T' x') : x'.peek? = x.peek? := by
  obtain ⟨P, h₁, h₂⟩ := h.rest
  rw [Cursor.peek?, Cursor.peek?, h₁, h₂, head?_twin]

/-- Twin cursors move alike past characters before `c`. -/
theorem Twin.skip (h : x.Twin c T T' x') {n : Nat} (hs : T.length < (x.skip n).rest.length) :
    (x.skip n).Twin c T T' (x'.skip n) := by
  obtain ⟨P, h₁, h₂⟩ := h.rest
  simp only [Cursor.skip, List.length_drop, h₁] at hs
  have hn := le_of_lt_sub hs
  refine ⟨?_, P.drop n, ?_, ?_⟩
  · simp only [Cursor.skip, h₁, h₂, h.pos_eq, List.take_append_of_le_length hn]
  · simp only [Cursor.skip, h₁, List.drop_append_of_le_length hn]
  · simp only [Cursor.skip, h₂, List.drop_append_of_le_length hn]

/-- Twin cursors read the same blanks, when these end before `c`. -/
theorem Twin.skipBlank (h : x.Twin c T T' x') (hs : T.length < x.skipBlank.rest.length) :
    x.skipBlank.Twin c T T' x'.skipBlank := by
  obtain ⟨P, h₁, h₂⟩ := h.rest
  rw [skipBlank_eq_skip] at hs
  have hn := le_of_lt_sub (by simpa only [Cursor.skip, List.length_drop, h₁] using hs)
  have hsame : (spanUnits (fun ch => !isBlank ch) x'.rest).1 =
      (spanUnits (fun ch => !isBlank ch) x.rest).1 := by
    rw [h₂, h₁]
    exact spanUnits_twin _ _ P rfl hn
  rw [skipBlank_eq_skip, skipBlank_eq_skip, hsame]
  exact h.skip hs

end Steps

end Cursor

namespace Reader

/-- Two readers with the same budget and twin cursors. -/
structure Twin (c : Char) (T T' : List Char) (r r' : Reader) : Prop where
  cursor : r.cursor.Twin c T T' r'.cursor
  budget_eq : r'.budget = r.budget

end Reader

/-- Replies of twin readers: the same result, and twin readers after. -/
structure Reply.Twin {α : Type} (c : Char) (T T' : List Char) (rep rep' : Reply α) : Prop where
  result_eq : rep'.result = rep.result
  state : rep.state.Twin c T T' rep'.state

namespace Reader

theorem Reply.skipBlank_of_ok {α : Type} {rep : Reply α} {a : α} (h : rep.result = .ok a) :
    rep.skipBlank = ⟨.ok a, rep.state.skipBlank⟩ := by
  rw [Reply.skipBlank, h]

theorem string_of_some {r : Reader} {s : List Char} {n : Nat}
    (h : Literal.stringBody (r.cursor.rest.drop 1) = some (s, n)) :
    r.string = (r.skip (n + 1)).reply (some (.string (String.ofList s))) := by
  rw [string, h]

theorem string_of_none {r : Reader} (h : Literal.stringBody (r.cursor.rest.drop 1) = none) :
    r.string = (r.skip r.size).fail .unterminatedString := by
  rw [string, h]

theorem closeQuote_of_some {k : QuoteKind} {body : Reply (Option Value)} {v : Value}
    (h : body.result = .ok (some v)) :
    closeQuote k body =
      ⟨.ok (some (.quoted k v)), { body.state with budget := body.state.budget + 1 }⟩ := by
  rw [closeQuote, h]

section Steps

variable {c : Char} {T T' : List Char} {r r' : Reader}

theorem Twin.peek? (h : r.Twin c T T' r') : r'.peek? = r.peek? :=
  h.cursor.peek?

theorem Twin.skip (h : r.Twin c T T' r') {n : Nat} (hs : T.length < (r.skip n).size) :
    (r.skip n).Twin c T T' (r'.skip n) :=
  ⟨h.cursor.skip hs, h.budget_eq⟩

theorem Twin.skipBlank (h : r.Twin c T T' r') (hs : T.length < r.skipBlank.size) :
    r.skipBlank.Twin c T T' r'.skipBlank :=
  ⟨h.cursor.skipBlank hs, h.budget_eq⟩

theorem Twin.enter (h : r.Twin c T T' r') (hs : T.length < r.enter.size) :
    r.enter.Twin c T T' r'.enter :=
  ⟨h.cursor.skip hs, by rw [budget_enter, budget_enter, h.budget_eq]⟩

theorem Twin.leave (h : r.Twin c T T' r') (hs : T.length < r.leave.size) :
    r.leave.Twin c T T' r'.leave :=
  ⟨h.cursor.skip hs, by rw [budget_leave, budget_leave, h.budget_eq]⟩

theorem Twin.fail (h : r.Twin c T T' r') {α : Type} (f : Fault) :
    (r.fail f : Reply α).Twin c T T' (r'.fail f) :=
  ⟨by simp only [Reader.fail, h.cursor.pos_eq], h⟩

theorem Twin.reply (h : r.Twin c T T' r') {α : Type} (a : α) :
    (r.reply a).Twin c T T' (r'.reply a) :=
  ⟨rfl, h⟩

/-- Twin readers open the same quoted form, when it opens before `c`: the shorthand, and the `@`
after a comma, are read before `c`. -/
theorem Twin.openQuote (h : r.Twin c T T' r') (k : QuoteKind)
    (hs : T.length < (r.openQuote k).state.size) :
    (r.openQuote k).Twin c T T' (r'.openQuote k) := by
  by_cases hb : r.budget = 0
  · rw [openQuote_of_zero hb, openQuote_of_zero (h.budget_eq.trans hb)]
    exact h.fail _
  · have hb' : r'.budget ≠ 0 := by rwa [h.budget_eq]
    rw [Reader.openQuote, if_neg hb] at hs
    rw [Reader.openQuote, Reader.openQuote, if_neg hb, if_neg hb']
    by_cases hq : k = .unquote ∧ r.enter.peek? = some '@'
    · rw [if_pos hq] at hs ⊢
      have hskip : T.length < (r.enter.skip 1).size := lt_of_lt_of_le hs (size_skipBlank_le _)
      have he := h.enter (lt_of_lt_of_le hskip (by rw [size_skip]; omega))
      rw [if_pos (by rwa [he.peek?])]
      exact ((he.skip hskip).skipBlank hs).reply _
    · rw [if_neg hq] at hs ⊢
      have he := h.enter (lt_of_lt_of_le hs (size_skipBlank_le _))
      rw [if_neg (by rwa [he.peek?])]
      exact (he.skipBlank hs).reply _

theorem Twin.openList (h : r.Twin c T T' r') (hs : T.length < r.openList.state.size) :
    r.openList.Twin c T T' r'.openList := by
  rw [Reader.openList] at hs
  rw [Reader.openList, Reader.openList, h.peek?]
  by_cases hp : r.peek? = some '('
  · rw [if_pos hp] at hs
    rw [if_pos hp, if_pos hp]
    by_cases hb : r.budget = 0
    · rw [if_pos hb, if_pos (h.budget_eq.trans hb)]
      exact h.fail _
    · rw [if_neg hb] at hs
      rw [if_neg hb, if_neg (by rwa [h.budget_eq])]
      exact (h.enter hs).reply _
  · rw [if_neg hp, if_neg hp]
    exact h.fail _

theorem Twin.closeList (h : r.Twin c T T' r') (hs : T.length < r.closeList.state.size) :
    r.closeList.Twin c T T' r'.closeList := by
  rw [Reader.closeList] at hs
  rw [Reader.closeList, Reader.closeList, h.peek?]
  by_cases hp : r.peek? = some ')'
  · rw [if_pos hp] at hs
    rw [if_pos hp, if_pos hp]
    exact (h.leave hs).reply _
  · rw [if_neg hp, if_neg hp]
    exact h.fail _

/-- Twin readers read the same string literal, when it ends before `c`.  A literal that the text
ends in is read to the end, `c` included, so it is never one of these. -/
theorem Twin.string (h : r.Twin c T T' r') (hs : T.length < r.string.state.size) :
    r.string.Twin c T T' r'.string := by
  obtain ⟨P, h₁, h₂⟩ := h.cursor.rest
  cases hb : Literal.stringBody (r.cursor.rest.drop 1) with
  | none =>
    rw [string_of_none hb] at hs
    simp [Reader.fail, size_skip] at hs
  | some p =>
    obtain ⟨s, n⟩ := p
    rw [string_of_some hb] at hs ⊢
    have hn : n + 1 ≤ P.length := le_of_lt_sub (by simpa only [Reader.reply, size, rest_skip, List.length_drop, h₁] using hs)
    have hP : P ≠ [] := List.ne_nil_of_length_pos (by omega)
    obtain ⟨d, P₁, rfl⟩ := List.exists_cons_of_ne_nil hP
    rw [h₁, List.cons_append, List.drop_succ_cons, List.drop_zero] at hb
    have hb' : Literal.stringBody (r'.cursor.rest.drop 1) = some (s, n) := by
      rw [h₂, List.cons_append, List.drop_succ_cons, List.drop_zero]
      exact Literal.stringBody_twin _ P₁ rfl hb (by simp only [List.length_cons] at hn; omega)
    rw [string_of_some hb']
    exact (h.skip hs).reply _

/-- Twin readers read the same bare atom, when it ends before `c`. -/
theorem Twin.bare (h : r.Twin c T T' r') (hs : T.length < r.bare.state.size) :
    r.bare.Twin c T T' r'.bare := by
  obtain ⟨P, h₁, h₂⟩ := h.cursor.rest
  have hn : (Literal.bareAtom (P ++ c :: T)).2 ≤ P.length := by
    simp only [Reader.bare, Reader.reply, size, rest_skip, List.length_drop, h₁] at hs
    exact le_of_lt_sub hs
  have hsame : Literal.bareAtom r'.cursor.rest = Literal.bareAtom r.cursor.rest := by
    rw [h₂, h₁]
    exact Literal.bareAtom_twin _ P rfl hn
  rw [Reader.bare, Reader.bare, hsame]
  exact (h.skip hs).reply _

theorem Twin.atom (h : r.Twin c T T' r') (hs : T.length < r.atom.state.size) :
    r.atom.Twin c T T' r'.atom := by
  rw [Reader.atom] at hs
  rw [Reader.atom, Reader.atom, h.peek?]
  by_cases hp : r.peek? = some '"'
  · rw [if_pos hp] at hs
    rw [if_pos hp, if_pos hp]
    exact h.string hs
  · rw [if_neg hp] at hs
    rw [if_neg hp, if_neg hp]
    exact h.bare hs

end Steps

end Reader

section Replies

open Reader

variable {c : Char} {T T' : List Char}

theorem Reply.Twin.closeQuote {body body' : Reply (Option Value)} (h : body.Twin c T T' body')
    (k : QuoteKind) : (closeQuote k body).Twin c T T' (closeQuote k body') := by
  cases hres : body.result with
  | error e =>
    rw [closeQuote_of_error hres, closeQuote_of_error (h.result_eq.trans hres)]
    exact ⟨rfl, h.state⟩
  | ok o =>
    cases o with
    | none =>
      rw [closeQuote_of_none hres, closeQuote_of_none (h.result_eq.trans hres), h.state.peek?,
        h.state.cursor.pos_eq]
      exact ⟨rfl, h.state⟩
    | some v =>
      rw [closeQuote_of_some hres, closeQuote_of_some (h.result_eq.trans hres)]
      exact ⟨rfl, h.state.cursor, by simp only [h.state.budget_eq]⟩

theorem Reply.Twin.finishList {body body' : Reply (List Value)} (h : body.Twin c T T' body')
    (hs : T.length < (finishList body).state.size) :
    (finishList body).Twin c T T' (finishList body') := by
  cases hres : body.result with
  | error e =>
    rw [finishList_of_error hres, finishList_of_error (h.result_eq.trans hres)]
    exact ⟨rfl, h.state⟩
  | ok vs =>
    rw [finishList_of_ok hres] at hs
    rw [finishList_of_ok hres, finishList_of_ok (h.result_eq.trans hres)]
    have hc := h.state.closeList hs
    exact ⟨by rw [hc.result_eq], hc.state⟩

theorem Reply.Twin.skipBlank {α : Type} {rep rep' : Reply α} (h : rep.Twin c T T' rep')
    (hs : T.length < rep.skipBlank.state.size) : rep.skipBlank.Twin c T T' rep'.skipBlank := by
  cases hres : rep.result with
  | error e =>
    rw [Reply.skipBlank_of_error hres, Reply.skipBlank_of_error (h.result_eq.trans hres)]
    exact ⟨rfl, h.state⟩
  | ok a =>
    rw [Reply.skipBlank_of_ok hres] at hs
    rw [Reply.skipBlank_of_ok hres, Reply.skipBlank_of_ok (h.result_eq.trans hres)]
    exact ⟨rfl, h.state.skipBlank hs⟩

end Replies

namespace Reader

/-- **Reading never looks past the character where it stops.**  Twin readers read the same
expression, or the same items of a list, as long as reading stops before `c`: with the same
result, and twin readers after. -/
theorem twin_expr (c : Char) (T T' : List Char) :
    (∀ r r' : Reader, r.Twin c T T' r' → T.length < (expr r).1.state.size →
      (expr r).1.Twin c T T' (expr r').1) ∧
    (∀ r r' : Reader, r.Twin c T T' r' → T.length < (items r).1.state.size →
      (items r).1.Twin c T T' (items r').1) := by
  refine read_induction _ _ ?leaf ?quote ?list ?items
  case leaf =>
    intro r hc r' h hs
    rw [expr_of_leaf hc] at hs ⊢
    have hatom : T.length < r.skipBlank.atom.state.size :=
      lt_of_lt_of_le hs (Reply.size_skipBlank_le _)
    have hblank := h.skipBlank (lt_of_lt_of_le hatom (size_atom_le _))
    rw [expr_of_leaf (by rwa [hblank.peek?])]
    exact (hblank.atom hatom).skipBlank hs
  case quote =>
    intro r k hc ih r' h hs
    cases ho : (r.skipBlank.openQuote k).result with
    | error e =>
      rw [expr_of_quote_error hc ho] at hs ⊢
      have hblank := h.skipBlank (lt_of_lt_of_le hs (size_openQuote_le _ _))
      have hq := hblank.openQuote k hs
      rw [expr_of_quote_error (by rwa [hblank.peek?]) (hq.result_eq.trans ho)]
      exact ⟨rfl, hq.state⟩
    | ok k' =>
      rw [expr_of_quote hc ho] at hs ⊢
      have hbody : T.length < (expr (r.skipBlank.openQuote k).state).1.state.size :=
        lt_of_lt_of_le hs ((Reply.size_skipBlank_le _).trans (size_closeQuote_le _ _))
      have hopen := lt_of_lt_of_le hbody (expr _).2.le
      have hblank := h.skipBlank (lt_of_lt_of_le hopen (size_openQuote_le _ _))
      have hq := hblank.openQuote k hopen
      rw [expr_of_quote (by rwa [hblank.peek?]) (hq.result_eq.trans ho)]
      exact ((ih k' ho _ hq.state hbody).closeQuote k').skipBlank hs
  case list =>
    intro r hc ih r' h hs
    cases ho : r.skipBlank.openList.result with
    | error e =>
      rw [expr_of_list_error hc ho] at hs ⊢
      have hblank := h.skipBlank (lt_of_lt_of_le hs (size_openList_le _))
      have hl := hblank.openList hs
      rw [expr_of_list_error (by rwa [hblank.peek?]) (hl.result_eq.trans ho)]
      exact ⟨rfl, hl.state⟩
    | ok u =>
      rw [expr_of_list hc ho] at hs ⊢
      have hfinish : T.length < (finishList (items r.skipBlank.openList.state).1).state.size :=
        lt_of_lt_of_le hs (Reply.size_skipBlank_le _)
      have hitems := lt_of_lt_of_le hfinish (size_finishList_le _)
      have hopen := lt_of_lt_of_le hitems (items _).2
      have hblank := h.skipBlank (lt_of_lt_of_le hopen (size_openList_le _))
      have hl := hblank.openList hopen
      rw [expr_of_list (by rwa [hblank.peek?]) (hl.result_eq.trans ho)]
      exact ((ih ho _ hl.state hitems).finishList hfinish).skipBlank hs
  case items =>
    intro r hexpr ih r' h hs
    cases he : (expr r).1.result with
    | error e =>
      rw [items_of_error he] at hs ⊢
      have hx := hexpr r' h hs
      rw [items_of_error (hx.result_eq.trans he)]
      exact ⟨rfl, hx.state⟩
    | ok o =>
      cases o with
      | none =>
        rw [items_of_none he] at hs ⊢
        have hx := hexpr r' h hs
        rw [items_of_none (hx.result_eq.trans he)]
        exact ⟨rfl, hx.state⟩
      | some v =>
        rw [items_of_some he] at hs ⊢
        have hx := hexpr r' h (lt_of_lt_of_le hs (items _).2)
        have hi := ih v he _ hx.state hs
        rw [items_of_some (hx.result_eq.trans he)]
        exact ⟨by rw [hi.result_eq], hi.state⟩

/-! ## A whole document -/

theorem document_eq_of_error {r : Reader} {e : SyntaxError} (h : (expr r).1.result = .error e) :
    r.document = ⟨.error e, (expr r).1.state⟩ := by
  rw [document, h]

theorem document_state_of_ok {r : Reader} {v : Option Value} (h : (expr r).1.result = .ok v) :
    r.document.state = (expr r).1.state.skipBlank := by
  rw [document, h]
  dsimp only
  split <;> rfl

/-- A fault in a whole document is reported where the reader stops: a fault of the expression
where it arose, and a superfluous character or an empty input after the blanks that follow. -/
theorem document_error_at {r : Reader} {e : SyntaxError} (h : r.document.result = .error e) :
    e.pos = r.document.state.cursor.pos := by
  cases hres : (expr r).1.result with
  | error e' =>
    rw [document_eq_of_error hres] at h ⊢
    cases h
    exact (fits_of_error hres).1
  | ok v =>
    rw [document_state_of_ok hres]
    rw [document, hres] at h
    dsimp only at h
    split at h
    · cases h
      rfl
    · cases h
    · cases h
      rfl

theorem Over.document {t : List Char} {r : Reader} (h : r.Over t) : r.document.state.Over t := by
  have hx := (over_expr t).1 r h
  cases hres : (expr r).1.result with
  | error e =>
    rw [document_eq_of_error hres]
    exact hx
  | ok v =>
    rw [document_state_of_ok hres]
    exact hx.skipBlank

/-- Twin readers read the same document, when reading stops before `c`: the same expression,
and then the same verdict on what follows it and its blanks. -/
theorem Twin.document {c : Char} {T T' : List Char} {r r' : Reader} (h : r.Twin c T T' r')
    (hs : T.length < r.document.state.size) : r.document.Twin c T T' r'.document := by
  have hexpr : T.length < (expr r).1.state.size := by
    cases hres : (expr r).1.result with
    | error e => rwa [document_eq_of_error hres] at hs
    | ok v =>
      rw [document_state_of_ok hres] at hs
      exact lt_of_lt_of_le hs (size_skipBlank_le _)
  have hx := (twin_expr c T T').1 r r' h hexpr
  cases hres : (expr r).1.result with
  | error e =>
    rw [document_eq_of_error hres, document_eq_of_error (hx.result_eq.trans hres)]
    exact ⟨rfl, hx.state⟩
  | ok v =>
    have hb := hx.state.skipBlank (by rwa [document_state_of_ok hres] at hs)
    rw [Reader.document, Reader.document, hres, hx.result_eq.trans hres]
    dsimp only
    rw [hb.peek?]
    cases (expr r).1.state.skipBlank.peek? with
    | some ch => exact hb.fail _
    | none =>
      cases v with
      | some v => exact hb.reply _
      | none => exact hb.fail _

end Reader

open Reader

/-- **Reading never looks past the character where a fault is reported.**  When reading `t`
fails at an offset inside `t`, at the character `c` there, every text that starts with the part
of `t` up to and including `c` fails with the same fault at the same position. -/
theorem parse_error_extends {t : String} {m : Nat} {e : SyntaxError}
    (h : parse t ⟨m⟩ = .error e) (hlt : e.pos.offset < t.utf8ByteSize) :
    ∃ pre c R, t.toList = pre ++ c :: R ∧ (String.ofList pre).utf8ByteSize = e.pos.offset ∧
      ∀ t' : String, pre ++ [c] <+: t'.toList → parse t' ⟨m⟩ = .error e := by
  have hD : (start t ⟨m⟩).document.result = .error e := h
  obtain ⟨pre, hover⟩ := (over_start t ⟨m⟩).document
  rw [document_error_at hD] at hlt ⊢
  obtain ⟨c, R, hrest⟩ := List.exists_cons_of_ne_nil fun hr =>
    absurd (hover.offset_eq_size_iff.2 hr) (Nat.ne_of_lt hlt)
  have ht : t.toList = pre ++ c :: R := by rw [← hrest, hover.split]
  refine ⟨pre, c, R, ht, hover.offset_eq.symm, fun t' ht' => ?_⟩
  obtain ⟨R', hR'⟩ := ht'
  have ht'' : t'.toList = pre ++ c :: R' := by
    rw [← hR', List.append_assoc, List.singleton_append]
  have htwin : (start t ⟨m⟩).Twin c R R' (start t' ⟨m⟩) := ⟨⟨rfl, pre, ht, ht''⟩, rfl⟩
  have hd := htwin.document (by rw [size, hrest, List.length_cons]; omega)
  rw [parse, hd.result_eq]
  exact hD

/-- A list opened too deep: the fault is at the second parenthesis, so every text that starts
with two parentheses fails there as well. -/
theorem parse_error_extends_nested :
    parse "((a))" ⟨1⟩ = .error ⟨.nestingTooDeep, ⟨1, 0, 1⟩⟩ ∧ 1 < "((a))".utf8ByteSize ∧
      ∃ pre c R, "((a))".toList = pre ++ c :: R ∧ (String.ofList pre).utf8ByteSize = 1 ∧
        ∀ t' : String, pre ++ [c] <+: t'.toList →
          parse t' ⟨1⟩ = .error ⟨.nestingTooDeep, ⟨1, 0, 1⟩⟩ :=
  have h : parse "((a))" ⟨1⟩ = .error ⟨.nestingTooDeep, ⟨1, 0, 1⟩⟩ := by decide +kernel
  ⟨h, by decide, parse_error_extends h (by decide)⟩

end Sexpr
