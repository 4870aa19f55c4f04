import Sexpr.Print
import Sexpr.Proofs.Escape
import Sexpr.Proofs.Read.Dispatch

/-!
# Reading printed tokens

The printer writes every token at the front of a line of its own: an atom, a string literal, an
opening parenthesis, each possibly behind a run of quote shorthands.  This file shows that the
reader takes each such token back, whatever blanks come before it and whatever follows it on
the next lines.  The four statements here are the leaves and the two joints of the round trip
of `Sexpr.Proofs.RoundTrip`: a bare atom, a string literal, a list whose items read back, and a
run of shorthands in front of a token that reads back.

Everything is said through `Reader.Reads`, which records what a call of `expr` gives, where it
stops, and that it leaves the budget as it found it.  Since `expr` begins by skipping blanks,
each statement asks only what is left *after the blanks* (`Sexpr.Text.dropBlank`), which is what
lets the indentation of the next line be ignored.

## What is here

* `Sexpr.Reader.Reads`: what reading one expression gives.
* `Sexpr.Reader.reads_atom`, `Sexpr.Reader.reads_string`: a printed atom or string literal reads
  back, the atom unless it ends in a carriage return.
* `Sexpr.Reader.reads_list`: a parenthesis followed by items that read back reads as the list.
* `Sexpr.Reader.reads_shorthands`: shorthands in front of a token wrap what it reads in quoted
  forms.
-/

set_option autoImplicit false

namespace Sexpr

open Text Text.Escape

/-! ## What the next character starts -/

theorem QuoteKind.endsAtom_of_ofChar? {c : Char} {k : QuoteKind} (h : QuoteKind.ofChar? c = some k) :
    endsAtom c = true ∧ c ≠ '\\' ∧ c ≠ '"' := by
  unfold QuoteKind.ofChar? at h
  split at h
  · decide
  · decide
  · decide
  · cases h

/-- A backslash, a double quote, or a character that does not end an atom starts a leaf. -/
theorem Opening.of_leaf {c : Char} (hc : c = '\\' ∨ c = '"' ∨ endsAtom c = false) :
    Opening.of (some c) = .leaf := by
  cases hk : QuoteKind.ofChar? c with
  | some k =>
    obtain ⟨he, hb, hq⟩ := QuoteKind.endsAtom_of_ofChar? hk
    rcases hc with h | h | h
    · exact absurd h hb
    · exact absurd h hq
    · rw [he] at h
      cases h
  | none =>
    rw [Opening.of, hk]
    dsimp only
    rw [if_neg]
    rintro rfl
    rcases hc with h | h | h
    · cases h
    · cases h
    · cases h

/-- The forms a run of shorthands stands for, wrapped around `x`, the first outermost. -/
def Value.wrap (pre : List QuoteKind) (x : Value) : Value := pre.foldr .quoted x

namespace Reader

/-! ## What reading an expression gives -/

/-- Reading an expression from `r` gives `x` and leaves `rest` to read, with the budget as it
was. -/
structure Reads (r : Reader) (x : Value) (rest : List Char) : Prop where
  /-- An expression was read. -/
  result : (expr r).1.result = .ok (some x)
  /-- What is left after it. -/
  rest_eq : (expr r).1.state.cursor.rest = rest
  /-- The forms it opened were all closed again. -/
  budget_eq : (expr r).1.state.budget = r.budget

/-- A token of `n` characters that reads as a leaf, at the end of its line. -/
theorem reads_leaf {r : Reader} {x : Value} {n : Nat} {rest : List Char}
    (hopen : Opening.of r.skipBlank.peek? = .leaf)
    (hatom : r.skipBlank.atom = (r.skipBlank.skip n).reply (some x))
    (hrest : (dropBlank r.cursor.rest).drop n = '\n' :: rest) :
    r.Reads x (dropBlank rest) := by
  refine ⟨?_, ?_, ?_⟩ <;>
    simp [expr_of_leaf hopen, hatom, reply, Reply.skipBlank, hrest,
      dropBlank_cons_of_isBlank isBlank_lf]

/-! ## The text of a printed atom -/

theorem isBlank_eq_false_of_endsAtom {c : Char} (h : endsAtom c = false) : isBlank c = false := by
  simp only [endsAtom, Bool.or_eq_false_iff] at h
  exact h.1.1.1.1.1.1.1

theorem atomText_of_escape {f : Layout} (hf : f.escape = true) (pre : List QuoteKind)
    (s : String) :
    Value.atomText f pre s =
      (if pre.getLast? = some .unquote ∧ s.toList.head? = some '@' then ['\\'] else []) ++
        encodeAtom s.toList := by
  simp [Value.atomText, hf]

/-- The text of a printed atom starts with a backslash or with a character that does not end
it, and never with an `@` right after a comma shorthand. -/
theorem atomText_head {f : Layout} (hf : f.escape = true) (pre : List QuoteKind) {s : String}
    (hs : s ≠ "") :
    ∃ c cs, Value.atomText f pre s = c :: cs ∧ (c = '\\' ∨ endsAtom c = false) ∧
      (pre.getLast? = some .unquote → c ≠ '@') := by
  obtain ⟨d, ds, hds⟩ : ∃ d ds, s.toList = d :: ds := by
    cases h : s.toList with
    | nil => exact absurd (String.toList_eq_nil_iff.mp h) hs
    | cons d ds => exact ⟨d, ds, rfl⟩
  rw [atomText_of_escape hf]
  by_cases hat : pre.getLast? = some .unquote ∧ s.toList.head? = some '@'
  · exact ⟨'\\', _, by rw [if_pos hat]; rfl, Or.inl rfl, fun _ => by decide⟩
  · rw [if_neg hat, List.nil_append, hds, Literal.encodeAtom_cons]
    by_cases hd : endsAtom d
    · exact ⟨'\\', d :: encodeAtom ds, by simp [hd], Or.inl rfl, fun _ => by decide⟩
    · refine ⟨d, encodeAtom ds, by simp [hd], Or.inr (by simpa using hd),
        fun hl hd' => hat ⟨hl, ?_⟩⟩
      rw [hds, ← hd']
      rfl

/-- The reader takes back the text of a printed atom at the end of its line, backslash before an
`@` included, unless the atom ends in a carriage return. -/
theorem bareAtom_atomText {f : Layout} (hf : f.escape = true) (pre : List QuoteKind) (s : String)
    (hcr : s.toList.getLast? ≠ some '\r') (rest : List Char) :
    Literal.bareAtom (Value.atomText f pre s ++ '\n' :: rest) =
      (s.toList, (Value.atomText f pre s).length) := by
  have hend : ∀ c, ('\n' :: rest).head? = some c → endsAtom c = true ∧ c ≠ '\\' := by
    intro c hc
    cases hc
    exact ⟨by decide, by decide⟩
  rw [atomText_of_escape hf]
  by_cases hat : pre.getLast? = some .unquote ∧ s.toList.head? = some '@'
  · obtain ⟨s', hs'⟩ : ∃ s', s.toList = '@' :: s' := by
      cases h : s.toList with
      | nil => rw [h] at hat; simp at hat
      | cons d s' => rw [h] at hat; exact ⟨s', by simpa using hat.2⟩
    have hpair : ¬ BreaksPair ('@' :: s') ('\n' :: rest) := fun hb => hcr (by rw [hs']; exact hb.1)
    rw [if_pos hat, hs', List.append_assoc, List.singleton_append,
      Literal.bareAtom_backslash_encodeAtom (by decide) s' _ hend hpair]
    simp [Nat.add_comm]
  · rw [if_neg hat, List.nil_append, Literal.bareAtom_encodeAtom _ _ hend (fun hb => hcr hb.1)]

/-! ## Leaves -/

/-- **A printed atom reads back**, with everything after its line left to read, provided it is
not empty and does not end in a carriage return (which would take the line feed after it). -/
theorem reads_atom {f : Layout} (hf : f.escape = true) (pre : List QuoteKind) {s : String}
    (hs : s ≠ "") (hcr : s.toList.getLast? ≠ some '\r') (rest : List Char) (r : Reader)
    (hr : dropBlank r.cursor.rest = dropBlank (Value.atomText f pre s ++ '\n' :: rest)) :
    r.Reads (.atom s) (dropBlank rest) := by
  obtain ⟨c, cs, htxt, hc, -⟩ := atomText_head hf pre hs
  have hcb : isBlank c = false := by
    rcases hc with rfl | hc
    · decide
    · exact isBlank_eq_false_of_endsAtom hc
  have htext : dropBlank r.cursor.rest = Value.atomText f pre s ++ '\n' :: rest := by
    rw [hr, htxt, List.cons_append, dropBlank_cons_of_not_isBlank hcb]
  have hpeek : r.skipBlank.peek? = some c := by
    rw [peek?_eq, rest_skipBlank, htext, htxt]
    rfl
  have hnq : c ≠ '"' := by
    rcases hc with rfl | hc
    · decide
    · rintro rfl
      cases hc
  refine reads_leaf (n := (Value.atomText f pre s).length) ?_ ?_ ?_
  · rw [hpeek, Opening.of_leaf]
    rcases hc with h | h
    · exact Or.inl h
    · exact Or.inr (Or.inr h)
  · have hne : s.toList ≠ [] := by simpa using hs
    rw [atom, if_neg (by rw [hpeek]; simpa using hnq), bare, rest_skipBlank, htext,
      bareAtom_atomText hf pre s hcr rest]
    simp [List.isEmpty_iff, hne, String.ofList_toList]
  · rw [htext, List.drop_left]

/-- **A printed string literal reads back**, with everything after its line left to read. -/
theorem reads_string {f : Layout} (s : String) (rest : List Char) (hf : f.escape = true)
    (r : Reader) (hr : dropBlank r.cursor.rest = dropBlank (Value.stringText f s ++ '\n' :: rest)) :
    r.Reads (.string s) (dropBlank rest) := by
  have htext : dropBlank r.cursor.rest = '"' :: (encodeString s.toList ++ '"' :: '\n' :: rest) := by
    rw [hr, dropBlank_of_head]
    · simp [Value.stringText, hf]
    · intro c hc
      simp only [Value.stringText, List.cons_append, List.head?_cons, Option.some.injEq] at hc
      subst hc
      decide
  have hpeek : r.skipBlank.peek? = some '"' := by
    rw [peek?_eq, rest_skipBlank, htext]
    rfl
  refine reads_leaf (n := (encodeString s.toList).length + 2) ?_ ?_ ?_
  · rw [hpeek, Opening.of_leaf (Or.inr (Or.inl rfl))]
  · rw [atom, if_pos hpeek, string, rest_skipBlank, htext, List.drop_one, List.tail_cons,
      Literal.stringBody_encodeString]
    simp [String.ofList_toList]
  · rw [htext]
    simp

/-! ## Lists -/

/-- **At a closing parenthesis there is nothing to read**: `expr` gives no expression and stays
there, for the list it closes. -/
theorem expr_at_close {s : Reader} {R : List Char} (h : dropBlank s.cursor.rest = ')' :: R) :
    (expr s).1.result = .ok none ∧ (expr s).1.state.cursor.rest = ')' :: R ∧
      (expr s).1.state.budget = s.budget := by
  have hpeek : s.skipBlank.peek? = some ')' := by simp [h]
  have hexpr := expr_of_leaf (r := s) (by rw [hpeek]; rfl)
  have hatom : s.skipBlank.atom = (s.skipBlank.skip 0).reply none := by
    rw [atom, if_neg (by rw [hpeek]; decide), bare, rest_skipBlank, h, Literal.bareAtom_close]
    rfl
  refine ⟨?_, ?_, ?_⟩ <;>
    simp [hexpr, hatom, reply, Reply.skipBlank, h, dropBlank_cons_of_not_isBlank (c := ')') rfl]

/-- **A parenthesis followed by items that read back reads as the list** of them, when a closing
parenthesis follows the items: the list's unit of budget is spent on the opening parenthesis and
given back on the closing one. -/
theorem reads_list {X R : List Char} {xs : List Value} {n : Nat}
    (hitems : ∀ s : Reader, dropBlank s.cursor.rest = dropBlank X → n ≤ s.budget →
      (items s).1.result = .ok xs ∧ (items s).1.state.cursor.rest = ')' :: R ∧
        (items s).1.state.budget = s.budget)
    (r : Reader) (hr : dropBlank r.cursor.rest = '(' :: X) (hb : n + 1 ≤ r.budget) :
    r.Reads (.list xs) (dropBlank R) := by
  have hpeek : r.skipBlank.peek? = some '(' := by simp [hr]
  have hopen : r.skipBlank.openList = r.skipBlank.enter.reply () := by
    rw [openList, if_pos hpeek, if_neg (by simp only [budget_skipBlank]; omega)]
  obtain ⟨hres, hrest, hbud⟩ := hitems r.skipBlank.enter (by simp [hr])
    (by simp only [budget_enter, budget_skipBlank]; omega)
  have hclose : (items r.skipBlank.enter).1.state.closeList =
      (items r.skipBlank.enter).1.state.leave.reply () := by
    rw [closeList, if_pos (by simp [hrest])]
  have hexpr : (expr r).1 = (finishList (items r.skipBlank.enter).1).skipBlank := by
    rw [expr_of_list (by rw [hpeek]; rfl) (by rw [hopen]; rfl), hopen]
    rfl
  refine ⟨?_, ?_, ?_⟩
  · simp [hexpr, finishList, hres, hclose, reply, Reply.skipBlank, Except.map]
  · simp [hexpr, finishList, hres, hclose, reply, Reply.skipBlank, Except.map, hrest]
  · simp only [hexpr, finishList, hres, hclose, reply, Reply.skipBlank, Except.map,
      budget_skipBlank, budget_leave, hbud, budget_enter]
    omega

/-! ## Quote shorthands -/

/-- A shorthand starts with a quote character, which is neither blank nor an `@`. -/
theorem shorthand_head (k : QuoteKind) :
    ∃ c cs, k.shorthand.toList = c :: cs ∧ isBlank c = false ∧ c ≠ '@' := by
  cases k with
  | quote => exact ⟨'\'', [], rfl, by decide, by decide⟩
  | quasiquote => exact ⟨'\x60', [], rfl, by decide, by decide⟩
  | unquote => exact ⟨',', [], rfl, by decide, by decide⟩
  | unquoteSplicing => exact ⟨',', ['@'], rfl, by decide, by decide⟩

/-- The shorthand `k` at the front of what is left opens a quoted form of kind `k`: one unit of
budget is spent, the character is read, with the `@` of `,@`, and then the blanks after it. -/
theorem openQuote_shorthand {s : Reader} {k : QuoteKind} {X : List Char}
    (hs : s.cursor.rest = k.shorthand.toList ++ X) (hX : k = .unquote → X.head? ≠ some '@')
    (hb : s.budget ≠ 0) :
    ∃ k₀, Opening.of s.peek? = .quote k₀ ∧ (s.openQuote k₀).result = .ok k ∧
      (s.openQuote k₀).state.cursor.rest = dropBlank X ∧
      (s.openQuote k₀).state.budget = s.budget - 1 := by
  cases k with
  | quote =>
    refine ⟨.quote, ?_, ?_⟩
    · simp [hs, QuoteKind.shorthand]
      rfl
    · simp [openQuote, hb, reply, hs, QuoteKind.shorthand]
  | quasiquote =>
    refine ⟨.quasiquote, ?_, ?_⟩
    · simp [hs, QuoteKind.shorthand]
      rfl
    · simp [openQuote, hb, reply, hs, QuoteKind.shorthand]
  | unquote =>
    refine ⟨.unquote, ?_, ?_⟩
    · simp [hs, QuoteKind.shorthand]
      rfl
    · simp [openQuote, hb, reply, hs, QuoteKind.shorthand, hX rfl]
  | unquoteSplicing =>
    -- a comma on its own reads as `unquote`; the `@` after it makes it splicing
    refine ⟨.unquote, ?_, ?_⟩
    · simp [hs, QuoteKind.shorthand]
      rfl
    · simp [openQuote, hb, reply, hs, QuoteKind.shorthand]

/-- **Shorthands in front of a token wrap what the token reads as** in the quoted forms they
stand for, one unit of budget each, as long as no `@` follows a comma shorthand directly. -/
theorem reads_shorthands {T R : List Char} {x : Value} {n : Nat}
    (hx : ∀ s : Reader, dropBlank s.cursor.rest = dropBlank T → n ≤ s.budget → s.Reads x R)
    (hR : dropBlank R = R) (pre : List QuoteKind)
    (hlast : pre.getLast? = some .unquote → T.head? ≠ some '@') (r : Reader)
    (hr : dropBlank r.cursor.rest = dropBlank (Value.shorthands pre ++ T))
    (hb : pre.length + n ≤ r.budget) : r.Reads (Value.wrap pre x) R := by
  induction pre generalizing r with
  | nil => exact hx r (by simpa [Value.shorthands] using hr) (by simpa using hb)
  | cons k pre ih =>
    have hsh : Value.shorthands (k :: pre) ++ T =
        k.shorthand.toList ++ (Value.shorthands pre ++ T) := by
      simp [Value.shorthands]
    obtain ⟨c, cs, hk, hcb, hc_at⟩ := shorthand_head k
    -- what follows the shorthand of `k` is the next shorthand, or the token itself
    have hX : k = .unquote → (Value.shorthands pre ++ T).head? ≠ some '@' := by
      intro hku
      cases pre with
      | nil => simpa [Value.shorthands] using hlast (by simp [hku])
      | cons p ps =>
        obtain ⟨d, ds, hp, -, hd_at⟩ := shorthand_head p
        simp [Value.shorthands, hp, hd_at]
    have hdrop : dropBlank r.cursor.rest = k.shorthand.toList ++ (Value.shorthands pre ++ T) := by
      rw [hr, hsh, hk, List.cons_append, dropBlank_cons_of_not_isBlank hcb]
    obtain ⟨k₀, hopen, hres, hrest, hbud⟩ := openQuote_shorthand (s := r.skipBlank)
      (by rw [rest_skipBlank, hdrop]) hX (by simp only [budget_skipBlank, List.length_cons] at hb ⊢; omega)
    have hbody := ih (fun h => hlast (by cases pre with
        | nil => simp at h
        | cons p ps => simpa using h)) (r.skipBlank.openQuote k₀).state
      (by rw [hrest, dropBlank_dropBlank])
      (by rw [hbud]; simp only [budget_skipBlank, List.length_cons] at hb ⊢; omega)
    have hexpr := expr_of_quote hopen hres
    refine ⟨?_, ?_, ?_⟩
    · simp [hexpr, closeQuote, hbody.result, Reply.skipBlank, Value.wrap]
    · simp [hexpr, closeQuote, hbody.result, Reply.skipBlank, hbody.rest_eq, hR]
    · simp only [hexpr, closeQuote, hbody.result, Reply.skipBlank, budget_skipBlank,
        hbody.budget_eq, hbud]
      simp only [List.length_cons] at hb
      omega

end Reader
end Sexpr
