import Sexpr.Read.Expr

/-!
# One step of reading

`Sexpr.Reader.expr` and `Sexpr.Reader.items` are defined by well-founded recursion, with the
progress they make carried in their result types, so their equations are stated once here and
every later proof goes through them rather than through the definitions.  The next character,
after the blanks, decides which branch runs (`Sexpr.Opening.of`); there is one equation for each
branch and each outcome of the opening step.

Most statements about reading only look at what is left to read and at the budget, so this file
also gives the rest and the budget after each primitive step, with the blanks skipped described
by `Sexpr.Text.dropBlank` on the characters alone.

## What is here

* `Sexpr.Text.dropBlank`: what skipping blanks leaves, and how it meets appending.
* `Sexpr.Reader.expr_of_leaf`, `expr_of_quote`, `expr_of_quote_error`, `expr_of_list`,
  `expr_of_list_error`: the branches of `expr`.
* `Sexpr.Reader.items_of_error`, `items_of_none`, `items_of_some`: the loop of `items`.
* `Sexpr.Reader.read_induction`: induction along reading, branch by branch.
-/

set_option autoImplicit false

namespace Sexpr
namespace Text

/-- What is left of a text after its leading blanks, taken a unit at a time. -/
def dropBlank (cs : List Char) : List Char :=
  (Cursor.spanUnits (fun c => !isBlank c) cs).2

theorem isBlank_cr : isBlank '\r' = true := by decide

theorem isBlank_lf : isBlank '\n' = true := by decide

@[simp] theorem dropBlank_nil : dropBlank [] = [] := rfl

/-- A blank in front is skipped; a carriage return with its line feed is skipped as one unit,
which comes to the same. -/
theorem dropBlank_cons_of_isBlank {c : Char} (hc : isBlank c = true) (cs : List Char) :
    dropBlank (c :: cs) = dropBlank cs := by
  unfold dropBlank
  by_cases hpair : c = '\r' ∧ cs.head? = some '\n'
  · obtain ⟨rfl, hlf⟩ := hpair
    obtain ⟨r, rfl⟩ : ∃ r, cs = '\n' :: r := by
      cases cs with
      | nil => simp at hlf
      | cons d r => exact ⟨r, by simpa using hlf⟩
    simp [Cursor.spanUnits, isBlank_cr, isBlank_lf]
  · rw [Cursor.spanUnits.eq_def]
    split
    · rename_i heq
      simp at heq
    · rename_i r heq
      obtain ⟨rfl, rfl⟩ := List.cons.inj heq
      exact absurd ⟨rfl, rfl⟩ hpair
    · rename_i d r _ heq
      obtain ⟨rfl, rfl⟩ := List.cons.inj heq
      simp [hc]

theorem dropBlank_cons_of_not_isBlank {c : Char} (hc : isBlank c = false) (cs : List Char) :
    dropBlank (c :: cs) = c :: cs := by
  have hcr : c ≠ '\r' := fun h => by rw [h, isBlank_cr] at hc; cases hc
  unfold dropBlank
  rw [Cursor.spanUnits.eq_def]
  split
  · rename_i heq
    simp at heq
  · rename_i r heq
    exact absurd (List.cons.inj heq).1 hcr
  · rename_i d r _ heq
    obtain ⟨rfl, rfl⟩ := List.cons.inj heq
    simp [hc]

theorem dropBlank_append_of_isBlank {bs : List Char} (hbs : ∀ c ∈ bs, isBlank c = true)
    (cs : List Char) : dropBlank (bs ++ cs) = dropBlank cs := by
  induction bs with
  | nil => rfl
  | cons b bs ih =>
    rw [List.cons_append, dropBlank_cons_of_isBlank (hbs b (by simp)) _]
    exact ih fun c hc => hbs c (by simp [hc])

theorem dropBlank_replicate_space (n : Nat) (cs : List Char) :
    dropBlank (List.replicate n ' ' ++ cs) = dropBlank cs :=
  dropBlank_append_of_isBlank (fun c hc => by rw [List.eq_of_mem_replicate hc]; rfl) cs

/-- What skipping blanks leaves starts with a character that is not blank, if with anything. -/
theorem dropBlank_head (cs : List Char) :
    ∀ c, (dropBlank cs).head? = some c → isBlank c = false := by
  induction cs with
  | nil => simp
  | cons d cs ih =>
    cases hd : isBlank d with
    | true => rw [dropBlank_cons_of_isBlank hd]; exact ih
    | false =>
      rw [dropBlank_cons_of_not_isBlank hd]
      intro c hc
      simp only [List.head?_cons, Option.some.injEq] at hc
      exact hc ▸ hd

theorem dropBlank_of_head {cs : List Char} (h : ∀ c, cs.head? = some c → isBlank c = false) :
    dropBlank cs = cs := by
  cases cs with
  | nil => rfl
  | cons c cs => exact dropBlank_cons_of_not_isBlank (h c rfl) cs

@[simp] theorem dropBlank_dropBlank (cs : List Char) : dropBlank (dropBlank cs) = dropBlank cs :=
  dropBlank_of_head (dropBlank_head cs)

end Text

open Text

/-! ## What each primitive step leaves to read -/

namespace Reader

@[simp] theorem rest_skipBlank (r : Reader) : r.skipBlank.cursor.rest = dropBlank r.cursor.rest := by
  have h := Cursor.spanUnits_append (fun c => !isBlank c) r.cursor.rest
  simp only [skipBlank, Cursor.skipBlank, Cursor.takeUntil, Cursor.skip, dropBlank]
  generalize Cursor.spanUnits (fun c => !isBlank c) r.cursor.rest = p at h ⊢
  rw [← h, List.drop_left]

@[simp] theorem budget_skipBlank (r : Reader) : r.skipBlank.budget = r.budget := rfl

@[simp] theorem rest_skip (r : Reader) (n : Nat) : (r.skip n).cursor.rest = r.cursor.rest.drop n :=
  rfl

@[simp] theorem budget_skip (r : Reader) (n : Nat) : (r.skip n).budget = r.budget := rfl

@[simp] theorem rest_enter (r : Reader) : r.enter.cursor.rest = r.cursor.rest.drop 1 := rfl

@[simp] theorem budget_enter (r : Reader) : r.enter.budget = r.budget - 1 := rfl

@[simp] theorem rest_leave (r : Reader) : r.leave.cursor.rest = r.cursor.rest.drop 1 := rfl

@[simp] theorem budget_leave (r : Reader) : r.leave.budget = r.budget + 1 := rfl

@[simp] theorem peek?_eq (r : Reader) : r.peek? = r.cursor.rest.head? := rfl

/-! ## The branches of `expr` -/

theorem expr_of_leaf {r : Reader} (h : Opening.of r.skipBlank.peek? = .leaf) :
    (expr r).1 = r.skipBlank.atom.skipBlank := by
  rw [expr]
  split
  · rename_i k hk
    rw [hk] at h
    cases h
  · rename_i hk
    rw [hk] at h
    cases h
  · rfl

theorem expr_of_quote {r : Reader} {k k' : QuoteKind}
    (h : Opening.of r.skipBlank.peek? = .quote k) (ho : (r.skipBlank.openQuote k).result = .ok k') :
    (expr r).1 = (closeQuote k' (expr (r.skipBlank.openQuote k).state).1).skipBlank := by
  rw [expr]
  split
  · rename_i k₁ hk
    rw [hk] at h
    cases h
    split
    · rename_i e he
      rw [he] at ho
      cases ho
    · rename_i k₂ hk₂
      rw [hk₂] at ho
      cases ho
      rfl
  · rename_i hk
    rw [hk] at h
    cases h
  · rename_i hk
    rw [hk] at h
    cases h

theorem expr_of_quote_error {r : Reader} {k : QuoteKind} {e : SyntaxError}
    (h : Opening.of r.skipBlank.peek? = .quote k)
    (ho : (r.skipBlank.openQuote k).result = .error e) :
    (expr r).1 = ⟨.error e, (r.skipBlank.openQuote k).state⟩ := by
  rw [expr]
  split
  · rename_i k₁ hk
    rw [hk] at h
    cases h
    split
    · rename_i e' he
      rw [he] at ho
      cases ho
      rfl
    · rename_i k₂ hk₂
      rw [hk₂] at ho
      cases ho
  · rename_i hk
    rw [hk] at h
    cases h
  · rename_i hk
    rw [hk] at h
    cases h

theorem expr_of_list {r : Reader} (h : Opening.of r.skipBlank.peek? = .list)
    (ho : r.skipBlank.openList.result = .ok ()) :
    (expr r).1 = (finishList (items r.skipBlank.openList.state).1).skipBlank := by
  rw [expr]
  split
  · rename_i k hk
    rw [hk] at h
    cases h
  · split
    · rename_i e he
      rw [he] at ho
      cases ho
    · rfl
  · rename_i hk
    rw [hk] at h
    cases h

theorem expr_of_list_error {r : Reader} {e : SyntaxError} (h : Opening.of r.skipBlank.peek? = .list)
    (ho : r.skipBlank.openList.result = .error e) :
    (expr r).1 = ⟨.error e, r.skipBlank.openList.state⟩ := by
  rw [expr]
  split
  · rename_i k hk
    rw [hk] at h
    cases h
  · split
    · rename_i e' he
      rw [he] at ho
      cases ho
      rfl
    · rename_i hu
      rw [hu] at ho
      cases ho
  · rename_i hk
    rw [hk] at h
    cases h

/-! ## The loop of `items` -/

theorem items_of_error {r : Reader} {e : SyntaxError} (h : (expr r).1.result = .error e) :
    (items r).1 = ⟨.error e, (expr r).1.state⟩ := by
  rw [items]
  split
  · rename_i e' he
    rw [he] at h
    cases h
    rfl
  · rename_i he
    rw [he] at h
    cases h
  · rename_i v he
    rw [he] at h
    cases h

theorem items_of_none {r : Reader} (h : (expr r).1.result = .ok none) :
    (items r).1 = ⟨.ok [], (expr r).1.state⟩ := by
  rw [items]
  split
  · rename_i e he
    rw [he] at h
    cases h
  · rfl
  · rename_i v he
    rw [he] at h
    cases h

theorem items_of_some {r : Reader} {v : Value} (h : (expr r).1.result = .ok (some v)) :
    (items r).1 =
      ⟨(items (expr r).1.state).1.result.map (v :: ·), (items (expr r).1.state).1.state⟩ := by
  rw [items]
  split
  · rename_i e he
    rw [he] at h
    cases h
  · rename_i he
    rw [he] at h
    cases h
  · rename_i v' he
    rw [he] at h
    cases h
    rfl

/-! ## Induction along reading

Lean derives no induction principle for the mutual definitions, so here is the one they follow:
a property of the readers an expression is read from and of those items are read from, proved
for each branch from the same property at the readers the branch goes on from. -/

/-- **Induction along reading.**  Each branch of `expr` and the loop of `items` may assume the
property at the readers they hand over to. -/
theorem read_induction (motiveExpr motiveItems : Reader → Prop)
    (leaf : ∀ r, Opening.of r.skipBlank.peek? = .leaf → motiveExpr r)
    (quote : ∀ r k, Opening.of r.skipBlank.peek? = .quote k →
      (∀ k', (r.skipBlank.openQuote k).result = .ok k' →
        motiveExpr (r.skipBlank.openQuote k).state) → motiveExpr r)
    (list : ∀ r, Opening.of r.skipBlank.peek? = .list →
      (r.skipBlank.openList.result = .ok () → motiveItems r.skipBlank.openList.state) →
      motiveExpr r)
    (items : ∀ r, motiveExpr r →
      (∀ v, (expr r).1.result = .ok (some v) → motiveItems (expr r).1.state) → motiveItems r) :
    (∀ r, motiveExpr r) ∧ (∀ r, motiveItems r) := by
  -- on the characters left: every branch hands over to a reader with fewer, except `items`,
  -- which first reads an expression from the same one
  have both : ∀ n r, r.size = n → motiveExpr r ∧ motiveItems r := by
    intro n
    induction n using Nat.strongRecOn with
    | _ n ih =>
      intro r hn
      have hexpr : motiveExpr r := by
        cases hc : Opening.of r.skipBlank.peek? with
        | leaf => exact leaf r hc
        | quote k =>
          refine quote r k hc fun k' ho => (ih _ ?_ _ rfl).1
          obtain ⟨ch, hch⟩ := Opening.peek_of_quote hc
          exact hn ▸ Nat.lt_of_lt_of_le (size_openQuote_lt (size_pos_of_peek? hch) ho)
            (size_skipBlank_le _)
        | list =>
          exact list r hc fun ho =>
            (ih _ (hn ▸ Nat.lt_of_lt_of_le (size_openList_lt ho) (size_skipBlank_le _)) _ rfl).2
      exact ⟨hexpr, items r hexpr fun v hv => (ih _ (hn ▸ (expr r).2.lt v hv) _ rfl).2⟩
  exact ⟨fun r => (both _ r rfl).1, fun r => (both _ r rfl).2⟩

/-! ## A whole document -/

/-- A document is read when one expression is, and only blanks follow it. -/
theorem document_of_some {r : Reader} {x : Value} (h : (expr r).1.result = .ok (some x))
    (hend : dropBlank (expr r).1.state.cursor.rest = []) : r.document.result = .ok x := by
  have hpeek : (expr r).1.state.skipBlank.peek? = none := by simp [hend]
  unfold document
  rw [h]
  dsimp only
  rw [hpeek]
  rfl

end Reader
end Sexpr
