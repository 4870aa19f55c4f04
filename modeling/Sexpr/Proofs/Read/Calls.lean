import Mathlib.Logic.Function.Iterate
import Mathlib.Logic.Relation
import Sexpr.Proofs.Read.Limit

/-!
# The budget over a whole run

A reader may be asked for one expression after another, and it goes on after a fault from where
the fault was detected.  This file follows the budget through such a run, and through every call
of `Sexpr.Reader.expr` nested inside each one.

The calls nested in reading one expression form a tree: a quoted form reads its body, a list
reads its items one after another.  `Sexpr.Reader.Calls r n s` says that reading from `r` reads
an expression from `s` along the way, inside `n` forms it opened and has not completed; the
budget there is the budget at `r` less `n`, exactly (`Calls.budget_add`), so an opening is never
made without a unit to spend.  A fault is raised at one reader of that tree, `Reader.Raises`,
inside `0` or `1` forms of its own, and passes unchanged to every reader above it
(`Calls.expr_of_error`).  So a call that fails has lost exactly the units of the forms that were
open when the fault was raised, and a call that succeeds has lost none.

## What is here

* `Sexpr.Reader.NextItem`, `Sexpr.Reader.Calls`, `Sexpr.Reader.Raises`: the tree of calls and
  the reader where a fault is raised.
* `Sexpr.Reader.Calls.budget_add`, `Sexpr.Reader.Raises.result_eq`, `Sexpr.Reader.Calls.expr_of_error`,
  `Sexpr.Reader.raises_of_error`: the budget along the tree, and where faults come from.
* `Sexpr.Reader.afterExprs`: the reader after a number of calls one after another, which is what
  `Sexpr.Reader.steps` runs (`steps_eq_map`).
* `Sexpr.Reader.budget_run`: **the budget over a whole run**.
-/

set_option autoImplicit false

namespace Sexpr
namespace Reader

open Relation

/-! ## Faults pass through unchanged -/

theorem Reply.eq_mk {α : Type} {rep : Reply α} {res : Except SyntaxError α} {s : Reader}
    (hres : rep.result = res) (hs : rep.state = s) : rep = ⟨res, s⟩ := by
  subst hres hs
  rfl

theorem Reply.eq_of_error {α : Type} {rep : Reply α} {e : SyntaxError}
    (h : rep.result = .error e) : rep = ⟨.error e, rep.state⟩ :=
  Reply.eq_mk h rfl

theorem Reply.skipBlank_of_error {α : Type} {rep : Reply α} {e : SyntaxError}
    (h : rep.result = .error e) : rep.skipBlank = ⟨.error e, rep.state⟩ := by
  rw [Reply.skipBlank, h]

theorem closeQuote_of_error {k : QuoteKind} {body : Reply (Option Value)} {e : SyntaxError}
    (h : body.result = .error e) : closeQuote k body = ⟨.error e, body.state⟩ := by
  rw [closeQuote, h]

theorem finishList_of_error {body : Reply (List Value)} {e : SyntaxError}
    (h : body.result = .error e) : finishList body = ⟨.error e, body.state⟩ := by
  rw [finishList, h]

/-- An opening that is refused stays where it was, and the fault is that it went too deep. -/
theorem openQuote_of_error {r : Reader} {k : QuoteKind} {e : SyntaxError}
    (h : (r.openQuote k).result = .error e) :
    r.budget = 0 ∧ (r.openQuote k).state = r ∧ e = ⟨.nestingTooDeep, r.cursor.pos⟩ := by
  by_cases hb : r.budget = 0
  · rw [openQuote_of_zero hb] at h ⊢
    cases h
    exact ⟨hb, rfl, rfl⟩
  · obtain ⟨k', hk', -⟩ := openQuote_of_budget hb k
    rw [hk'] at h
    cases h

/-- A list refused at its parenthesis stays where it was; the fault is that it went too deep, or
that there was no parenthesis. -/
theorem openList_of_error {r : Reader} {e : SyntaxError} (h : r.openList.result = .error e) :
    r.openList.state = r ∧
      (r.peek? = some '(' ∧ r.budget = 0 ∧ e = ⟨.nestingTooDeep, r.cursor.pos⟩ ∨
        r.peek? ≠ some '(' ∧ e = ⟨.expectedOpen r.peek?, r.cursor.pos⟩) := by
  by_cases hp : r.peek? = some '('
  · by_cases hb : r.budget = 0
    · rw [openList_of_zero hp hb] at h ⊢
      cases h
      exact ⟨rfl, .inl ⟨hp, hb, rfl⟩⟩
    · rw [(openList_of_budget hp hb).1] at h
      cases h
  · rw [openList, if_neg hp] at h ⊢
    cases h
    exact ⟨rfl, .inr ⟨hp, rfl⟩⟩

/-- A closing parenthesis that is not there is a fault where it was looked for. -/
theorem closeList_of_error {r : Reader} {e : SyntaxError} (h : r.closeList.result = .error e) :
    r.closeList.state = r ∧ r.peek? ≠ some ')' ∧ e = ⟨.expectedClose r.peek?, r.cursor.pos⟩ := by
  by_cases hp : r.peek? = some ')'
  · rw [closeList, if_pos hp] at h
    cases h
  · rw [closeList, if_neg hp] at h ⊢
    cases h
    exact ⟨rfl, hp, rfl⟩

/-- A list whose items were read is completed where its closing parenthesis is read. -/
theorem finishList_of_ok {body : Reply (List Value)} {vs : List Value}
    (h : body.result = .ok vs) :
    finishList body =
      ⟨body.state.closeList.result.map fun _ => some (.list vs), body.state.closeList.state⟩ := by
  rw [finishList, h]

/-- A quoted form whose body reads as nothing fails where the body ends. -/
theorem closeQuote_of_none {k : QuoteKind} {body : Reply (Option Value)}
    (h : body.result = .ok none) :
    closeQuote k body =
      ⟨.error ⟨.missingQuoted body.state.peek? k, body.state.cursor.pos⟩, body.state⟩ := by
  rw [closeQuote, h]
  rfl

/-! ## The tree of calls -/

/-- `b` is where reading one expression from `a` ends, having read one: a turn of the loop over
the items of a list. -/
def NextItem (a b : Reader) : Prop := ∃ v, (expr a).1.result = .ok (some v) ∧ (expr a).1.state = b

/-- `r.Calls n s`: reading an expression from `r` reads one from `s` along the way, inside `n`
lists and quoted forms that it opened and has not completed.  A quoted form reads its body, and a
list reads its items one after another, from where the one before ended. -/
inductive Calls : Reader → Nat → Reader → Prop
  /-- Reading from `r` is itself a call, inside nothing. -/
  | self (r : Reader) : Calls r 0 r
  /-- A quoted form opened at `r` reads its body, one form further in. -/
  | quote {r s : Reader} {k k' : QuoteKind} {n : Nat} (hc : Opening.of r.skipBlank.peek? = .quote k)
      (ho : (r.skipBlank.openQuote k).result = .ok k') (h : Calls (r.skipBlank.openQuote k).state n s) :
      Calls r (n + 1) s
  /-- A list opened at `r` reads each of its items, one form further in. -/
  | list {r q s : Reader} {n : Nat} (hc : Opening.of r.skipBlank.peek? = .list)
      (ho : r.skipBlank.openList.result = .ok ())
      (hq : ReflTransGen NextItem r.skipBlank.openList.state q) (h : Calls q n s) :
      Calls r (n + 1) s

/-- `r.Raises i e`: reading an expression from `r` raises the fault `e` itself, rather than passing
on one raised inside it, while `i` forms of its own are open: none when its opening is refused or
its leaf cannot be read, one when the quoted form or the list it opened cannot be completed. -/
inductive Raises (r : Reader) : Nat → SyntaxError → Prop
  /-- A leaf that cannot be read: a string literal that the input ends inside. -/
  | leaf {e : SyntaxError} (hc : Opening.of r.skipBlank.peek? = .leaf)
      (h : r.skipBlank.atom.result = .error e) : Raises r 0 e
  /-- A quoted form that may not be opened. -/
  | quoteRefused {k : QuoteKind} {e : SyntaxError} (hc : Opening.of r.skipBlank.peek? = .quote k)
      (h : (r.skipBlank.openQuote k).result = .error e) : Raises r 0 e
  /-- A list that may not be opened. -/
  | listRefused {e : SyntaxError} (hc : Opening.of r.skipBlank.peek? = .list)
      (h : r.skipBlank.openList.result = .error e) : Raises r 0 e
  /-- A quote shorthand followed by nothing that reads as an expression. -/
  | quoteEmpty {k k' : QuoteKind} (hc : Opening.of r.skipBlank.peek? = .quote k)
      (ho : (r.skipBlank.openQuote k).result = .ok k')
      (h : (expr (r.skipBlank.openQuote k).state).1.result = .ok none) :
      Raises r 1 ⟨.missingQuoted (expr (r.skipBlank.openQuote k).state).1.state.peek? k',
        (expr (r.skipBlank.openQuote k).state).1.state.cursor.pos⟩
  /-- Items of a list followed by something other than a closing parenthesis. -/
  | listUnclosed {vs : List Value} {e : SyntaxError} (hc : Opening.of r.skipBlank.peek? = .list)
      (ho : r.skipBlank.openList.result = .ok ())
      (h : (items r.skipBlank.openList.state).1.result = .ok vs)
      (hclose : (items r.skipBlank.openList.state).1.state.closeList.result = .error e) :
      Raises r 1 e

/-! ## The budget along the tree -/

/-- Reading an expression keeps the budget when it reads one; this is `depth_le_budget`. -/
theorem budget_expr_of_ok {r : Reader} {o : Option Value} (h : (expr r).1.result = .ok o) :
    (expr r).1.state.budget = r.budget :=
  (depth_le_budget.1 r o h).2

theorem NextItem.budget_eq {a b : Reader} (h : NextItem a b) : b.budget = a.budget := by
  obtain ⟨v, hv, rfl⟩ := h
  exact budget_expr_of_ok hv

/-- The items of a list are all read with the budget the list left. -/
theorem budget_of_nextItems {a q : Reader} (h : ReflTransGen NextItem a q) :
    q.budget = a.budget := by
  induction h with
  | refl => rfl
  | tail _ hstep ih => rw [hstep.budget_eq, ih]

/-- **The budget inside `n` forms** is the budget at the start less `n`, exactly: every opening on
the way had a unit to spend. -/
theorem Calls.budget_add {r s : Reader} {n : Nat} (h : r.Calls n s) : s.budget + n = r.budget := by
  induction h with
  | self => rfl
  | quote _ ho _ ih =>
    have hopen := budget_openQuote_of_ok ho
    rw [budget_skipBlank] at hopen
    omega
  | list _ ho hq _ ih =>
    have hopen := budget_openList_of_ok ho
    rw [budget_of_nextItems hq] at ih
    rw [budget_skipBlank] at hopen
    omega

/-- A fault raised at `r` is what reading from `r` gives, and the budget after it is the budget
at `r` less the forms of its own that were open. -/
theorem Raises.result_eq {r : Reader} {i : Nat} {e : SyntaxError} (h : r.Raises i e) :
    (expr r).1.result = .error e ∧ (expr r).1.state.budget + i = r.budget := by
  cases h with
  | leaf hc h =>
    rw [expr_of_leaf hc, Reply.skipBlank_of_error h]
    exact ⟨rfl, by simp only [budget_atom, budget_skipBlank, Nat.add_zero]⟩
  | quoteRefused hc h =>
    obtain ⟨-, hstate, -⟩ := openQuote_of_error h
    rw [expr_of_quote_error hc h, hstate]
    exact ⟨rfl, rfl⟩
  | listRefused hc h =>
    obtain ⟨hstate, -⟩ := openList_of_error h
    rw [expr_of_list_error hc h, hstate]
    exact ⟨rfl, rfl⟩
  | quoteEmpty hc ho h =>
    have hopen := budget_openQuote_of_ok ho
    have hbody := budget_expr_of_ok h
    rw [expr_of_quote hc ho, closeQuote_of_none h, Reply.skipBlank_of_error rfl]
    refine ⟨rfl, ?_⟩
    rw [budget_skipBlank] at hopen
    dsimp only
    omega
  | @listUnclosed vs e hc ho h hclose =>
    have hopen := budget_openList_of_ok ho
    have hitems := ((depth_le_budget).2 _ vs h).2
    have hfinish : finishList (items r.skipBlank.openList.state).1 =
        ⟨.error e, (items r.skipBlank.openList.state).1.state⟩ := by
      rw [finishList_of_ok h, hclose, (closeList_of_error hclose).1]
      rfl
    rw [expr_of_list hc ho, hfinish, Reply.skipBlank_of_error rfl]
    refine ⟨rfl, ?_⟩
    rw [budget_skipBlank] at hopen
    dsimp only
    omega

/-! ## Faults come from one reader of the tree -/

/-- A fault met while reading the items of a list ends them, where it was met. -/
theorem items_of_nextItems {a q : Reader} (hq : ReflTransGen NextItem a q) {e : SyntaxError}
    (h : (expr q).1.result = .error e) : (items a).1 = ⟨.error e, (expr q).1.state⟩ := by
  induction hq using ReflTransGen.head_induction_on with
  | refl => exact items_of_error h
  | head hstep _ ih =>
    obtain ⟨v, hv, rfl⟩ := hstep
    rw [items_of_some hv, ih]
    rfl

/-- **A fault passes unchanged** from any call of the tree to the reading it is part of, which
stops where the fault was met. -/
theorem Calls.expr_of_error {r s : Reader} {n : Nat} (h : r.Calls n s) {e : SyntaxError}
    (he : (expr s).1.result = .error e) : (expr r).1 = ⟨.error e, (expr s).1.state⟩ := by
  induction h with
  | self => exact Reply.eq_of_error he
  | quote hc ho _ ih =>
    rw [expr_of_quote hc ho, ih he, closeQuote_of_error rfl, Reply.skipBlank_of_error rfl]
  | list hc ho hq _ ih =>
    rw [expr_of_list hc ho, items_of_nextItems hq (by rw [ih he]), ih he,
      finishList_of_error rfl, Reply.skipBlank_of_error rfl]

/-- Every fault that reading an expression gives was raised at one reader of its tree of calls. -/
theorem raises_of_error :
    (∀ r : Reader, ∀ e, (expr r).1.result = .error e → ∃ n s i, r.Calls n s ∧ s.Raises i e) ∧
    (∀ r : Reader, ∀ e, (items r).1.result = .error e →
      ∃ q n s i, ReflTransGen NextItem r q ∧ q.Calls n s ∧ s.Raises i e) := by
  refine read_induction _ _ ?leaf ?quote ?list ?items
  case leaf =>
    intro r hc e he
    rw [expr_of_leaf hc, Reply.result_skipBlank] at he
    exact ⟨0, r, 0, .self r, .leaf hc he⟩
  case quote =>
    intro r k hc ih e he
    cases ho : (r.skipBlank.openQuote k).result with
    | error e' =>
      rw [expr_of_quote_error hc ho] at he
      cases he
      exact ⟨0, r, 0, .self r, .quoteRefused hc ho⟩
    | ok k' =>
      rw [expr_of_quote hc ho, Reply.result_skipBlank] at he
      cases hb : (expr (r.skipBlank.openQuote k).state).1.result with
      | error e' =>
        rw [closeQuote_of_error hb] at he
        cases he
        obtain ⟨n, s, i, hcalls, hraises⟩ := ih k' ho e hb
        exact ⟨n + 1, s, i, .quote hc ho hcalls, hraises⟩
      | ok o =>
        cases o with
        | none =>
          rw [closeQuote_of_none hb] at he
          cases he
          exact ⟨0, r, 1, .self r, .quoteEmpty hc ho hb⟩
        | some v => simp [closeQuote, hb] at he
  case list =>
    intro r hc ih e he
    cases ho : r.skipBlank.openList.result with
    | error e' =>
      rw [expr_of_list_error hc ho] at he
      cases he
      exact ⟨0, r, 0, .self r, .listRefused hc ho⟩
    | ok u =>
      rw [expr_of_list hc ho, Reply.result_skipBlank] at he
      cases hb : (items r.skipBlank.openList.state).1.result with
      | error e' =>
        rw [finishList_of_error hb] at he
        cases he
        obtain ⟨q, n, s, i, hq, hcalls, hraises⟩ := ih ho e hb
        exact ⟨n + 1, s, i, .list hc ho hq hcalls, hraises⟩
      | ok vs =>
        rw [finishList_of_ok hb] at he
        cases hclose : (items r.skipBlank.openList.state).1.state.closeList.result with
        | ok u' =>
          rw [hclose] at he
          cases he
        | error e' =>
          rw [hclose] at he
          cases he
          exact ⟨0, r, 1, .self r, .listUnclosed hc ho hb hclose⟩
  case items =>
    intro r hexpr ih e he
    cases hr : (expr r).1.result with
    | error e' =>
      rw [items_of_error hr] at he
      cases he
      obtain ⟨n, s, i, hcalls, hraises⟩ := hexpr e hr
      exact ⟨r, n, s, i, .refl, hcalls, hraises⟩
    | ok o =>
      cases o with
      | none =>
        rw [items_of_none hr] at he
        cases he
      | some v =>
        obtain ⟨q, n, s, i, hq, hcalls, hraises⟩ := ih v hr e ((items_error_of_some hr).1 he)
        exact ⟨q, n, s, i, .head ⟨v, hr, rfl⟩ hq, hcalls, hraises⟩

/-- A call that fails loses exactly the units of the forms open where its fault was raised. -/
theorem budget_of_error {r : Reader} {e : SyntaxError} (he : (expr r).1.result = .error e) :
    ∃ n s i, r.Calls n s ∧ s.Raises i e ∧ (expr r).1.state.budget + (n + i) = r.budget := by
  obtain ⟨n, s, i, hcalls, hraises⟩ := raises_of_error.1 r e he
  obtain ⟨-, hbud⟩ := hraises.result_eq
  have hstate : (expr r).1.state = (expr s).1.state := by
    rw [hcalls.expr_of_error hraises.result_eq.1]
  refine ⟨n, s, i, hcalls, hraises, ?_⟩
  rw [hstate, ← hcalls.budget_add]
  omega

theorem budget_expr_le (r : Reader) : (expr r).1.state.budget ≤ r.budget := by
  cases h : (expr r).1.result with
  | ok o => exact Nat.le_of_eq (budget_expr_of_ok h)
  | error e =>
    obtain ⟨n, s, i, -, -, hbud⟩ := budget_of_error h
    omega

/-! ## Runs of calls -/

/-- The reader after `j` calls of `expr`, each from where the one before stopped, whether it read
an expression, nothing, or met a fault. -/
def afterExprs (j : Nat) (r : Reader) : Reader := (fun s => (expr s).1.state)^[j] r

theorem afterExprs_succ (j : Nat) (r : Reader) :
    r.afterExprs (j + 1) = (expr (r.afterExprs j)).1.state :=
  Function.iterate_succ_apply' _ j r

/-- Reading expressions one after another and going on after faults gives, in turn, what each of
these calls gives. -/
theorem steps_eq_map (n : Nat) (r : Reader) :
    steps true n r = (List.range n).map fun j => (expr (r.afterExprs j)).1.result := by
  induction n generalizing r with
  | zero => rfl
  | succ n ih =>
    have hstep : steps true (n + 1) r = (expr r).1.result :: steps true n (expr r).1.state := by
      rw [steps]
      split <;> simp_all
    rw [hstep, ih, List.range_succ_eq_map, List.map_cons, List.map_map]
    congr 1

theorem budget_afterExprs_le (j : Nat) (r : Reader) : (r.afterExprs j).budget ≤ r.budget := by
  induction j with
  | zero => exact Nat.le_refl _
  | succ j ih =>
    rw [afterExprs_succ]
    exact Nat.le_trans (budget_expr_le _) ih

/-- **The budget over a whole run.**  Ask a reader started on `t` with the limit `m` for one
expression after another, going on after faults.  Before each call the budget is at most `m`.
Inside the call, every expression read along the way is read with the budget at the start of the
call less the forms open around it, exactly, so no opening is made without a unit and at most
the budget's worth of forms is ever open.  Every call of the tree that reads something gives back
what it spent, so completing a form returns the budget to what it was where the form started,
never more.  A call that fails loses exactly the units of the forms that were open at the reader
where its fault was raised. -/
theorem budget_run (t : String) (m j : Nat) :
    (let r := (start t ⟨m⟩).afterExprs j
    r.budget ≤ m ∧
    (∀ n s, r.Calls n s → s.budget + n = r.budget) ∧
    (∀ n s o, r.Calls n s → (expr s).1.result = .ok o → (expr s).1.state.budget = s.budget) ∧
    ∀ e, (expr r).1.result = .error e →
      ∃ n s i, r.Calls n s ∧ s.Raises i e ∧ (expr r).1.state.budget + (n + i) = r.budget) :=
  ⟨budget_afterExprs_le j _, fun _ _ h => h.budget_add, fun _ _ _ _ h => budget_expr_of_ok h,
    fun _ he => budget_of_error he⟩

end Reader
end Sexpr
