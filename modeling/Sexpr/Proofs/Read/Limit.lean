import Sexpr.Proofs.Read.Dispatch

/-!
# The depth limit

A reader carries a budget of lists and quoted forms it may still open: opening one spends a unit,
completing it gives the unit back, and an opening with no unit left is refused with the fault
`nestingTooDeep`.  The limit given to `Sexpr.parse` is the budget it starts with.  This file shows
that the limit bounds exactly the depth of what is read, and changes nothing else:

* within a limit, what is read is no deeper than the limit;
* a larger limit gives the same answer, value or fault, unless the smaller one was refused;
* when a larger limit reads a value, a smaller one reads the same value if that is shallow
  enough, and is otherwise refused at the first form, in the order of the text, that lies one
  level too deep.

The argument is a simulation.  `Sexpr.Reader.withMore r k` is `r` with `k` more units of budget.
The budget is compared with zero only when a form is opened, so every step of reading commutes
with `withMore` unless the reader with less is refused there.  Two runs on the same text therefore
go together until the one with less budget makes an opening with none left; that is the first
opening at the level where its budget runs out, which `Sexpr.Reader.firstOpen` finds on the run
with more.

## What is here

* `Sexpr.Reader.withMore`, `Sexpr.Reply.Refused`: more budget, and a refused opening.
* `Sexpr.Reader.firstOpen`: where reading first opens a form at a given level.
* `Sexpr.Reader.depth_le_budget`: what is read is no deeper than the budget, which is restored.
* `Sexpr.Reader.withMore_reads`: the simulation.
* `Sexpr.parse_depth_limit`: **the limit bounds exactly the depth**.
-/

set_option autoImplicit false

namespace Sexpr

open Text

/-! ## More budget, and refusals -/

namespace Reader

/-- The same reader, allowed `k` more lists and quoted forms. -/
def withMore (r : Reader) (k : Nat) : Reader := ⟨r.cursor, r.budget + k⟩

end Reader

namespace Reply

/-- The same reply, with `k` more units of budget left after it. -/
def withMore {α : Type} (rep : Reply α) (k : Nat) : Reply α := ⟨rep.result, rep.state.withMore k⟩

/-- The step ended refusing to open one more form. -/
def Refused {α : Type} (rep : Reply α) : Prop := ∃ p, rep.result = .error ⟨.nestingTooDeep, p⟩

@[simp] theorem result_withMore {α : Type} (rep : Reply α) (k : Nat) :
    (rep.withMore k).result = rep.result := rfl

@[simp] theorem state_withMore {α : Type} (rep : Reply α) (k : Nat) :
    (rep.withMore k).state = rep.state.withMore k := rfl

theorem skipBlank_withMore {α : Type} (rep : Reply α) (k : Nat) :
    (rep.withMore k).skipBlank = rep.skipBlank.withMore k := by
  unfold skipBlank
  rw [result_withMore]
  cases rep.result <;> rfl

@[simp] theorem budget_skipBlank {α : Type} (rep : Reply α) :
    rep.skipBlank.state.budget = rep.state.budget := by
  unfold skipBlank
  split <;> rfl

end Reply

namespace Reader

@[simp] theorem cursor_withMore (r : Reader) (k : Nat) : (r.withMore k).cursor = r.cursor := rfl

@[simp] theorem budget_withMore (r : Reader) (k : Nat) : (r.withMore k).budget = r.budget + k :=
  rfl

theorem withMore_skipBlank (r : Reader) (k : Nat) :
    (r.withMore k).skipBlank = r.skipBlank.withMore k := rfl

theorem peek?_withMore (r : Reader) (k : Nat) : (r.withMore k).peek? = r.peek? := rfl

theorem withMore_enter {r : Reader} (h : r.budget ≠ 0) (k : Nat) :
    (r.withMore k).enter = r.enter.withMore k := by
  simp only [enter, withMore, Reader.mk.injEq, true_and]
  omega

theorem withMore_leave (r : Reader) (k : Nat) : (r.withMore k).leave = r.leave.withMore k := by
  simp only [leave, withMore, Reader.mk.injEq, true_and]
  omega

/-! ## Steps that do not look at the budget -/

theorem string_withMore (r : Reader) (k : Nat) : (r.withMore k).string = r.string.withMore k := by
  unfold string
  rw [cursor_withMore]
  cases Literal.stringBody (r.cursor.rest.drop 1) <;> rfl

theorem atom_withMore (r : Reader) (k : Nat) : (r.withMore k).atom = r.atom.withMore k := by
  unfold atom
  rw [peek?_withMore]
  by_cases hp : r.peek? = some '"'
  · rw [if_pos hp, if_pos hp, string_withMore]
  · rw [if_neg hp, if_neg hp]
    rfl

theorem budget_atom (r : Reader) : r.atom.state.budget = r.budget := by
  unfold atom string bare
  split
  · split <;> rfl
  · rfl

/-- A leaf is an atom or a string, neither of which is nested. -/
theorem depth_of_atom {r : Reader} {v : Value} (h : r.atom.result = .ok (some v)) :
    v.depth = 0 := by
  unfold atom string bare at h
  split at h
  · split at h
    · cases h
      rfl
    · cases h
  · simp only [reply, Except.ok.injEq] at h
    split at h
    · cases h
    · cases h
      rfl

/-- Reading a leaf opens nothing, so it is never refused. -/
theorem atom_not_refused (r : Reader) : ¬ r.atom.Refused := by
  rintro ⟨p, hp⟩
  unfold atom string bare at hp
  split at hp
  · split at hp <;> cases hp
  · cases hp

/-! ## Opening and closing -/

/-- An opening with budget left succeeds, spending one unit. -/
theorem openQuote_of_budget {r : Reader} (h : r.budget ≠ 0) (k : QuoteKind) :
    ∃ k', (r.openQuote k).result = .ok k' ∧ (r.openQuote k).state.budget = r.budget - 1 := by
  unfold openQuote
  rw [if_neg h]
  split
  · exact ⟨_, rfl, rfl⟩
  · exact ⟨_, rfl, rfl⟩

theorem openQuote_of_zero {r : Reader} (h : r.budget = 0) (k : QuoteKind) :
    r.openQuote k = r.fail .nestingTooDeep := by
  rw [openQuote, if_pos h]

theorem budget_ne_zero_of_openQuote {r : Reader} {k k' : QuoteKind}
    (h : (r.openQuote k).result = .ok k') : r.budget ≠ 0 := by
  intro h0
  rw [openQuote_of_zero h0] at h
  cases h

theorem openQuote_withMore {r : Reader} (h : r.budget ≠ 0) (k : QuoteKind) (n : Nat) :
    (r.withMore n).openQuote k = (r.openQuote k).withMore n := by
  unfold openQuote
  rw [if_neg (by simp only [budget_withMore]; omega), if_neg h, withMore_enter h, peek?_withMore]
  by_cases hq : k = .unquote ∧ r.enter.peek? = some '@'
  · rw [if_pos hq, if_pos hq]
    rfl
  · rw [if_neg hq, if_neg hq]
    rfl

theorem openList_of_budget {r : Reader} (hp : r.peek? = some '(') (h : r.budget ≠ 0) :
    r.openList.result = .ok () ∧ r.openList.state.budget = r.budget - 1 := by
  unfold openList
  rw [if_pos hp, if_neg h]
  exact ⟨rfl, rfl⟩

theorem openList_of_zero {r : Reader} (hp : r.peek? = some '(') (h : r.budget = 0) :
    r.openList = r.fail .nestingTooDeep := by
  rw [openList, if_pos hp, if_pos h]

theorem budget_ne_zero_of_openList {r : Reader} (h : r.openList.result = .ok ()) :
    r.budget ≠ 0 := by
  intro h0
  by_cases hp : r.peek? = some '('
  · rw [openList_of_zero hp h0] at h
    cases h
  · rw [openList, if_neg hp] at h
    cases h

/-- An opening that succeeds spends one unit of budget. -/
theorem budget_openQuote_of_ok {r : Reader} {k k' : QuoteKind}
    (h : (r.openQuote k).result = .ok k') : (r.openQuote k).state.budget + 1 = r.budget := by
  have hb := budget_ne_zero_of_openQuote h
  obtain ⟨-, -, hbud⟩ := openQuote_of_budget hb k
  omega

theorem budget_openList_of_ok {r : Reader} (h : r.openList.result = .ok ()) :
    r.openList.state.budget + 1 = r.budget := by
  have hb := budget_ne_zero_of_openList h
  by_cases hp : r.peek? = some '('
  · have hbud := (openList_of_budget hp hb).2
    omega
  · rw [openList, if_neg hp] at h
    cases h

theorem openList_withMore {r : Reader} (h : r.budget ≠ 0) (n : Nat) :
    (r.withMore n).openList = r.openList.withMore n := by
  have hn : ¬ (r.withMore n).budget = 0 := by
    simp only [budget_withMore]
    omega
  unfold openList
  rw [peek?_withMore]
  by_cases hp : r.peek? = some '('
  · rw [if_pos hp, if_pos hp, if_neg hn, if_neg h, withMore_enter h]
    rfl
  · rw [if_neg hp, if_neg hp]
    rfl

theorem closeList_withMore (r : Reader) (n : Nat) :
    (r.withMore n).closeList = r.closeList.withMore n := by
  unfold closeList
  rw [peek?_withMore, withMore_leave]
  by_cases hp : r.peek? = some ')'
  · rw [if_pos hp, if_pos hp]
    rfl
  · rw [if_neg hp, if_neg hp]
    rfl

theorem closeQuote_withMore (k : QuoteKind) (body : Reply (Option Value)) (n : Nat) :
    closeQuote k (body.withMore n) = (closeQuote k body).withMore n := by
  unfold closeQuote
  simp only [Reply.result_withMore, Reply.state_withMore]
  cases body.result with
  | error e => rfl
  | ok o =>
    cases o with
    | none => rfl
    | some v =>
      simp only [Reply.withMore, withMore, Reply.mk.injEq, Reader.mk.injEq, true_and]
      omega

theorem finishList_withMore (body : Reply (List Value)) (n : Nat) :
    finishList (body.withMore n) = (finishList body).withMore n := by
  unfold finishList
  simp only [Reply.result_withMore, Reply.state_withMore]
  cases body.result with
  | error e => rfl
  | ok vs =>
    simp only [closeList_withMore]
    rfl

/-- A quoted form is completed when its body is read, and gives back its unit of budget. -/
theorem closeQuote_ok {k : QuoteKind} {body : Reply (Option Value)} {o : Option Value}
    (h : (closeQuote k body).result = .ok o) :
    ∃ v, body.result = .ok (some v) ∧ o = some (.quoted k v) ∧
      (closeQuote k body).state.budget = body.state.budget + 1 := by
  unfold closeQuote at h ⊢
  split at h
  · cases h
  · cases h
  · rename_i v hv
    cases h
    rw [hv]
    exact ⟨v, rfl, rfl, rfl⟩

theorem closeQuote_refused {k : QuoteKind} {body : Reply (Option Value)} {p : Pos}
    (h : (closeQuote k body).result = .error ⟨.nestingTooDeep, p⟩) :
    body.result = .error ⟨.nestingTooDeep, p⟩ := by
  unfold closeQuote at h
  split at h
  · rename_i e he
    cases h
    exact he
  · cases h
  · cases h

/-- A list is completed when its items are read and a closing parenthesis follows them, and gives
back its unit of budget. -/
theorem finishList_ok {body : Reply (List Value)} {o : Option Value}
    (h : (finishList body).result = .ok o) :
    ∃ vs, body.result = .ok vs ∧ o = some (.list vs) ∧
      (finishList body).state.budget = body.state.budget + 1 := by
  unfold finishList at h ⊢
  cases hb : body.result with
  | error e => simp only [hb] at h; cases h
  | ok vs =>
    simp only [hb] at h ⊢
    by_cases hp : body.state.peek? = some ')'
    · simp only [closeList, if_pos hp] at h ⊢
      cases h
      exact ⟨vs, rfl, rfl, rfl⟩
    · simp only [closeList, if_neg hp] at h
      cases h

theorem finishList_refused {body : Reply (List Value)} {p : Pos}
    (h : (finishList body).result = .error ⟨.nestingTooDeep, p⟩) :
    body.result = .error ⟨.nestingTooDeep, p⟩ := by
  unfold finishList at h
  split at h
  · rename_i e he
    cases h
    exact he
  · unfold closeList at h
    split at h <;> cases h

theorem Opening.peek_of_list {r : Reader} (h : Opening.of r.skipBlank.peek? = .list) :
    r.skipBlank.peek? = some '(' := by
  generalize r.skipBlank.peek? = c at h ⊢
  cases c with
  | none => cases h
  | some c =>
    simp only [Opening.of] at h
    split at h
    · cases h
    · split at h
      · rename_i hc
        rw [hc]
      · cases h

/-! ## Depth within the budget -/

/-- **What is read is no deeper than the budget**, and reading it leaves the budget as it was;
the items of a list likewise. -/
theorem depth_le_budget :
    (∀ r : Reader, ∀ o, (expr r).1.result = .ok o →
      (∀ v, o = some v → v.depth ≤ r.budget) ∧ (expr r).1.state.budget = r.budget) ∧
    (∀ r : Reader, ∀ vs, (items r).1.result = .ok vs →
      Value.depthItems vs ≤ r.budget ∧ (items r).1.state.budget = r.budget) := by
  refine read_induction _ _ ?leaf ?quote ?list ?items
  case leaf =>
    intro r hc o ho
    rw [expr_of_leaf hc, Reply.result_skipBlank] at ho
    refine ⟨fun v hv => ?_, ?_⟩
    · subst hv
      rw [depth_of_atom ho]
      exact Nat.zero_le _
    · rw [expr_of_leaf hc, Reply.budget_skipBlank, budget_atom, budget_skipBlank]
  case quote =>
    intro r k hc ih o ho
    cases hq : (r.skipBlank.openQuote k).result with
    | error e => rw [expr_of_quote_error hc hq] at ho; cases ho
    | ok k' =>
      have hopen := budget_openQuote_of_ok hq
      rw [budget_skipBlank] at hopen
      rw [expr_of_quote hc hq, Reply.result_skipBlank] at ho
      obtain ⟨v, hv, rfl, hclose⟩ := closeQuote_ok ho
      obtain ⟨hdepth, hstate⟩ := ih k' hq _ hv
      refine ⟨fun w hw => ?_, ?_⟩
      · cases hw
        have := hdepth v rfl
        simp only [Value.depth] at this ⊢
        omega
      · rw [expr_of_quote hc hq, Reply.budget_skipBlank, hclose, hstate]
        exact hopen
  case list =>
    intro r hc ih o ho
    cases hl : r.skipBlank.openList.result with
    | error e => rw [expr_of_list_error hc hl] at ho; cases ho
    | ok u =>
      have hopen := budget_openList_of_ok hl
      rw [budget_skipBlank] at hopen
      rw [expr_of_list hc hl, Reply.result_skipBlank] at ho
      obtain ⟨vs, hvs, rfl, hclose⟩ := finishList_ok ho
      obtain ⟨hdepth, hstate⟩ := ih hl _ hvs
      refine ⟨fun w hw => ?_, ?_⟩
      · cases hw
        simp only [Value.depth]
        omega
      · rw [expr_of_list hc hl, Reply.budget_skipBlank, hclose, hstate]
        exact hopen
  case items =>
    intro r hexpr ih vs hvs
    cases he : (expr r).1.result with
    | error e => rw [items_of_error he] at hvs; cases hvs
    | ok o =>
      cases o with
      | none =>
        rw [items_of_none he] at hvs ⊢
        cases hvs
        exact ⟨Nat.zero_le _, (hexpr _ he).2⟩
      | some v =>
        rw [items_of_some he] at hvs ⊢
        obtain ⟨hv, hstate⟩ := hexpr _ he
        cases hmore : (items (expr r).1.state).1.result with
        | error e => rw [hmore] at hvs; cases hvs
        | ok ws =>
          rw [hmore] at hvs
          cases hvs
          obtain ⟨hws, hstate'⟩ := ih v he ws hmore
          refine ⟨?_, by rw [hstate', hstate]⟩
          have := hv v rfl
          simp only [Value.depthItems]
          rw [hstate] at hws
          omega

/-! ## The first form at a level

Reading goes through the text in order, so the first form it opens at a given level is also the
first in the text.  `firstOpen n r` is where reading an expression from `r` first opens a form `n`
levels below that expression, which is level `0`; `firstOpenItems n r` the same for the items of a
list read from `r`. -/

mutual

/-- Where reading an expression from `r` first opens a form `n` levels below it: the position of
its opening parenthesis or quote character, if reading gets there. -/
def firstOpen (n : Nat) (r : Reader) : Option Pos :=
  match n with
  | 0 => if Opening.of r.skipBlank.peek? = .leaf then none else some r.skipBlank.cursor.pos
  | n + 1 =>
    match hc : Opening.of r.skipBlank.peek? with
    | .leaf => none
    | .quote k =>
      match ho : (r.skipBlank.openQuote k).result with
      | .ok _ =>
        have : (r.skipBlank.openQuote k).state.size < r.size := by
          obtain ⟨ch, hch⟩ := Opening.peek_of_quote hc
          exact Nat.lt_of_lt_of_le (size_openQuote_lt (size_pos_of_peek? hch) ho)
            (size_skipBlank_le _)
        firstOpen n (r.skipBlank.openQuote k).state
      | .error _ => none
    | .list =>
      match ho : r.skipBlank.openList.result with
      | .ok () =>
        have : r.skipBlank.openList.state.size < r.size :=
          Nat.lt_of_lt_of_le (size_openList_lt ho) (size_skipBlank_le _)
        firstOpenItems n r.skipBlank.openList.state
      | .error _ => none
termination_by 2 * r.size
decreasing_by all_goals omega

/-- Where reading the items of a list from `r` first opens a form `n` levels below an item. -/
def firstOpenItems (n : Nat) (r : Reader) : Option Pos :=
  match firstOpen n r with
  | some p => some p
  | none =>
    match h : (expr r).1.result with
    | .ok (some v) =>
      have : (expr r).1.state.size < r.size := (expr r).2.lt v h
      firstOpenItems n (expr r).1.state
    | _ => none
termination_by 2 * r.size + 1
decreasing_by all_goals omega

end

theorem firstOpen_of_leaf {r : Reader} (hc : Opening.of r.skipBlank.peek? = .leaf) (n : Nat) :
    firstOpen n r = none := by
  cases n with
  | zero => rw [firstOpen, if_pos hc]
  | succ n =>
    rw [firstOpen]
    split
    · rfl
    · rename_i k hk
      rw [hk] at hc
      cases hc
    · rename_i hk
      rw [hk] at hc
      cases hc

theorem firstOpen_zero {r : Reader} (hc : Opening.of r.skipBlank.peek? ≠ .leaf) :
    firstOpen 0 r = some r.skipBlank.cursor.pos := by
  rw [firstOpen, if_neg hc]

theorem firstOpen_quote {r : Reader} {k k' : QuoteKind}
    (hc : Opening.of r.skipBlank.peek? = .quote k) (ho : (r.skipBlank.openQuote k).result = .ok k')
    (n : Nat) : firstOpen (n + 1) r = firstOpen n (r.skipBlank.openQuote k).state := by
  rw [firstOpen]
  split
  · rename_i hk
    rw [hk] at hc
    cases hc
  · rename_i k₁ hk
    rw [hk] at hc
    cases hc
    split
    · rfl
    · rename_i e he
      rw [he] at ho
      cases ho
  · rename_i hk
    rw [hk] at hc
    cases hc

theorem firstOpen_list {r : Reader} (hc : Opening.of r.skipBlank.peek? = .list)
    (ho : r.skipBlank.openList.result = .ok ()) (n : Nat) :
    firstOpen (n + 1) r = firstOpenItems n r.skipBlank.openList.state := by
  rw [firstOpen]
  split
  · rename_i hk
    rw [hk] at hc
    cases hc
  · rename_i k hk
    rw [hk] at hc
    cases hc
  · split
    · rfl
    · rename_i e he
      rw [he] at ho
      cases ho

theorem firstOpenItems_of_some {r : Reader} {n : Nat} {p : Pos} (h : firstOpen n r = some p) :
    firstOpenItems n r = some p := by
  rw [firstOpenItems, h]

theorem firstOpenItems_of_next {r : Reader} {n : Nat} {v : Value} (h : firstOpen n r = none)
    (hv : (expr r).1.result = .ok (some v)) :
    firstOpenItems n r = firstOpenItems n (expr r).1.state := by
  rw [firstOpenItems, h]
  dsimp only
  split
  · rfl
  · rename_i hne
    exact absurd hv (hne v)

theorem firstOpenItems_of_stop {r : Reader} {n : Nat} (h : firstOpen n r = none)
    (hv : ∀ v, (expr r).1.result ≠ .ok (some v)) : firstOpenItems n r = none := by
  rw [firstOpenItems, h]
  dsimp only
  split
  · rename_i v hv'
    exact absurd hv' (hv v)
  · rfl

/-! ## Faults pass through -/

theorem closeQuote_error {k : QuoteKind} {body : Reply (Option Value)} {e : SyntaxError}
    (h : body.result = .error e) : (closeQuote k body).result = .error e := by
  unfold closeQuote
  rw [h]

theorem finishList_error {body : Reply (List Value)} {e : SyntaxError}
    (h : body.result = .error e) : (finishList body).result = .error e := by
  unfold finishList
  rw [h]

theorem items_error_of_some {r : Reader} {v : Value} {e : SyntaxError}
    (hv : (expr r).1.result = .ok (some v)) :
    (items r).1.result = .error e ↔ (items (expr r).1.state).1.result = .error e := by
  rw [items_of_some hv]
  cases (items (expr r).1.state).1.result <;> simp [Except.map]

theorem items_ok_of_some {r : Reader} {v : Value} {vs : List Value}
    (hv : (expr r).1.result = .ok (some v)) (h : (items r).1.result = .ok vs) :
    ∃ ws, (items (expr r).1.state).1.result = .ok ws ∧ vs = v :: ws := by
  rw [items_of_some hv] at h
  cases hm : (items (expr r).1.state).1.result with
  | error e => rw [hm] at h; cases h
  | ok ws =>
    rw [hm] at h
    cases h
    exact ⟨ws, rfl, rfl⟩

/-- An expression read at a quote character is a quoted form, of the body read after it. -/
theorem expr_quote_ok {r : Reader} {k k' : QuoteKind} {o : Option Value}
    (hc : Opening.of r.skipBlank.peek? = .quote k) (hq : (r.skipBlank.openQuote k).result = .ok k')
    (h : (expr r).1.result = .ok o) :
    ∃ v, (expr (r.skipBlank.openQuote k).state).1.result = .ok (some v) ∧ o = some (.quoted k' v) := by
  rw [expr_of_quote hc hq, Reply.result_skipBlank] at h
  obtain ⟨v, hv, rfl, -⟩ := closeQuote_ok h
  exact ⟨v, hv, rfl⟩

/-- An expression read at an opening parenthesis is a list, of the items read after it. -/
theorem expr_list_ok {r : Reader} {o : Option Value} (hc : Opening.of r.skipBlank.peek? = .list)
    (hl : r.skipBlank.openList.result = .ok ()) (h : (expr r).1.result = .ok o) :
    ∃ vs, (items r.skipBlank.openList.state).1.result = .ok vs ∧ o = some (.list vs) := by
  rw [expr_of_list hc hl, Reply.result_skipBlank] at h
  obtain ⟨vs, hvs, rfl, -⟩ := finishList_ok h
  exact ⟨vs, hvs, rfl⟩

theorem depth_pos_of_quote {r : Reader} {k : QuoteKind} {o : Option Value}
    (hc : Opening.of r.skipBlank.peek? = .quote k) (h : (expr r).1.result = .ok o) :
    ∃ v, o = some v ∧ 0 < v.depth := by
  cases hq : (r.skipBlank.openQuote k).result with
  | error e => rw [expr_of_quote_error hc hq] at h; cases h
  | ok k' =>
    obtain ⟨v, -, rfl⟩ := expr_quote_ok hc hq h
    exact ⟨_, rfl, Nat.succ_pos _⟩

theorem depth_pos_of_list {r : Reader} {o : Option Value}
    (hc : Opening.of r.skipBlank.peek? = .list) (h : (expr r).1.result = .ok o) :
    ∃ v, o = some v ∧ 0 < v.depth := by
  cases hl : r.skipBlank.openList.result with
  | error e => rw [expr_of_list_error hc hl] at h; cases h
  | ok u =>
    obtain ⟨vs, -, rfl⟩ := expr_list_ok hc hl h
    exact ⟨_, rfl, Nat.succ_pos _⟩

/-- With no budget left, an opening is refused at its own character. -/
theorem expr_of_zero {r : Reader} (hc : Opening.of r.skipBlank.peek? ≠ .leaf) (hb : r.budget = 0) :
    (expr r).1.result = .error ⟨.nestingTooDeep, r.skipBlank.cursor.pos⟩ := by
  have hb' : r.skipBlank.budget = 0 := by rw [budget_skipBlank, hb]
  cases hk : Opening.of r.skipBlank.peek? with
  | leaf => exact absurd hk hc
  | quote q =>
    rw [expr_of_quote_error hk (e := ⟨.nestingTooDeep, r.skipBlank.cursor.pos⟩)
      (by rw [openQuote_of_zero hb']; rfl)]
  | list =>
    rw [expr_of_list_error hk (e := ⟨.nestingTooDeep, r.skipBlank.cursor.pos⟩)
      (by rw [openList_of_zero (Opening.peek_of_list hk) hb']; rfl)]

/-- Whatever is read at an opening character is a list or a quoted form. -/
theorem depth_pos_of_open {r : Reader} {o : Option Value}
    (hc : Opening.of r.skipBlank.peek? ≠ .leaf) (h : (expr r).1.result = .ok o) :
    ∃ v, o = some v ∧ 0 < v.depth := by
  cases hk : Opening.of r.skipBlank.peek? with
  | leaf => exact absurd hk hc
  | quote q => exact depth_pos_of_quote hk h
  | list => exact depth_pos_of_list hk h

/-! ## The simulation -/

/-- Reading an expression from `r` and from `r` with `k` more budget go together unless the first
is refused; and when it is, the refusal is where the second first opens a form at the level the
budget of `r` runs out, and anything the second reads is deeper than that budget. -/
def ExprWithMore (r : Reader) : Prop :=
  ∀ k, (¬ (expr r).1.Refused →
      (expr (r.withMore k)).1 = (expr r).1.withMore k ∧ firstOpen r.budget (r.withMore k) = none) ∧
    ∀ p, (expr r).1.result = .error ⟨.nestingTooDeep, p⟩ →
      firstOpen r.budget (r.withMore k) = some p ∧
      ∀ o, (expr (r.withMore k)).1.result = .ok o → ∃ v, o = some v ∧ r.budget < v.depth

/-- `ExprWithMore` for the items of a list. -/
def ItemsWithMore (r : Reader) : Prop :=
  ∀ k, (¬ (items r).1.Refused →
      (items (r.withMore k)).1 = (items r).1.withMore k ∧
        firstOpenItems r.budget (r.withMore k) = none) ∧
    ∀ p, (items r).1.result = .error ⟨.nestingTooDeep, p⟩ →
      firstOpenItems r.budget (r.withMore k) = some p ∧
      ∀ vs, (items (r.withMore k)).1.result = .ok vs → r.budget < Value.depthItems vs

theorem exprWithMore_leaf {r : Reader} (hc : Opening.of r.skipBlank.peek? = .leaf) :
    ExprWithMore r := by
  intro k
  refine ⟨fun _ => ⟨?_, firstOpen_of_leaf (r := r.withMore k) hc _⟩, fun p hp => ?_⟩
  · rw [expr_of_leaf hc, expr_of_leaf (r := r.withMore k) hc, withMore_skipBlank, atom_withMore,
      Reply.skipBlank_withMore]
  · rw [expr_of_leaf hc, Reply.result_skipBlank] at hp
    exact absurd ⟨p, hp⟩ (atom_not_refused _)

/-- With no budget left, reading at an opening character is refused there, which is where the
reader with more budget opens its first form at level `0`, and whatever that reader reads there
is nested. -/
theorem exprWithMore_of_zero {r : Reader} (hc : Opening.of r.skipBlank.peek? ≠ .leaf)
    (hb : r.budget = 0) : ExprWithMore r := by
  intro k
  have hrefuse := expr_of_zero hc hb
  rw [hb]
  refine ⟨fun hnot => absurd ⟨_, hrefuse⟩ hnot, fun p hp => ?_⟩
  rw [hrefuse, Except.error.injEq, SyntaxError.mk.injEq] at hp
  rw [← hp.2]
  exact ⟨firstOpen_zero (r := r.withMore k) hc, fun o ho => depth_pos_of_open (r := r.withMore k) hc ho⟩

/-- A quoted form opens alike with more budget and with less, while the one with less has budget
left, and then its body decides. -/
theorem exprWithMore_quote {r : Reader} {q : QuoteKind}
    (hc : Opening.of r.skipBlank.peek? = .quote q)
    (ih : ∀ q', (r.skipBlank.openQuote q).result = .ok q' →
      ExprWithMore (r.skipBlank.openQuote q).state) : ExprWithMore r := by
  cases hb : r.budget with
  | zero => exact exprWithMore_of_zero (by rw [hc]; exact nofun) hb
  | succ n =>
    intro k
    rw [hb]
    have hb0 : r.skipBlank.budget ≠ 0 := by simp [hb]
    obtain ⟨q', hq, hbud⟩ := openQuote_of_budget hb0 q
    have hopen := openQuote_withMore hb0 q k
    have hq' : ((r.withMore k).skipBlank.openQuote q).result = .ok q' := by
      rw [withMore_skipBlank, hopen]
      exact hq
    have hstate : ((r.withMore k).skipBlank.openQuote q).state =
        (r.skipBlank.openQuote q).state.withMore k := by
      rw [withMore_skipBlank, hopen]
      rfl
    have hsmall := expr_of_quote hc hq
    have hbig := expr_of_quote (r := r.withMore k) hc hq'
    have hfirst := firstOpen_quote (r := r.withMore k) hc hq' n
    rw [hstate] at hbig hfirst
    have hbody : (r.skipBlank.openQuote q).state.budget = n := by
      rw [hbud, budget_skipBlank, hb]
      rfl
    obtain ⟨ih₁, ih₂⟩ := ih q' hq k
    rw [hbody] at ih₁ ih₂
    refine ⟨fun hnot => ?_, fun p hp => ?_⟩
    · obtain ⟨hsim, hnone⟩ := ih₁ fun ⟨p, hp⟩ =>
        hnot ⟨p, by rw [hsmall, Reply.result_skipBlank]; exact closeQuote_error hp⟩
      refine ⟨?_, by rw [hfirst, hnone]⟩
      rw [hbig, hsim, closeQuote_withMore, Reply.skipBlank_withMore, hsmall]
    · rw [hsmall, Reply.result_skipBlank] at hp
      obtain ⟨hat, hdeep⟩ := ih₂ p (closeQuote_refused hp)
      refine ⟨by rw [hfirst, hat], fun o ho => ?_⟩
      rw [hbig, Reply.result_skipBlank] at ho
      obtain ⟨v, hv, rfl, -⟩ := closeQuote_ok ho
      obtain ⟨w, hw, hlt⟩ := hdeep _ hv
      cases hw
      exact ⟨_, rfl, Nat.succ_lt_succ hlt⟩

/-- A list opens alike with more budget and with less, while the one with less has budget left,
and then its items decide. -/
theorem exprWithMore_list {r : Reader} (hc : Opening.of r.skipBlank.peek? = .list)
    (ih : r.skipBlank.openList.result = .ok () → ItemsWithMore r.skipBlank.openList.state) :
    ExprWithMore r := by
  cases hb : r.budget with
  | zero => exact exprWithMore_of_zero (by rw [hc]; exact nofun) hb
  | succ n =>
    intro k
    rw [hb]
    have hpeek := Opening.peek_of_list hc
    have hb0 : r.skipBlank.budget ≠ 0 := by simp [hb]
    obtain ⟨hl, hbud⟩ := openList_of_budget hpeek hb0
    have hopen := openList_withMore hb0 k
    have hl' : (r.withMore k).skipBlank.openList.result = .ok () := by
      rw [withMore_skipBlank, hopen]
      exact hl
    have hstate : (r.withMore k).skipBlank.openList.state = r.skipBlank.openList.state.withMore k := by
      rw [withMore_skipBlank, hopen]
      rfl
    have hsmall := expr_of_list hc hl
    have hbig := expr_of_list (r := r.withMore k) hc hl'
    have hfirst := firstOpen_list (r := r.withMore k) hc hl' n
    rw [hstate] at hbig hfirst
    have hbody : r.skipBlank.openList.state.budget = n := by
      rw [hbud, budget_skipBlank, hb]
      rfl
    obtain ⟨ih₁, ih₂⟩ := ih hl k
    rw [hbody] at ih₁ ih₂
    refine ⟨fun hnot => ?_, fun p hp => ?_⟩
    · obtain ⟨hsim, hnone⟩ := ih₁ fun ⟨p, hp⟩ =>
        hnot ⟨p, by rw [hsmall, Reply.result_skipBlank]; exact finishList_error hp⟩
      refine ⟨?_, by rw [hfirst, hnone]⟩
      rw [hbig, hsim, finishList_withMore, Reply.skipBlank_withMore, hsmall]
    · rw [hsmall, Reply.result_skipBlank] at hp
      obtain ⟨hat, hdeep⟩ := ih₂ p (finishList_refused hp)
      refine ⟨by rw [hfirst, hat], fun o ho => ?_⟩
      rw [hbig, Reply.result_skipBlank] at ho
      obtain ⟨vs, hvs, rfl, -⟩ := finishList_ok ho
      exact ⟨_, rfl, Nat.succ_lt_succ (hdeep vs hvs)⟩

/-- The items of a list are read alike with more budget and with less.  If the first expression
is refused, so are the items; otherwise it reads alike in both, and after it the rest of the
items decide. -/
theorem itemsWithMore_of {r : Reader} (hexpr : ExprWithMore r)
    (ih : ∀ v, (expr r).1.result = .ok (some v) → ItemsWithMore (expr r).1.state) :
    ItemsWithMore r := by
  intro k
  obtain ⟨e₁, e₂⟩ := hexpr k
  by_cases hre : (expr r).1.Refused
  · obtain ⟨p, hp⟩ := hre
    have hitems := items_of_error hp
    obtain ⟨hat, hdeep⟩ := e₂ p hp
    refine ⟨fun hnot => absurd ⟨p, by rw [hitems]⟩ hnot, fun p' hp' => ?_⟩
    rw [hitems, Except.error.injEq, SyntaxError.mk.injEq] at hp'
    rw [← hp'.2]
    refine ⟨firstOpenItems_of_some hat, fun vs hvs => ?_⟩
    cases hbig : (expr (r.withMore k)).1.result with
    | error e => rw [items_of_error hbig] at hvs; cases hvs
    | ok o =>
      obtain ⟨v, rfl, hlt⟩ := hdeep o hbig
      obtain ⟨ws, -, rfl⟩ := items_ok_of_some hbig hvs
      simp only [Value.depthItems]
      omega
  · obtain ⟨hsim, hnone⟩ := e₁ hre
    have hbig : (expr (r.withMore k)).1.result = (expr r).1.result := by rw [hsim]; rfl
    cases he : (expr r).1.result with
    | error e =>
      rw [he] at hbig
      refine ⟨fun _ => ⟨?_, firstOpenItems_of_stop hnone (by rw [hbig]; exact fun _ => nofun)⟩,
        fun p hp => absurd ⟨p, by
          rw [items_of_error he, Except.error.injEq] at hp
          rw [he, hp]⟩ hre⟩
      rw [items_of_error hbig, items_of_error he, hsim]
      rfl
    | ok o =>
      rw [he] at hbig
      cases o with
      | none =>
        refine ⟨fun _ => ⟨?_, firstOpenItems_of_stop hnone (by rw [hbig]; exact fun _ => nofun)⟩,
          fun p hp => by rw [items_of_none he] at hp; cases hp⟩
        rw [items_of_none hbig, items_of_none he, hsim]
        rfl
      | some v =>
        have hstate : (expr (r.withMore k)).1.state = (expr r).1.state.withMore k := by
          rw [hsim]
          rfl
        have hfirst := firstOpenItems_of_next hnone hbig
        rw [hstate] at hfirst
        obtain ⟨i₁, i₂⟩ := ih v he k
        rw [((depth_le_budget).1 r _ he).2] at i₁ i₂
        refine ⟨fun hnot => ?_, fun p hp => ?_⟩
        · obtain ⟨hsim', hnone'⟩ := i₁ fun ⟨p, hp⟩ => hnot ⟨p, (items_error_of_some he).2 hp⟩
          refine ⟨?_, by rw [hfirst, hnone']⟩
          rw [items_of_some hbig, items_of_some he, hstate, hsim']
          rfl
        · obtain ⟨hat, hdeep⟩ := i₂ p ((items_error_of_some he).1 hp)
          refine ⟨by rw [hfirst, hat], fun vs hvs => ?_⟩
          obtain ⟨ws, hws, rfl⟩ := items_ok_of_some hbig hvs
          rw [hstate] at hws
          have := hdeep ws hws
          simp only [Value.depthItems]
          omega

/-- **Reading with more budget goes together with reading with less** until the one with less
is refused. -/
theorem withMore_reads : (∀ r, ExprWithMore r) ∧ (∀ r, ItemsWithMore r) :=
  read_induction _ _ (fun _ hc => exprWithMore_leaf hc) (fun _ _ hc ih => exprWithMore_quote hc ih)
    (fun _ hc ih => exprWithMore_list hc ih) (fun _ hexpr ih => itemsWithMore_of hexpr ih)

/-! ## A whole document -/

theorem document_of_error {r : Reader} {e : SyntaxError} (h : (expr r).1.result = .error e) :
    r.document.result = .error e := by
  unfold document
  rw [h]

/-- A whole document is read only as an expression with nothing after it. -/
theorem document_ok {r : Reader} {v : Value} (h : r.document.result = .ok v) :
    (expr r).1.result = .ok (some v) := by
  unfold document at h
  cases ho : (expr r).1.result with
  | error e => rw [ho] at h; cases h
  | ok o =>
    rw [ho] at h
    dsimp only at h
    cases hp : (expr r).1.state.skipBlank.peek? with
    | some c => rw [hp] at h; cases h
    | none =>
      rw [hp] at h
      cases o with
      | none => cases h
      | some w => cases h; rfl

theorem document_withMore {r : Reader} {k : Nat}
    (h : (expr (r.withMore k)).1 = (expr r).1.withMore k) :
    (r.withMore k).document.result = r.document.result := by
  unfold document
  rw [h]
  simp only [Reply.result_withMore, Reply.state_withMore, withMore_skipBlank, peek?_withMore]
  cases (expr r).1.result with
  | error e => rfl
  | ok o => cases (expr r).1.state.skipBlank.peek? <;> cases o <;> rfl

theorem start_withMore (t : String) {d d' : Nat} (hd : d ≤ d') :
    (start t ⟨d⟩).withMore (d' - d) = start t ⟨d'⟩ := by
  simp only [start, withMore, Reader.mk.injEq, true_and]
  omega

end Reader

open Reader

/-- What is read within a limit is no deeper than the limit. -/
theorem depth_le_of_parse {t : String} {d : Nat} {v : Value} (h : parse t ⟨d⟩ = .ok v) :
    v.depth ≤ d :=
  (depth_le_budget.1 _ _ (document_ok h)).1 v rfl

/-- A larger limit reads the same as a smaller one that is not refused. -/
theorem parse_of_not_refused {t : String} {d d' : Nat} (hd : d ≤ d')
    (h : ¬ (expr (start t ⟨d⟩)).1.Refused) : parse t ⟨d'⟩ = parse t ⟨d⟩ := by
  rw [parse, parse, ← start_withMore t hd]
  exact document_withMore ((withMore_reads.1 _ (d' - d)).1 h).1

/-- **The limit bounds exactly the depth.**  Between two limits `d ≤ d'`: what is read within `d`
is no deeper than `d`; unless `d` is refused, `d'` gives the same answer, value or fault; and what
`d'` reads, `d` reads too if it is no deeper than `d`, and is otherwise refused at the first form
one level deeper than `d` allows, at its opening parenthesis or quote character. -/
theorem parse_depth_limit (t : String) {d d' : Nat} (hd : d ≤ d') :
    (∀ v, parse t ⟨d⟩ = .ok v → v.depth ≤ d) ∧
    ((∀ e, parse t ⟨d⟩ = .error e → e.fault ≠ .nestingTooDeep) → parse t ⟨d'⟩ = parse t ⟨d⟩) ∧
    ∀ v, parse t ⟨d'⟩ = .ok v →
      (v.depth ≤ d → parse t ⟨d⟩ = .ok v) ∧
      (d < v.depth → ∃ p, (start t ⟨d'⟩).firstOpen d = some p ∧
        parse t ⟨d⟩ = .error ⟨.nestingTooDeep, p⟩) := by
  refine ⟨fun v hv => depth_le_of_parse hv, fun hnot => ?_, fun v hv => ?_⟩
  · exact parse_of_not_refused hd fun ⟨p, hp⟩ => hnot _ (document_of_error hp) rfl
  · by_cases hre : (expr (start t ⟨d⟩)).1.Refused
    · obtain ⟨p, hp⟩ := hre
      obtain ⟨hat, hdeep⟩ := (withMore_reads.1 _ (d' - d)).2 p hp
      rw [start_withMore t hd] at hat hdeep
      obtain ⟨w, hw, hlt⟩ := hdeep _ (document_ok hv)
      cases hw
      exact ⟨fun hle => absurd hlt (Nat.not_lt.2 hle), fun _ => ⟨p, hat, document_of_error hp⟩⟩
    · rw [parse_of_not_refused hd hre] at hv
      exact ⟨fun _ => hv, fun hlt => absurd (depth_le_of_parse hv) (Nat.not_le.2 hlt)⟩

/-- A limit of one refuses the quoted list inside the list, at its quote character, while a
limit of three reads it. -/
theorem parse_depth_limit_nested :
    1 ≤ 3 ∧
    ((∀ v, parse "(a '(b))" ⟨1⟩ = .ok v → v.depth ≤ 1) ∧
    ((∀ e, parse "(a '(b))" ⟨1⟩ = .error e → e.fault ≠ .nestingTooDeep) →
      parse "(a '(b))" ⟨3⟩ = parse "(a '(b))" ⟨1⟩) ∧
    ∀ v, parse "(a '(b))" ⟨3⟩ = .ok v →
      (v.depth ≤ 1 → parse "(a '(b))" ⟨1⟩ = .ok v) ∧
      (1 < v.depth → ∃ p, (start "(a '(b))" ⟨3⟩).firstOpen 1 = some p ∧
        parse "(a '(b))" ⟨1⟩ = .error ⟨.nestingTooDeep, p⟩)) :=
  ⟨by decide, parse_depth_limit "(a '(b))" (by decide)⟩

end Sexpr
