import Sexpr.Read.State

/-!
# Reading expressions

Recursive descent: the next character alone decides what is read, so there is no backtracking,
and the first fault ends the reading. A quote shorthand opens a quoted form, an opening
parenthesis a list, and anything else is read as a leaf. Blanks around an expression are read
with it.

`Sexpr.Reader.expr` and `Sexpr.Reader.items` call each other, on a reader that has read at least
one more character, or on the same reader with `items` handing over to `expr`; so they descend on
twice the text left, plus one for `items`. The progress this needs is part of their result types:
`expr` never moves back and moves forward whenever it reads an expression (`Reader.Advances`),
and `items` never moves back.

## Main definitions

* `Sexpr.Reader.expr`: one expression, or none where a list ends or the input does.
* `Sexpr.Reader.document`: exactly one expression and nothing after it.
* `Sexpr.Reader.steps`: expressions one after another from a single reader.
* `Sexpr.parse`: a whole text.
-/

set_option autoImplicit false

namespace Sexpr

/-- What the next character starts. -/
inductive Opening where
  /-- A quoted form, of the kind its first character reads as on its own. -/
  | quote (k : QuoteKind)
  /-- A list. -/
  | list
  /-- A leaf: a string literal or a bare atom, possibly empty. -/
  | leaf
deriving DecidableEq, Repr

namespace Opening

/-- What the next character, if there is one, starts. -/
def of : Option Char → Opening
  | some c =>
    match QuoteKind.ofChar? c with
    | some k => .quote k
    | none => if c = '(' then .list else .leaf
  | none => .leaf

theorem peek_of_quote {c : Option Char} {k : QuoteKind} (h : of c = .quote k) :
    ∃ ch, c = some ch := by
  cases c with
  | none => simp [of] at h
  | some ch => exact ⟨ch, rfl⟩

theorem peek_of_list {c : Option Char} (h : of c = .list) : ∃ ch, c = some ch := by
  cases c with
  | none => simp [of] at h
  | some ch => exact ⟨ch, rfl⟩

end Opening

namespace Reply

/-- Reads the blanks after a result; a fault stays where it was detected. -/
def skipBlank {α : Type} (rep : Reply α) : Reply α :=
  match rep.result with
  | .ok a => ⟨.ok a, rep.state.skipBlank⟩
  | .error e => ⟨.error e, rep.state⟩

theorem result_skipBlank {α : Type} (rep : Reply α) : rep.skipBlank.result = rep.result := by
  unfold skipBlank
  split <;> simp_all

theorem size_skipBlank_le {α : Type} (rep : Reply α) :
    rep.skipBlank.state.size ≤ rep.state.size := by
  unfold skipBlank
  split
  · exact Reader.size_skipBlank_le _
  · exact Nat.le_refl _

end Reply

namespace Reader

/-- A reply to reading one expression from `r` makes progress: the reader never moves back, and
it has moved forward whenever an expression was read. -/
structure Advances (r : Reader) (rep : Reply (Option Value)) : Prop where
  /-- The reader never moves back. -/
  le : rep.state.size ≤ r.size
  /-- An expression read is at least one character read. -/
  lt : ∀ v, rep.result = .ok (some v) → rep.state.size < r.size

theorem Advances.of_lt {r : Reader} {rep : Reply (Option Value)} (h : rep.state.size < r.size) :
    r.Advances rep :=
  ⟨Nat.le_of_lt h, fun _ _ => h⟩

theorem Advances.error {r s : Reader} {e : SyntaxError} (h : s.size ≤ r.size) :
    r.Advances ⟨.error e, s⟩ :=
  ⟨h, fun _ he => nomatch he⟩

/-- Completes a quoted form of kind `k` from the reply for its body: the body must be an
expression, and completing the form gives back its unit of budget. -/
def closeQuote (k : QuoteKind) (body : Reply (Option Value)) : Reply (Option Value) :=
  match body.result with
  | .error e => ⟨.error e, body.state⟩
  | .ok none => body.state.fail (.missingQuoted body.state.peek? k)
  | .ok (some v) => ⟨.ok (some (.quoted k v)), { body.state with budget := body.state.budget + 1 }⟩

/-- Completes a list from the reply for its items: a closing parenthesis must follow them. -/
def finishList (body : Reply (List Value)) : Reply (Option Value) :=
  match body.result with
  | .error e => ⟨.error e, body.state⟩
  | .ok vs =>
    let c := body.state.closeList
    ⟨c.result.map fun _ => some (.list vs), c.state⟩

theorem size_closeQuote_le (k : QuoteKind) (body : Reply (Option Value)) :
    (closeQuote k body).state.size ≤ body.state.size := by
  unfold closeQuote
  split <;> simp [fail, size]

theorem size_finishList_le (body : Reply (List Value)) :
    (finishList body).state.size ≤ body.state.size := by
  unfold finishList
  split
  · exact Nat.le_refl _
  · exact size_closeList_le _

mutual

/-- Reads one expression, with the blanks around it. `none` when there is nothing to read here:
at a closing parenthesis, which is left for the list it closes, at the end of the input, or at a
lone backslash that ends it. -/
def expr (r : Reader) : { rep : Reply (Option Value) // r.Advances rep } :=
  match hc : Opening.of r.skipBlank.peek? with
  | .quote k =>
    match ho : (r.skipBlank.openQuote k).result with
    | .error e =>
      ⟨⟨.error e, (r.skipBlank.openQuote k).state⟩,
        Advances.error (Nat.le_trans (size_openQuote_le _ _) (size_skipBlank_le _))⟩
    | .ok k' =>
      have hlt : (r.skipBlank.openQuote k).state.size < r.size := by
        obtain ⟨ch, hch⟩ := Opening.peek_of_quote hc
        exact Nat.lt_of_lt_of_le (size_openQuote_lt (size_pos_of_peek? hch) ho)
          (size_skipBlank_le _)
      let body := expr (r.skipBlank.openQuote k).state
      ⟨(closeQuote k' body.1).skipBlank,
        Advances.of_lt (Nat.lt_of_le_of_lt (Reply.size_skipBlank_le _)
          (Nat.lt_of_le_of_lt (size_closeQuote_le _ _) (Nat.lt_of_le_of_lt body.2.le hlt)))⟩
  | .list =>
    match ho : r.skipBlank.openList.result with
    | .error e =>
      ⟨⟨.error e, r.skipBlank.openList.state⟩,
        Advances.error (Nat.le_trans (size_openList_le _) (size_skipBlank_le _))⟩
    | .ok () =>
      have hlt : r.skipBlank.openList.state.size < r.size :=
        Nat.lt_of_lt_of_le (size_openList_lt ho) (size_skipBlank_le _)
      let body := items r.skipBlank.openList.state
      ⟨(finishList body.1).skipBlank,
        Advances.of_lt (Nat.lt_of_le_of_lt (Reply.size_skipBlank_le _)
          (Nat.lt_of_le_of_lt (size_finishList_le _) (Nat.lt_of_le_of_lt body.2 hlt)))⟩
  | .leaf =>
    ⟨r.skipBlank.atom.skipBlank,
      ⟨Nat.le_trans (Reply.size_skipBlank_le _)
          (Nat.le_trans (size_atom_le _) (size_skipBlank_le _)),
        fun v h => Nat.lt_of_le_of_lt (Reply.size_skipBlank_le _)
          (Nat.lt_of_lt_of_le (size_atom_lt (by rw [← Reply.result_skipBlank]; exact h))
            (size_skipBlank_le _))⟩⟩
termination_by 2 * r.size
decreasing_by all_goals omega

/-- Reads the items of a list: expressions until one reads as none. -/
def items (r : Reader) : { rep : Reply (List Value) // rep.state.size ≤ r.size } :=
  match h : (expr r).1.result with
  | .error e => ⟨⟨.error e, (expr r).1.state⟩, (expr r).2.le⟩
  | .ok none => ⟨⟨.ok [], (expr r).1.state⟩, (expr r).2.le⟩
  | .ok (some v) =>
    have hlt : (expr r).1.state.size < r.size := (expr r).2.lt v h
    let more := items (expr r).1.state
    ⟨⟨more.1.result.map (v :: ·), more.1.state⟩, Nat.le_trans more.2 (Nat.le_of_lt hlt)⟩
termination_by 2 * r.size + 1
decreasing_by all_goals omega

end

/-- Reads exactly one expression: after it and its blanks the input must end. Characters left
over are a fault at the first of them, checked before an empty input is. -/
def document (r : Reader) : Reply Value :=
  match (expr r).1.result with
  | .error e => ⟨.error e, (expr r).1.state⟩
  | .ok v =>
    let s := (expr r).1.state.skipBlank
    match s.peek?, v with
    | some c, _ => s.fail (.superfluous c)
    | none, some v => s.reply v
    | none, none => s.fail .emptyInput

/-- Reads up to `n` expressions one after another, each from where the one before stopped, and
gives what each read. After a fault it goes on only if `keepGoing`. -/
def steps (keepGoing : Bool) : Nat → Reader → List (Except SyntaxError (Option Value))
  | 0, _ => []
  | n + 1, r =>
    match (expr r).1.result with
    | .error e => .error e :: (if keepGoing then steps keepGoing n (expr r).1.state else [])
    | .ok v => .ok v :: steps keepGoing n (expr r).1.state

end Reader

/-- Reads a whole text as one expression. -/
def parse (text : String) (limits : Limits := {}) : Except SyntaxError Value :=
  (Reader.start text limits).document.result

end Sexpr
