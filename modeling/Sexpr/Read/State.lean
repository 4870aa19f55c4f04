import Sexpr.Cursor
import Sexpr.Fault
import Sexpr.Read.Literal

/-!
# The reader and its single steps

A reader is a cursor over the text and a nesting budget. Opening a list or a quoted form spends
one unit of the budget and completing it gives the unit back, so the budget left is the limit
minus the forms open. A form that fails keeps its unit: a reader that goes on after a fault has
that much less to spend.

Every step returns a `Sexpr.Reply`: the result or the fault that ended it, and the reader after
it. A fault is reported at the position of the reader it leaves behind, so a reader that goes on
after a fault starts where the fault was detected.

## Main definitions

* `Sexpr.Reader.openQuote`, `Sexpr.Reader.openList`, `Sexpr.Reader.closeList`: the steps that
  open and close forms, with the budget checked before the opening character is read.
* `Sexpr.Reader.atom`: a bare atom or a string literal.
* `Sexpr.Reader.size`: how much text is left, the measure that the recursive reader descends
  on; the lemmas at the end say by how much each step reduces it.
-/

set_option autoImplicit false

namespace Sexpr

/-- Limits on what a reader accepts. -/
structure Limits where
  /-- How many lists and quoted forms may be open at once. -/
  maxDepth : Nat := 500
deriving DecidableEq, Repr

/-- A reader between two steps: where it stands, and how many more forms it may open. -/
structure Reader where
  /-- The text not read yet, and where it starts. -/
  cursor : Cursor
  /-- How many more lists and quoted forms may be opened. -/
  budget : Nat
deriving DecidableEq, Repr

/-- What a step of reading gives: its result, or the fault that ended it, and the reader after
it. -/
structure Reply (α : Type) where
  /-- The result, or the fault. -/
  result : Except SyntaxError α
  /-- The reader after the step; after a fault, where the fault was detected. -/
  state : Reader

namespace Reader

/-- A reader at the start of `text`. -/
def start (text : String) (limits : Limits := {}) : Reader :=
  ⟨Cursor.start text, limits.maxDepth⟩

/-- How many characters are left to read. -/
def size (r : Reader) : Nat := r.cursor.rest.length

/-- The next character, if any. -/
def peek? (r : Reader) : Option Char := r.cursor.peek?

/-- Moves past the next `n` characters. -/
def skip (r : Reader) (n : Nat) : Reader := { r with cursor := r.cursor.skip n }

/-- Moves past the blanks at the cursor. -/
def skipBlank (r : Reader) : Reader := { r with cursor := r.cursor.skipBlank }

/-- Ends the step with a fault detected here. -/
def fail {α : Type} (r : Reader) (f : Fault) : Reply α := ⟨.error ⟨f, r.cursor.pos⟩, r⟩

/-- Ends the step with a result, leaving the reader here. -/
def reply {α : Type} (r : Reader) (a : α) : Reply α := ⟨.ok a, r⟩

/-- Reads an opening character and spends one unit of budget on the form it opens. -/
def enter (r : Reader) : Reader := ⟨r.cursor.skip 1, r.budget - 1⟩

/-- Reads a closing character and gives back the unit of budget of the form it closes. -/
def leave (r : Reader) : Reader := ⟨r.cursor.skip 1, r.budget + 1⟩

/-- Opens a quoted form whose shorthand character is next, of kind `k` as that character reads
on its own: spends one unit of budget, reads the character, and the `@` after a comma, and the
blanks after the shorthand. Gives the kind of the whole shorthand. -/
def openQuote (r : Reader) (k : QuoteKind) : Reply QuoteKind :=
  if r.budget = 0 then r.fail .nestingTooDeep
  else if k = .unquote ∧ r.enter.peek? = some '@' then (r.enter.skip 1).skipBlank.reply .unquoteSplicing
  else r.enter.skipBlank.reply k

/-- Opens a list: the next character must be an opening parenthesis, and opening it spends one
unit of budget. -/
def openList (r : Reader) : Reply Unit :=
  if r.peek? = some '(' then
    if r.budget = 0 then r.fail .nestingTooDeep else r.enter.reply ()
  else r.fail (.expectedOpen r.peek?)

/-- Closes a list: the next character must be a closing parenthesis, and closing it gives back
the unit of budget its opening spent. -/
def closeList (r : Reader) : Reply Unit :=
  if r.peek? = some ')' then r.leave.reply () else r.fail (.expectedClose r.peek?)

/-- Reads a string literal whose opening quote is next. A string literal that the input ends
inside is a fault at the end of the input. -/
def string (r : Reader) : Reply (Option Value) :=
  match Literal.stringBody (r.cursor.rest.drop 1) with
  | some (t, n) => (r.skip (n + 1)).reply (some (.string (String.ofList t)))
  | none => (r.skip r.size).fail .unterminatedString

/-- Reads a bare atom. One with no text is no value at all: that is what a closing parenthesis,
the end of the input, or a lone backslash at the end read as. -/
def bare (r : Reader) : Reply (Option Value) :=
  (r.skip (Literal.bareAtom r.cursor.rest).2).reply
    (if (Literal.bareAtom r.cursor.rest).1.isEmpty then none
     else some (.atom (String.ofList (Literal.bareAtom r.cursor.rest).1)))

/-- Reads a leaf: a string literal if a double quote is next, else a bare atom. -/
def atom (r : Reader) : Reply (Option Value) :=
  if r.peek? = some '"' then r.string else r.bare

/-! ## How far each step reads -/

theorem size_skip (r : Reader) (n : Nat) : (r.skip n).size = r.size - n := by
  simp [size, skip, Cursor.skip]

theorem size_skipBlank_le (r : Reader) : r.skipBlank.size ≤ r.size := by
  simp [size, skipBlank, Cursor.skipBlank, Cursor.takeUntil, Cursor.skip]

theorem size_pos_of_peek? {r : Reader} {c : Char} (h : r.peek? = some c) : 0 < r.size := by
  unfold peek? Cursor.peek? at h
  unfold size
  cases hr : r.cursor.rest <;> simp_all

theorem size_enter (r : Reader) : r.enter.size = r.size - 1 := by
  simp [size, enter, Cursor.skip]

theorem size_leave (r : Reader) : r.leave.size = r.size - 1 := by
  simp [size, leave, Cursor.skip]

theorem size_openQuote_le (r : Reader) (k : QuoteKind) : (r.openQuote k).state.size ≤ r.size := by
  have h1 := size_skipBlank_le r.enter
  have h2 := size_skipBlank_le (r.enter.skip 1)
  have h3 := size_enter r
  have h4 := size_skip r.enter 1
  unfold openQuote
  by_cases hb : r.budget = 0
  · simp [hb, fail]
  · by_cases hq : k = .unquote ∧ r.enter.peek? = some '@'
    · rw [if_neg hb, if_pos hq]
      simp only [reply]
      omega
    · rw [if_neg hb, if_neg hq]
      simp only [reply]
      omega

theorem size_openQuote_lt {r : Reader} {k k' : QuoteKind} (hr : 0 < r.size)
    (h : (r.openQuote k).result = .ok k') : (r.openQuote k).state.size < r.size := by
  have h1 := size_skipBlank_le r.enter
  have h2 := size_skipBlank_le (r.enter.skip 1)
  have h3 := size_enter r
  have h4 := size_skip r.enter 1
  unfold openQuote at h ⊢
  by_cases hb : r.budget = 0
  · simp [hb, fail] at h
  · by_cases hq : k = .unquote ∧ r.enter.peek? = some '@'
    · rw [if_neg hb, if_pos hq]
      simp only [reply]
      omega
    · rw [if_neg hb, if_neg hq]
      simp only [reply]
      omega

theorem size_openList_le (r : Reader) : r.openList.state.size ≤ r.size := by
  have := size_enter r
  unfold openList
  by_cases hp : r.peek? = some '('
  · by_cases hb : r.budget = 0
    · simp [hp, hb, fail]
    · simp only [hp, hb, if_false, if_true, reply]
      omega
  · simp [hp, fail]

theorem size_openList_lt {r : Reader} {u : Unit} (h : r.openList.result = .ok u) :
    r.openList.state.size < r.size := by
  have := size_enter r
  unfold openList at h ⊢
  by_cases hp : r.peek? = some '('
  · have := size_pos_of_peek? hp
    by_cases hb : r.budget = 0
    · simp [hp, hb, fail] at h
    · simp only [hp, hb, if_false, if_true, reply]
      omega
  · simp [hp, fail] at h

theorem size_closeList_le (r : Reader) : r.closeList.state.size ≤ r.size := by
  have := size_leave r
  unfold closeList
  by_cases hp : r.peek? = some ')'
  · simp only [hp, if_true, reply]
    omega
  · simp [hp, fail]

theorem size_string_le (r : Reader) : r.string.state.size ≤ r.size := by
  unfold string
  split
  · simp [reply, size_skip]
  · simp [fail, size_skip]

theorem size_string_lt {r : Reader} (hr : 0 < r.size) {v : Value}
    (h : r.string.result = .ok (some v)) : r.string.state.size < r.size := by
  unfold string at h ⊢
  cases hs : Literal.stringBody (r.cursor.rest.drop 1) with
  | none =>
    rw [hs] at h
    simp [fail] at h
  | some p =>
    simp only [reply, size_skip]
    omega

theorem size_bare_le (r : Reader) : r.bare.state.size ≤ r.size := by
  simp [bare, reply, size_skip]

theorem size_bare_lt {r : Reader} {v : Value} (h : r.bare.result = .ok (some v)) :
    r.bare.state.size < r.size := by
  have hne : (Literal.bareAtom r.cursor.rest).1 ≠ [] := by
    intro he
    simp [bare, reply, he] at h
  have := Literal.bareAtom_spanned_pos hne
  have := Literal.bareAtom_spanned_le r.cursor.rest
  simp only [bare, reply, size_skip]
  simp only [size]
  omega

theorem size_atom_le (r : Reader) : r.atom.state.size ≤ r.size := by
  unfold atom
  split
  · exact size_string_le r
  · exact size_bare_le r

theorem size_atom_lt {r : Reader} {v : Value} (h : r.atom.result = .ok (some v)) :
    r.atom.state.size < r.size := by
  unfold atom at h ⊢
  by_cases hp : r.peek? = some '"'
  · rw [if_pos hp] at h ⊢
    exact size_string_lt (size_pos_of_peek? hp) h
  · rw [if_neg hp] at h ⊢
    exact size_bare_lt h

end Reader
end Sexpr
