/-!
# S-expression values

A value is a bare atom, a string literal, a parenthesised list, or a quoted form. The four
quote kinds are written with a shorthand in front of the quoted form (`'x`, a backquote, `,x`,
`,@x`) or spelt out as a two-element list headed by the kind's name (`(quote x)`).

## Main definitions

* `Sexpr.QuoteKind`: the four quote kinds, their names and shorthands.
* `Sexpr.Value`: the value type, with the partial views `atom?`, `string?`, `items?`.
* `Sexpr.Value.depth`: how many lists and quoted forms are open around the deepest leaf; this is
  what reading a value costs in nesting budget.
* `Sexpr.Value.desugar`: every quoted form spelt out as a list, which is what reading a value
  printed in list style gives back.
-/

set_option autoImplicit false

namespace Sexpr

/-- The four ways to quote a form. -/
inductive QuoteKind where
  /-- `'x`, or `(quote x)`. -/
  | quote
  /-- A backquote, or `(quasiquote x)`. -/
  | quasiquote
  /-- `,x`, or `(unquote x)`. -/
  | unquote
  /-- `,@x`, or `(unquote-splicing x)`. -/
  | unquoteSplicing
deriving DecidableEq, Repr

namespace QuoteKind

/-- The quote kind a single shorthand character starts. `,@` is not a single character, so
`unquoteSplicing` is never returned. -/
def ofChar? : Char → Option QuoteKind
  | '\'' => some .quote
  | '\x60' => some .quasiquote
  | ',' => some .unquote
  | _ => none

/-- The name that heads the spelt-out form. -/
def name : QuoteKind → String
  | .quote => "quote"
  | .quasiquote => "quasiquote"
  | .unquote => "unquote"
  | .unquoteSplicing => "unquote-splicing"

/-- The shorthand written in front of the quoted form. -/
def shorthand : QuoteKind → String
  | .quote => "'"
  | .quasiquote => "`"
  | .unquote => ","
  | .unquoteSplicing => ",@"

/-- The quote kind with the given name. -/
def ofName? : String → Option QuoteKind
  | "quote" => some .quote
  | "quasiquote" => some .quasiquote
  | "unquote" => some .unquote
  | "unquote-splicing" => some .unquoteSplicing
  | _ => none

/-- The quote kind a text names: a single character is read as a shorthand, anything else as a
name. So `",@"` names no kind, while `"unquote-splicing"` does. -/
def ofText? (s : String) : Option QuoteKind :=
  match s.toList with
  | [c] => ofChar? c
  | _ => ofName? s

/-- Every kind is found again from its name. -/
theorem ofName?_name (k : QuoteKind) : ofName? k.name = some k := by
  cases k <;> rfl

end QuoteKind

/-- An S-expression. -/
inductive Value where
  /-- A bare atom, with its escapes resolved. -/
  | atom (text : String)
  /-- A string literal, with its escapes resolved. -/
  | string (text : String)
  /-- A parenthesised list. -/
  | list (items : List Value)
  /-- A quoted form. -/
  | quoted (kind : QuoteKind) (body : Value)
deriving Repr, Inhabited

namespace Value

/-- The text of an atom. -/
def atom? : Value → Option String
  | .atom t => some t
  | _ => none

/-- The text of a string literal. -/
def string? : Value → Option String
  | .string t => some t
  | _ => none

/-- The items of a list. A quoted form is not a list, even though it reads like one. -/
def items? : Value → Option (List Value)
  | .list xs => some xs
  | _ => none

mutual

/-- Structural equality of values, decided. -/
def decEq : (a b : Value) → Decidable (a = b)
  | .atom s, .atom t =>
    if h : s = t then isTrue (h ▸ rfl) else isFalse fun e => h (Value.atom.inj e)
  | .string s, .string t =>
    if h : s = t then isTrue (h ▸ rfl) else isFalse fun e => h (Value.string.inj e)
  | .list xs, .list ys =>
    match decEqItems xs ys with
    | isTrue h => isTrue (h ▸ rfl)
    | isFalse h => isFalse fun e => h (Value.list.inj e)
  | .quoted k a, .quoted l b =>
    if hk : k = l then
      match decEq a b with
      | isTrue h => isTrue (hk ▸ h ▸ rfl)
      | isFalse h => isFalse fun e => h (Value.quoted.inj e).2
    else isFalse fun e => hk (Value.quoted.inj e).1
  | .atom _, .string _ | .atom _, .list _ | .atom _, .quoted _ _
  | .string _, .atom _ | .string _, .list _ | .string _, .quoted _ _
  | .list _, .atom _ | .list _, .string _ | .list _, .quoted _ _
  | .quoted _ _, .atom _ | .quoted _ _, .string _ | .quoted _ _, .list _ => isFalse nofun

/-- Equality of lists of values, decided item by item. -/
def decEqItems : (xs ys : List Value) → Decidable (xs = ys)
  | [], [] => isTrue rfl
  | [], _ :: _ | _ :: _, [] => isFalse nofun
  | a :: as, b :: bs =>
    match decEq a b with
    | isFalse h => isFalse fun e => h (List.cons.inj e).1
    | isTrue h =>
      match decEqItems as bs with
      | isTrue t => isTrue (h ▸ t ▸ rfl)
      | isFalse t => isFalse fun e => t (List.cons.inj e).2

end

instance : DecidableEq Value := decEq

mutual

/-- The number of lists and quoted forms open around the deepest point of a value. -/
def depth : Value → Nat
  | .atom _ | .string _ => 0
  | .list xs => depthItems xs + 1
  | .quoted _ v => v.depth + 1

/-- The greatest depth among some values, `0` for none. -/
def depthItems : List Value → Nat
  | [] => 0
  | v :: vs => max v.depth (depthItems vs)

end

mutual

/-- Spells every quoted form out as the list of its kind's name and its body. -/
def desugar : Value → Value
  | .atom t => .atom t
  | .string t => .string t
  | .list xs => .list (desugarItems xs)
  | .quoted k v => .list [.atom k.name, v.desugar]

/-- `desugar` on each item. -/
def desugarItems : List Value → List Value
  | [] => []
  | v :: vs => v.desugar :: desugarItems vs

end

example : (Value.list [.atom "a", .quoted .quote (.string "b")]).depth = 2 := by decide

example : Value.list [.atom "a"] ≠ Value.list [.string "a"] := by decide

end Value
end Sexpr
