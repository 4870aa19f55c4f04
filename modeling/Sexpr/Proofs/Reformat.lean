import Mathlib.Control.Monad.Basic
import Sexpr.Proofs.RoundTrip
import Sexpr.Proofs.Read.Limit

/-!
# Formatting twice

Formatting a text reads it and prints what it read, so formatting the output reads back what was
printed.  With escapes on, that is the value read, or the same value with its quoted forms spelt
out as lists if they were printed so (`Sexpr.Value.parse_print_readBack`); and printing quoted
forms as lists gives the same text whether or not they were spelt out already
(`Sexpr.Value.print_desugar`).  So formatting the output again gives what formatting the text
gives, when the first time printed quoted forms with their shorthands or the second prints them
as lists; in particular the output of `Sexpr.format` formats to itself.

The round trip asks three things of the value read.  Reading gives two of them: no atom read is
empty (`Sexpr.Reader.atoms_ne_empty`), and what is read is within the limit
(`Sexpr.depth_le_of_parse`).  The third, that no atom ends in a carriage return, it does not
give: a backslash followed by a lone carriage return reads as an atom ending in one, whose
printed form has the line feed that ends its line right after the escaped carriage return, and
that reads back as a longer atom (`format_reformat_atom_cr`).

## What is here

* `Sexpr.Reader.atoms_ne_empty`: reading never gives an empty atom.
* `Sexpr.Value.print_desugar`: in list style, spelling quoted forms out changes nothing printed.
* `Sexpr.format_reformat`: formatting the output again gives what formatting the text gives.
-/

set_option autoImplicit false

namespace Sexpr

open Text

/-! ## What reading gives -/

namespace Reader

/-- A leaf read is a string, or an atom of at least one character. -/
theorem atoms_of_atom {r : Reader} {v : Value} (h : r.atom.result = .ok (some v)) :
    ∀ s ∈ v.atoms, s ≠ "" := by
  unfold atom string bare at h
  split at h
  · split at h
    · cases h
      simp [Value.atoms]
    · cases h
  · simp only [reply, Except.ok.injEq] at h
    split at h
    · cases h
    · rename_i hne
      cases h
      simpa [Value.atoms] using hne

/-- **Reading never gives an empty atom**, in an expression or in the items of a list. -/
theorem atoms_ne_empty :
    (∀ r : Reader, ∀ v, (expr r).1.result = .ok (some v) → ∀ s ∈ v.atoms, s ≠ "") ∧
    (∀ r : Reader, ∀ vs, (items r).1.result = .ok vs → ∀ s ∈ Value.atomsItems vs, s ≠ "") := by
  refine read_induction _ _ ?leaf ?quote ?list ?items
  case leaf =>
    intro r hc v hv
    rw [expr_of_leaf hc, Reply.result_skipBlank] at hv
    exact atoms_of_atom hv
  case quote =>
    intro r k hc ih v hv
    cases hq : (r.skipBlank.openQuote k).result with
    | error e => rw [expr_of_quote_error hc hq] at hv; cases hv
    | ok k' =>
      obtain ⟨w, hw, hvw⟩ := expr_quote_ok hc hq hv
      cases hvw
      simpa [Value.atoms] using ih k' hq w hw
  case list =>
    intro r hc ih v hv
    cases hl : r.skipBlank.openList.result with
    | error e => rw [expr_of_list_error hc hl] at hv; cases hv
    | ok u =>
      obtain ⟨vs, hvs, hv'⟩ := expr_list_ok hc hl hv
      cases hv'
      simpa [Value.atoms] using ih hl vs hvs
  case items =>
    intro r hexpr ih vs hvs
    cases he : (expr r).1.result with
    | error e => rw [items_of_error he] at hvs; cases hvs
    | ok o =>
      cases o with
      | none =>
        rw [items_of_none he] at hvs
        cases hvs
        simp [Value.atomsItems]
      | some v =>
        obtain ⟨ws, hws, rfl⟩ := items_ok_of_some he hvs
        intro s hs
        rw [Value.atomsItems, List.mem_append] at hs
        rcases hs with hs | hs
        · exact hexpr v he s hs
        · exact ih v he ws hws s hs

end Reader

theorem atoms_ne_empty_of_parse {t : String} {m : Nat} {v : Value} (h : parse t ⟨m⟩ = .ok v) :
    ∀ s ∈ v.atoms, s ≠ "" :=
  Reader.atoms_ne_empty.1 _ _ (Reader.document_ok h)

/-! ## Printing spelt-out quoted forms -/

namespace Value

variable {f : Layout}

mutual

/-- In list style a quoted form is printed as the list it stands for, so spelling it out changes
no line. -/
theorem lines_desugar (hf : f.escape = true) (hs : f.quoteStyle = .list) :
    ∀ (v : Value) (D : Nat) (pre : List QuoteKind), lines f D pre v.desugar = lines f D pre v
  | .atom _, _, _ => by rw [desugar]
  | .string _, _, _ => by rw [desugar]
  | .list vs, D, pre => by rw [desugar, lines, lines, linesItems_desugar hf hs vs]
  | .quoted k v, D, pre => by
    rw [desugar, lines, lines, hs, linesItems, linesItems, linesItems, lines, atomText_name hf,
      lines_desugar hf hs v]
    simp [shorthands]

theorem linesItems_desugar (hf : f.escape = true) (hs : f.quoteStyle = .list) :
    ∀ (vs : List Value) (D : Nat), linesItems f D (desugarItems vs) = linesItems f D vs
  | [], _ => by rw [desugarItems]
  | v :: vs, D => by
    rw [desugarItems, linesItems, linesItems, lines_desugar hf hs v, linesItems_desugar hf hs vs]

end

theorem print_desugar (hf : f.escape = true) (hs : f.quoteStyle = .list) (v : Value) :
    v.desugar.print f = v.print f := by
  rw [print, print, render, render, lines_desugar hf hs]

end Value

/-! ## Formatting the output -/

/-- **Formatting the output again gives what formatting the text gives**: with escapes on, when
the first formatting printed quoted forms with their shorthands or the second prints them as
lists, and no atom read ends in a carriage return.  With the standard layout both times, this is
the output of `Sexpr.format` formatting to itself. -/
theorem format_reformat {t o : String} {w₁ w₂ m : Nat} {q₁ q₂ : QuoteStyle}
    (hq : q₁ = .shorthand ∨ q₂ = .list)
    (hcr : ∀ v, parse t ⟨m⟩ = .ok v → ∀ s ∈ v.atoms, s.toList.getLast? ≠ some '\r')
    (h : formatWith t ⟨⟨w₁, true, q₁⟩, ⟨m⟩⟩ = .ok o) :
    formatWith o ⟨⟨w₂, true, q₂⟩, ⟨m⟩⟩ = formatWith t ⟨⟨w₂, true, q₂⟩, ⟨m⟩⟩ := by
  obtain ⟨v, hv, rfl⟩ : ∃ v, parse t ⟨m⟩ = .ok v ∧ o = v.print ⟨w₁, true, q₁⟩ := by
    rw [formatWith] at h
    cases hp : parse t ⟨m⟩ with
    | error e => rw [hp] at h; cases h
    | ok v => rw [hp] at h; cases h; exact ⟨v, rfl, rfl⟩
  -- the output reads back as the value, spelt out if it was printed as lists
  have hback := Value.parse_print_readBack (f := ⟨w₁, true, q₁⟩) rfl
    (fun s hs => ⟨atoms_ne_empty_of_parse hv s hs, hcr v hv s hs⟩) (depth_le_of_parse hv)
  rw [formatWith, formatWith]
  simp only [hback, hv, Except.map]
  congr 1
  rcases hq with rfl | rfl
  · rfl
  · cases q₁ with
    | list => exact Value.print_desugar rfl rfl v
    | shorthand => rfl

/-- A quoted atom in a list, printed with its shorthand and formatted again as lists; and the
standard formatting of the same text, which formats to itself. -/
theorem format_reformat_quoted :
    formatWith "(\n  a\n  'b\n)\n" ⟨⟨4, true, .list⟩, ⟨2⟩⟩ =
        formatWith "(a 'b)" ⟨⟨4, true, .list⟩, ⟨2⟩⟩ ∧
      format "(\n  a\n  (\n    quote\n    b\n  )\n)\n" 2 =
        .ok "(\n  a\n  (\n    quote\n    b\n  )\n)\n" := by
  have hcr : ∀ m, parse "(a 'b)" ⟨m⟩ = .ok (.list [.atom "a", .quoted .quote (.atom "b")]) →
      ∀ v, parse "(a 'b)" ⟨m⟩ = .ok v → ∀ s ∈ v.atoms, s.toList.getLast? ≠ some '\r' := by
    intro m hm v hv
    rw [hm] at hv
    cases hv
    decide
  have hformat : format "(a 'b)" 2 = .ok "(\n  a\n  (\n    quote\n    b\n  )\n)\n" := by
    decide +kernel
  exact ⟨@format_reformat "(a 'b)" "(\n  a\n  'b\n)\n" 2 4 2 .shorthand .list (Or.inl rfl)
      (hcr 2 (by decide +kernel)) (by decide +kernel),
    (@format_reformat "(a 'b)" _ 2 2 500 .list .list (Or.inr rfl) (hcr 500 (by decide +kernel))
      hformat).trans hformat⟩

/-- A backslash before a lone carriage return reads as an atom ending in one; formatted, it is
followed by the line feed of its line, and formatting that again reads the pair as one unit. -/
theorem format_reformat_atom_cr :
    format "a\\\r" 2 = .ok "a\\\r\n" ∧ format "a\\\r\n" 2 = .ok "a\\\r\\\n\n" := by
  constructor <;> cbv

end Sexpr
