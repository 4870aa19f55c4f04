import Mathlib
import Sexpr.Format
import Sexpr.Proofs.Read.Tokens

/-!
# Printing then reading

A value printed with escapes on reads back: as itself when quoted forms are printed with their
shorthands, and with every quoted form spelt out as a list when they are printed as lists
(`Sexpr.Layout.readBack`).  This is what the escapes are for.

There is one exception, and the statement carries it.  An atom whose last character is a
carriage return is printed with that character escaped and then, as every line, a line feed;
the reader takes a backslash with the *unit* after it, and a carriage return with a line feed
after it is one unit.  So such an atom reads back with a line feed added (`parse_print_atom_cr`),
and the round trip holds for the values none of whose atoms end in a carriage return.

The proof follows the printer.  `PrintedReads f v` says that the lines of `v`, printed at any
depth behind any shorthands and followed by anything, read back as `v` wrapped in those
shorthands; `PrintedItemsRead f vs` says the same of the items of a list, up to the closing
parenthesis.  Both are proved together by induction on the value, each case resting on one
statement of `Sexpr.Proofs.Read.Tokens`.

## What is here

* `Sexpr.Value.atoms`: the texts of the atoms of a value.
* `Sexpr.Layout.readBack`: what a value printed with a layout reads back as.
* `Sexpr.Value.printedReads`: the induction.
* `Sexpr.Value.parse_print`: **print then read gives the value back**, in both quote styles.
* `Sexpr.Value.parse_print_atom_cr`: an atom ending in a carriage return does not.
-/

set_option autoImplicit false

namespace Sexpr

open Text

/-! ## Atoms, lines, and what is read back -/

namespace Value

mutual

/-- The texts of the atoms of a value, in the order they are printed. -/
def atoms : Value → List String
  | .atom s => [s]
  | .string _ => []
  | .list vs => atomsItems vs
  | .quoted _ v => atoms v

/-- The texts of the atoms of some values, one value after another. -/
def atomsItems : List Value → List String
  | [] => []
  | v :: vs => atoms v ++ atomsItems vs

end

theorem desugarItems_eq_map (vs : List Value) : desugarItems vs = vs.map desugar := by
  induction vs with
  | nil => rfl
  | cons v vs ih => rw [desugarItems, ih, List.map_cons]

theorem wrap_append (pre : List QuoteKind) (k : QuoteKind) (x : Value) :
    wrap (pre ++ [k]) x = wrap pre (.quoted k x) := by
  simp [wrap]

end Value

/-- What a value printed with the layout `f` reads back as: itself when quoted forms are printed
with their shorthands, and with every quoted form spelt out as a list when they are printed as
lists. -/
def Layout.readBack (f : Layout) (v : Value) : Value :=
  match f.quoteStyle with
  | .list => v.desugar
  | .shorthand => v

/-- The characters of some lines, one after another. -/
def Line.renderAll (w : Nat) (ls : List Line) : List Char := (ls.map (Line.render w)).flatten

theorem Line.renderAll_cons (w : Nat) (l : Line) (ls : List Line) :
    renderAll w (l :: ls) = List.replicate (w * l.depth) ' ' ++ (l.text ++ '\n' :: renderAll w ls) := by
  simp [renderAll, render]

@[simp] theorem Line.renderAll_nil (w : Nat) : renderAll w [] = [] := rfl

theorem Line.renderAll_append (w : Nat) (ls ms : List Line) :
    renderAll w (ls ++ ms) = renderAll w ls ++ renderAll w ms := by
  simp [renderAll]

/-- The indentation of a line is blank, so reading skips it with the blanks before. -/
theorem dropBlank_renderAll_cons (w : Nat) (l : Line) (ls : List Line) (rest : List Char) :
    dropBlank (Line.renderAll w (l :: ls) ++ rest) =
      dropBlank (l.text ++ '\n' :: (Line.renderAll w ls ++ rest)) := by
  rw [Line.renderAll_cons, List.append_assoc, dropBlank_replicate_space, List.append_assoc,
    List.cons_append]

theorem dropBlank_renderAll_single (w : Nat) (l : Line) (rest : List Char) :
    dropBlank (Line.renderAll w [l] ++ rest) = dropBlank (l.text ++ '\n' :: rest) := by
  rw [dropBlank_renderAll_cons, Line.renderAll_nil, List.nil_append]

namespace Layout

variable (f : Layout)

theorem readBack_atom (s : String) : f.readBack (.atom s) = .atom s := by
  unfold readBack
  split <;> rfl

theorem readBack_string (s : String) : f.readBack (.string s) = .string s := by
  unfold readBack
  split <;> rfl

theorem readBack_list (vs : List Value) :
    f.readBack (.list vs) = .list (vs.map f.readBack) := by
  unfold readBack
  split
  · rw [Value.desugar, Value.desugarItems_eq_map]
  · rw [List.map_id']

end Layout

/-! ## The induction -/

namespace Value

open Reader

variable {f : Layout}

/-- The lines of `v`, printed with `f` at any depth behind any shorthands and followed by
anything, read back as `v` wrapped in those shorthands, given budget for them and for the depth
of `v`. -/
def PrintedReads (f : Layout) (v : Value) : Prop :=
  ∀ (D : Nat) (pre : List QuoteKind) (r : Reader) (rest : List Char),
    dropBlank r.cursor.rest = dropBlank (Line.renderAll f.width (v.lines f D pre) ++ rest) →
    pre.length + v.depth ≤ r.budget → r.Reads (wrap pre (f.readBack v)) (dropBlank rest)

/-- The lines of the items `vs`, printed with `f` at any depth and followed by a closing
parenthesis, read back as the items, and the reader stops at the parenthesis. -/
def PrintedItemsRead (f : Layout) (vs : List Value) : Prop :=
  ∀ (D : Nat) (s : Reader) (Z R : List Char), dropBlank Z = ')' :: R →
    dropBlank s.cursor.rest = dropBlank (Line.renderAll f.width (linesItems f D vs) ++ Z) →
    depthItems vs ≤ s.budget →
    (items s).1.result = .ok (vs.map f.readBack) ∧ (items s).1.state.cursor.rest = ')' :: R ∧
      (items s).1.state.budget = s.budget

theorem printedItemsRead_nil (f : Layout) : PrintedItemsRead f [] := by
  intro D s Z R hZ hs _
  have hclose := expr_at_close (s := s) (by rw [hs, linesItems, Line.renderAll]; exact hZ)
  rw [items_of_none hclose.1]
  exact ⟨rfl, hclose.2.1, hclose.2.2⟩

theorem PrintedItemsRead.cons {v : Value} {vs : List Value} (hv : PrintedReads f v)
    (hvs : PrintedItemsRead f vs) : PrintedItemsRead f (v :: vs) := by
  intro D s Z R hZ hs hb
  have hdepth : v.depth ≤ s.budget ∧ depthItems vs ≤ s.budget := by
    rw [depthItems] at hb
    exact ⟨Nat.le_trans (Nat.le_max_left _ _) hb, Nat.le_trans (Nat.le_max_right _ _) hb⟩
  have hread := hv D [] s (Line.renderAll f.width (linesItems f D vs) ++ Z)
    (by rw [hs, linesItems, Line.renderAll_append, List.append_assoc]) (by simpa using hdepth.1)
  have hmore := hvs D (expr s).1.state Z R hZ (by rw [hread.rest_eq, dropBlank_dropBlank])
    (by rw [hread.budget_eq]; exact hdepth.2)
  rw [items_of_some hread.result]
  refine ⟨?_, hmore.2.1, by rw [hmore.2.2, hread.budget_eq]⟩
  simp [hmore.1, Except.map, wrap]

/-- A value printed as an opening parenthesis, some items one level deeper, and a closing
parenthesis, reads back as the list of what the items read back as. -/
theorem printedReads_parens {w : Value} {vs : List Value} (hvs : PrintedItemsRead f vs)
    (hlines : ∀ D pre, w.lines f D pre =
      ⟨D, shorthands pre ++ ['(']⟩ :: (linesItems f (D + 1) vs ++ [⟨D, [')']⟩]))
    (hdepth : w.depth = depthItems vs + 1) (hback : f.readBack w = .list (vs.map f.readBack)) :
    PrintedReads f w := by
  intro D pre r rest hr hb
  -- the text after the shorthands: the parenthesis, its line feed, the items, and the closing line
  have hZ : dropBlank (Line.renderAll f.width [⟨D, [')']⟩] ++ rest) = ')' :: '\n' :: rest := by
    rw [dropBlank_renderAll_single]
    exact dropBlank_cons_of_not_isBlank (c := ')') rfl _
  rw [hlines, dropBlank_renderAll_cons, Line.renderAll_append] at hr
  rw [hback]
  refine reads_shorthands (T := '(' :: '\n' :: (Line.renderAll f.width (linesItems f (D + 1) vs) ++
      (Line.renderAll f.width [⟨D, [')']⟩] ++ rest))) (n := depthItems vs + 1) ?_
    (dropBlank_dropBlank _) pre (fun _ => by simp) r (by simpa [List.append_assoc] using hr)
    (by rwa [← hdepth])
  intro s hs hbs
  have hlist := reads_list (R := '\n' :: rest)
    (fun s' hs' hbs' => hvs (D + 1) s' _ _ hZ (by rw [hs', dropBlank_cons_of_isBlank isBlank_lf])
      hbs') s (by rw [hs]; exact dropBlank_cons_of_not_isBlank (c := '(') rfl _) hbs
  rwa [dropBlank_cons_of_isBlank isBlank_lf] at hlist

theorem printedReads_list {vs : List Value} (hvs : PrintedItemsRead f vs) :
    PrintedReads f (.list vs) :=
  printedReads_parens hvs (fun _ _ => by rw [lines]) (by rw [depth])
    (Layout.readBack_list f vs)

section Escaped

variable (hf : f.escape = true)
include hf

theorem printedReads_atom {s : String} (hs : s ≠ "") (hcr : s.toList.getLast? ≠ some '\r') :
    PrintedReads f (.atom s) := by
  intro D pre r rest hr hb
  obtain ⟨c, cs, htxt, -, hat⟩ := atomText_head hf pre hs
  rw [lines, dropBlank_renderAll_single, List.append_assoc] at hr
  rw [Layout.readBack_atom]
  refine reads_shorthands (n := 0) (fun s' hs' _ => reads_atom hf pre hs hcr rest s' hs')
    (dropBlank_dropBlank _) pre ?_ r hr (by simpa [depth] using hb)
  intro hl
  rw [htxt]
  simpa using hat hl

theorem printedReads_string (s : String) : PrintedReads f (.string s) := by
  intro D pre r rest hr hb
  rw [lines, dropBlank_renderAll_single, List.append_assoc] at hr
  rw [Layout.readBack_string]
  refine reads_shorthands (n := 0) (fun s' hs' _ => reads_string s rest hf s' hs')
    (dropBlank_dropBlank _)
    pre (fun _ => by simp [stringText]) r hr (by simpa [depth] using hb)

/-- The name of a quote kind is printed as it is. -/
theorem atomText_name (k : QuoteKind) : atomText f [] k.name = k.name.toList := by
  rw [atomText_of_escape hf]
  cases k <;> decide

theorem printedReads_quoted (k : QuoteKind) {v : Value} (hv : PrintedReads f v) :
    PrintedReads f (.quoted k v) := by
  cases hstyle : f.quoteStyle with
  | shorthand =>
    -- the shorthand joins the others in front of the first line of the body
    intro D pre r rest hr hb
    have hlines : (Value.quoted k v).lines f D pre = v.lines f D (pre ++ [k]) := by
      rw [lines, hstyle]
    have hback : f.readBack (.quoted k v) = .quoted k (f.readBack v) := by
      simp [Layout.readBack, hstyle]
    rw [hback, ← wrap_append]
    rw [hlines] at hr
    exact hv D (pre ++ [k]) r rest hr (by simp [depth] at hb ⊢; omega)
  | list =>
    -- spelt out, the quoted form is a list of the kind's name and the body
    have hname : PrintedReads f (.atom k.name) :=
      printedReads_atom hf (by cases k <;> decide) (by cases k <;> decide)
    refine printedReads_parens
      (PrintedItemsRead.cons hname (PrintedItemsRead.cons hv (printedItemsRead_nil f))) ?_ ?_ ?_
    · intro D pre
      rw [lines, hstyle, linesItems, linesItems, linesItems, lines, atomText_name hf]
      simp [shorthands]
    · simp [depth, depthItems]
    · simp [Layout.readBack, hstyle, desugar]

end Escaped

mutual

/-- **The lines of a value read back**, for every value none of whose atoms is empty or ends in
a carriage return. -/
theorem printedReads (hf : f.escape = true) :
    ∀ v : Value, (∀ s ∈ v.atoms, s ≠ "" ∧ s.toList.getLast? ≠ some '\r') → PrintedReads f v
  | .atom s, h => printedReads_atom hf (h s (by simp [atoms])).1 (h s (by simp [atoms])).2
  | .string s, _ => printedReads_string hf s
  | .list vs, h => printedReads_list (printedItemsRead hf vs (by simpa [atoms] using h))
  | .quoted k v, h => printedReads_quoted hf k (printedReads hf v (by simpa [atoms] using h))

theorem printedItemsRead (hf : f.escape = true) : ∀ vs : List Value,
    (∀ s ∈ atomsItems vs, s ≠ "" ∧ s.toList.getLast? ≠ some '\r') → PrintedItemsRead f vs
  | [], _ => printedItemsRead_nil f
  | v :: vs, h =>
    PrintedItemsRead.cons (printedReads hf v fun s hs => h s (by simp [atomsItems, hs]))
      (printedItemsRead hf vs fun s hs => h s (by simp [atomsItems, hs]))

end

/-- A value printed with escapes reads back as `f.readBack` says, within any limit at least its
depth, when none of its atoms is empty or ends in a carriage return. -/
theorem parse_print_readBack (hf : f.escape = true) {v : Value}
    (hv : ∀ s ∈ v.atoms, s ≠ "" ∧ s.toList.getLast? ≠ some '\r') {m : Nat} (hm : v.depth ≤ m) : parse (v.print f) ⟨m⟩ = .ok (f.readBack v) := by
  have hread := printedReads hf v hv 0 [] (Reader.start (v.print f) ⟨m⟩) []
    (by simp [Reader.start, Cursor.start, print, render, Line.renderAll])
    (by simpa [Reader.start] using hm)
  exact document_of_some hread.result (by rw [hread.rest_eq]; rfl)

/-- **Print then read gives the value back**: with escapes on and any indentation, within any
limit at least its depth, a value none of whose atoms is empty or ends in a carriage return reads
back as itself when quoted forms are printed with their shorthands, and with its quoted forms
spelt out when they are printed as lists. -/
theorem parse_print {v : Value} (hv : ∀ s ∈ v.atoms, s ≠ "" ∧ s.toList.getLast? ≠ some '\r')
    (w m : Nat) (hm : v.depth ≤ m) :
    parse (v.print ⟨w, true, .shorthand⟩) ⟨m⟩ = .ok v ∧
      parse (v.print ⟨w, true, .list⟩) ⟨m⟩ = .ok v.desugar :=
  ⟨parse_print_readBack rfl hv hm, parse_print_readBack rfl hv hm⟩

/-- A comma shorthand before an atom starting with `@`, a string with a quote in it, and an atom
made of parentheses and a blank, all within a limit of exactly their depth. -/
theorem parse_print_comma_at :
    (∀ s ∈ (Value.list [.quoted .unquote (.atom "@x"), .string "a\"b", .atom "(c d)"]).atoms,
        s ≠ "" ∧ s.toList.getLast? ≠ some '\r') ∧
      (Value.list [.quoted .unquote (.atom "@x"), .string "a\"b", .atom "(c d)"]).depth ≤ 2 ∧
      parse ((Value.list [.quoted .unquote (.atom "@x"), .string "a\"b", .atom "(c d)"]).print
          ⟨4, true, .shorthand⟩) ⟨2⟩ =
        .ok (.list [.quoted .unquote (.atom "@x"), .string "a\"b", .atom "(c d)"]) ∧
      parse ((Value.list [.quoted .unquote (.atom "@x"), .string "a\"b", .atom "(c d)"]).print
          ⟨4, true, .list⟩) ⟨2⟩ =
        .ok (.list [.list [.atom "unquote", .atom "@x"], .string "a\"b", .atom "(c d)"]) :=
  ⟨by decide, by decide, parse_print (by decide) 4 2 (by decide)⟩

/-- An atom ending in a carriage return reads back with a line feed added: its last character is
printed escaped, the line feed that ends its line follows, and the backslash takes the two as one
unit. -/
theorem parse_print_atom_cr :
    parse ((Value.atom "a\r").print ⟨2, true, .shorthand⟩) ⟨500⟩ = .ok (.atom "a\r\n") := by
  cbv

end Value
end Sexpr
