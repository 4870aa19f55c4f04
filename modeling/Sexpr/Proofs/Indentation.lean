import Mathlib
import Sexpr.Proofs.RoundTrip

/-!
# The shape of printed output

The printer writes one token per line, indented by the depth of the line.  This file says what
the output looks like as text: it ends with a line feed, and cut at its line feeds it falls into
exactly the lines of `Sexpr.Value.lineDepths`, each made of the indentation for its depth and a
token that starts with a character that is not blank.

The depths are those of the value's lists: a list takes a line for each parenthesis at its own
depth and puts its items one level deeper.  A quoted form printed as a list is such a list, of
its kind's name and its body.  A quoted form printed with its shorthand takes no line of its own:
the shorthand goes in front of the first line of the body, at the same depth.

Two things about escaping make each line one token.  A line never holds a line feed, since the
escape table writes it as `\n` inside a string literal, and an atom has none to write.  And a line
never starts with a blank, since an atom that does is printed with a backslash in front.  A
carriage return inside an atom is harmless here: it is written as it is, after a backslash, and
does not cut the line.

## What is here

* `Sexpr.Value.lineDepths`: the depth of each line of a printed value.
* `Sexpr.Line.HoldsToken`: a line whose text is a token.
* `Sexpr.Value.lines_depth`, `Sexpr.Value.lines_holdsToken`: the lines of a value, by induction.
* `Sexpr.Line.splitOn_renderAll`: cutting printed lines at their line feeds gives them back.
* `Sexpr.Value.print_layout`: **one token per line, indented by depth**.
-/

set_option autoImplicit false

namespace Sexpr

open Text Text.Escape

/-! ## The depth of each line -/

namespace Value

mutual

/-- The depth of each line that printing `v` at depth `d` writes, in quote style `q`, in order. -/
def lineDepths (q : QuoteStyle) (d : Nat) : Value → List Nat
  | .atom _ => [d]
  | .string _ => [d]
  | .list vs => d :: (lineDepthsItems q (d + 1) vs ++ [d])
  | .quoted _ v =>
    match q with
    | .list => d :: (d + 1) :: (lineDepths q (d + 1) v ++ [d])
    | .shorthand => lineDepths q d v

/-- `lineDepths` of some values, one after another. -/
def lineDepthsItems (q : QuoteStyle) (d : Nat) : List Value → List Nat
  | [] => []
  | v :: vs => lineDepths q d v ++ lineDepthsItems q d vs

end

example : (Value.list [.atom "f", .quoted .quote (.atom "x")]).lineDepths .list 0 =
    [0, 1, 1, 2, 2, 1, 0] := by decide

mutual

/-- The lines of a value sit at the depths `lineDepths` gives, whatever the shorthands in front. -/
theorem lines_depth (f : Layout) :
    ∀ (d : Nat) (pre : List QuoteKind) (v : Value),
      (v.lines f d pre).map Line.depth = v.lineDepths f.quoteStyle d
  | d, _, .atom _ => by simp [lines, lineDepths]
  | d, _, .string _ => by simp [lines, lineDepths]
  | d, _, .list vs => by simp [lines, lineDepths, linesItems_depth f (d + 1) vs]
  | d, pre, .quoted k v => by
    cases hq : f.quoteStyle with
    | list => simp [lines, lineDepths, hq, lines_depth f (d + 1) [] v]
    | shorthand => simp [lines, lineDepths, hq, lines_depth f d (pre ++ [k]) v]

theorem linesItems_depth (f : Layout) :
    ∀ (d : Nat) (vs : List Value),
      (linesItems f d vs).map Line.depth = lineDepthsItems f.quoteStyle d vs
  | _, [] => rfl
  | d, v :: vs => by
    simp [linesItems, lineDepthsItems, lines_depth f d [] v, linesItems_depth f d vs]

end

end Value

/-! ## Every line holds a token -/

/-- A line whose text is one token: it starts with a character that is not blank, and it holds no
line feed. -/
def Line.HoldsToken (l : Line) : Prop :=
  (∃ c cs, l.text = c :: cs ∧ isBlank c = false) ∧ '\n' ∉ l.text

theorem newline_not_mem_shorthands (pre : List QuoteKind) : '\n' ∉ Value.shorthands pre := by
  simp only [Value.shorthands, List.mem_flatMap, not_exists, not_and]
  intro k _
  cases k <;> decide

/-- A token behind some shorthands is still a token. -/
theorem Line.holdsToken_shorthands (d : Nat) (pre : List QuoteKind) {X : List Char}
    (hhead : ∃ c cs, X = c :: cs ∧ isBlank c = false) (hlf : '\n' ∉ X) :
    Line.HoldsToken ⟨d, Value.shorthands pre ++ X⟩ := by
  refine ⟨?_, by simp [newline_not_mem_shorthands pre, hlf]⟩
  cases pre with
  | nil => simpa [Value.shorthands] using hhead
  | cons k pre =>
    obtain ⟨c, cs, hk, hc, -⟩ := Reader.shorthand_head k
    exact ⟨c, cs ++ (Value.shorthands pre ++ X), by simp [Value.shorthands, hk], hc⟩

theorem mem_encodeAtom {c : Char} {s : List Char} (h : c ∈ encodeAtom s) : c = '\\' ∨ c ∈ s := by
  simp only [encodeAtom, List.mem_flatMap] at h
  obtain ⟨d, hd, hc⟩ := h
  split at hc <;> simp at hc <;> grind

/-- The escape table writes no line feed: it writes one as `\n`. -/
theorem newline_not_mem_encodeString (s : List Char) : '\n' ∉ encodeString s := by
  simp only [encodeString, List.mem_flatMap, not_exists, not_and]
  intro c _
  cases hl : letter? c with
  | some l =>
    -- the letters of the table are none of them a line feed
    unfold letter? at hl
    split at hl <;> simp at hl <;> subst hl <;> decide
  | none =>
    simp only [List.mem_singleton]
    rintro rfl
    simp [letter?] at hl

namespace Value

variable {f : Layout}

theorem holdsToken_atom (hf : f.escape = true) (d : Nat) (pre : List QuoteKind) {s : String}
    (hs : s ≠ "") (hlf : '\n' ∉ s.toList) : Line.HoldsToken ⟨d, shorthands pre ++ atomText f pre s⟩ := by
  obtain ⟨c, cs, htxt, hc, -⟩ := Reader.atomText_head hf pre hs
  have hcb : isBlank c = false := by
    rcases hc with rfl | hc
    · decide
    · exact Reader.isBlank_eq_false_of_endsAtom hc
  refine Line.holdsToken_shorthands d pre ⟨c, cs, htxt, hcb⟩ fun hmem => ?_
  rw [Reader.atomText_of_escape hf] at hmem
  rcases List.mem_append.1 hmem with h | h
  · split at h <;> simp at h
  · rcases mem_encodeAtom h with h | h
    · cases h
    · exact hlf h

theorem holdsToken_string (hf : f.escape = true) (d : Nat) (pre : List QuoteKind) (s : String) :
    Line.HoldsToken ⟨d, shorthands pre ++ stringText f s⟩ := by
  refine Line.holdsToken_shorthands d pre ⟨_, _, rfl, by decide⟩ ?_
  simp [stringText, hf, newline_not_mem_encodeString]

theorem holdsToken_open (d : Nat) (pre : List QuoteKind) :
    Line.HoldsToken ⟨d, shorthands pre ++ ['(']⟩ :=
  Line.holdsToken_shorthands d pre ⟨_, _, rfl, by decide⟩ (by decide)

theorem holdsToken_close (d : Nat) : Line.HoldsToken ⟨d, [')']⟩ :=
  ⟨⟨_, _, rfl, by decide⟩, show '\n' ∉ [')'] by decide⟩

theorem holdsToken_name (d : Nat) (k : QuoteKind) : Line.HoldsToken ⟨d, k.name.toList⟩ := by
  have hname : (∃ c cs, k.name.toList = c :: cs ∧ isBlank c = false) ∧ '\n' ∉ k.name.toList := by
    cases k with
    | quote => exact ⟨⟨'q', "uote".toList, by decide, by decide⟩, by decide⟩
    | quasiquote => exact ⟨⟨'q', "uasiquote".toList, by decide, by decide⟩, by decide⟩
    | unquote => exact ⟨⟨'u', "nquote".toList, by decide, by decide⟩, by decide⟩
    | unquoteSplicing => exact ⟨⟨'u', "nquote-splicing".toList, by decide, by decide⟩, by decide⟩
  exact hname

mutual

/-- **Every line of a printed value holds a token**, when none of its atoms is empty or holds a
line feed. -/
theorem lines_holdsToken (hf : f.escape = true) :
    ∀ (d : Nat) (pre : List QuoteKind) (v : Value), (∀ s ∈ v.atoms, s ≠ "" ∧ '\n' ∉ s.toList) →
      ∀ l ∈ v.lines f d pre, l.HoldsToken
  | d, pre, .atom s, h => by
    have hs := h s (by simp [atoms])
    simpa [lines] using holdsToken_atom hf d pre hs.1 hs.2
  | d, pre, .string s, _ => by simpa [lines] using holdsToken_string hf d pre s
  | d, pre, .list vs, h => by
    have hitems := linesItems_holdsToken hf (d + 1) vs (by simpa [atoms] using h)
    simp only [lines, List.mem_cons, List.mem_append, List.not_mem_nil, or_false]
    rintro l (rfl | hl | rfl)
    · exact holdsToken_open d pre
    · exact hitems l hl
    · exact holdsToken_close d
  | d, pre, .quoted k v, h => by
    have hv : ∀ s ∈ v.atoms, s ≠ "" ∧ '\n' ∉ s.toList := by simpa [atoms] using h
    cases hq : f.quoteStyle with
    | list =>
      have hbody := lines_holdsToken hf (d + 1) [] v hv
      simp only [lines, hq, List.mem_cons, List.mem_append, List.not_mem_nil, or_false]
      rintro l (rfl | rfl | hl | rfl)
      · exact holdsToken_open d pre
      · exact holdsToken_name (d + 1) k
      · exact hbody l hl
      · exact holdsToken_close d
    | shorthand =>
      simpa [lines, hq] using lines_holdsToken hf d (pre ++ [k]) v hv

theorem linesItems_holdsToken (hf : f.escape = true) :
    ∀ (d : Nat) (vs : List Value), (∀ s ∈ atomsItems vs, s ≠ "" ∧ '\n' ∉ s.toList) →
      ∀ l ∈ linesItems f d vs, l.HoldsToken
  | _, [], _ => by simp [linesItems]
  | d, v :: vs, h => by
    simp only [linesItems, List.mem_append]
    rintro l (hl | hl)
    · exact lines_holdsToken hf d [] v (fun s hs => h s (by simp [atomsItems, hs])) l hl
    · exact linesItems_holdsToken hf d vs (fun s hs => h s (by simp [atomsItems, hs])) l hl

end

end Value

/-! ## Cutting the output at its line feeds -/

/-- Cutting printed lines at their line feeds gives each line back, indentation and text, and an
empty piece after the last line feed. -/
theorem Line.splitOn_renderAll (w : Nat) (ls : List Line) (h : ∀ l ∈ ls, '\n' ∉ l.text) :
    (renderAll w ls).splitOn '\n' =
      ls.map (fun l => List.replicate (w * l.depth) ' ' ++ l.text) ++ [[]] := by
  induction ls with
  | nil => rfl
  | cons l ls ih =>
    have hlf : '\n' ∉ List.replicate (w * l.depth) ' ' ++ l.text := by
      simp [List.mem_replicate, h l (by simp)]
    rw [renderAll_cons, ← List.append_assoc, List.splitOn_append_cons_self_of_not_mem hlf,
      ih fun l' hl' => h l' (by simp [hl'])]
    rfl

theorem Line.getLast?_renderAll (w : Nat) {ls : List Line} (h : ls ≠ []) :
    (renderAll w ls).getLast? = some '\n' := by
  obtain ⟨init, l, rfl⟩ := (List.eq_nil_or_concat ls).resolve_left h
  simp [renderAll_append, renderAll_cons]

namespace Value

theorem lines_ne_nil (f : Layout) (d : Nat) (pre : List QuoteKind) (v : Value) :
    v.lines f d pre ≠ [] := by
  intro h
  have hd := lines_depth f d pre v
  rw [h, List.map_nil] at hd
  -- every value has at least one line
  cases v with
  | atom s => simp [lineDepths] at hd
  | string s => simp [lineDepths] at hd
  | list vs => simp [lineDepths] at hd
  | quoted k x =>
    cases hq : f.quoteStyle with
    | list => simp [lineDepths, hq] at hd
    | shorthand => exact lines_ne_nil f d (pre ++ [k]) x (by simpa [lines, hq] using h)

/-- **One token per line, indented by depth.**  Print a value with escapes on, at any width and
in either quote style, when none of its atoms is empty or holds a line feed.  The output ends
with a line feed; cut after each line feed, it gives one line for each entry of
`lineDepths` at depth `0`, in order, and the line for depth `d` is exactly `width * d` spaces
followed by a character that is not blank. -/
theorem print_layout {v : Value} (hv : ∀ s ∈ v.atoms, s ≠ "" ∧ '\n' ∉ s.toList) (f : Layout)
    (hf : f.escape = true) :
    (v.print f).toList.getLast? = some '\n' ∧
      List.Forall₂
        (fun line d => ∃ c cs, line = List.replicate (f.width * d) ' ' ++ c :: cs ∧ isBlank c = false)
        ((v.print f).toList.splitOn '\n').dropLast (v.lineDepths f.quoteStyle 0) := by
  have hout : (v.print f).toList = Line.renderAll f.width (v.lines f 0 []) := by
    rw [print, String.toList_ofList]
    rfl
  have htok := lines_holdsToken hf 0 [] v hv
  refine ⟨by rw [hout]; exact Line.getLast?_renderAll _ (lines_ne_nil f 0 [] v), ?_⟩
  rw [hout, Line.splitOn_renderAll _ _ fun l hl => (htok l hl).2, List.dropLast_concat,
    ← lines_depth f 0 [], List.forall₂_map_left_iff, List.forall₂_map_right_iff, List.forall₂_same]
  intro l hl
  obtain ⟨c, cs, htext, hc⟩ := (htok l hl).1
  exact ⟨c, cs, by rw [htext], hc⟩

/-- A comma before an atom that starts with `@`, a string literal with a line feed, and an atom
that starts with a blank, printed with shorthands three spaces per level. -/
theorem print_layout_shorthand :
    (∀ s ∈ (Value.list [.quoted .unquote (.atom "@x"), .string "a\nb", .atom " c"]).atoms,
        s ≠ "" ∧ '\n' ∉ s.toList) ∧
      (Value.print ⟨3, true, .shorthand⟩
          (.list [.quoted .unquote (.atom "@x"), .string "a\nb", .atom " c"])).toList.getLast? =
        some '\n' ∧
      List.Forall₂
        (fun line d => ∃ c cs, line = List.replicate (3 * d) ' ' ++ c :: cs ∧ isBlank c = false)
        (((Value.print ⟨3, true, .shorthand⟩
          (.list [.quoted .unquote (.atom "@x"), .string "a\nb", .atom " c"])).toList.splitOn
            '\n').dropLast)
        ((Value.list [.quoted .unquote (.atom "@x"), .string "a\nb", .atom " c"]).lineDepths
          .shorthand 0) :=
  ⟨by decide, print_layout (by decide) ⟨3, true, .shorthand⟩ rfl⟩

end Value
end Sexpr
