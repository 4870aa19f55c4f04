import Sexpr.Proofs.Read.Faults

/-!
# Reading nothing

Asked for an expression, a reader finds none in one situation only: after the blanks comes a
closing parenthesis, which is left for the list it closes, or the end of the input, perhaps
behind a single backslash that has nothing left to escape.  Reading nothing reads only those
blanks and that backslash, and the reader stops at the parenthesis or the end; asked again, it
finds nothing again and does not move.

This is what makes the loop over the items of a list stop at the right place, so that its two
faults are the expected ones: the items of a list end at a closing parenthesis or at the end of
the input, so a list that is not closed is reported at the end, and a quote shorthand with nothing
after it is reported at a closing parenthesis or at the end.  And it is why a whole text gives
`emptyInput` exactly when it is blanks with at most one backslash after them.

## What is here

* `Sexpr.Literal.bareAtom_eq_nil`: when a bare atom has no text.
* `Sexpr.Reader.expr_of_stop`, `Sexpr.Reader.expr_of_none`: reading at a closing parenthesis or
  at the end, and what reading nothing reads.
* `Sexpr.Reader.items_end`, `Sexpr.Reader.stop_of_error`: where the items of a list end, and
  the two faults raised there.
* `Sexpr.Reader.nothing_read`: **reading nothing**, over whole runs.
-/

set_option autoImplicit false

namespace Sexpr

open Text

/-! ## Atoms with no text -/

namespace Literal

/-- A bare atom has no text only at the end of the input or at a character that ends it other
than a backslash, where it spans nothing, or as a lone backslash at the end, which it spans. -/
theorem bareAtom_eq_nil {cs : List Char} (h : (bareAtom cs).1 = []) :
    ((bareAtom cs).2 = 0 ∧ ∀ c, cs.head? = some c → endsAtom c = true ∧ c ≠ '\\') ∨
      (cs = ['\\'] ∧ (bareAtom cs).2 = 1) := by
  induction cs using bareAtom.induct with
  | case1 =>
    refine .inl ⟨rfl, fun c hc => ?_⟩
    cases hc
  | case2 => exact .inr ⟨rfl, rfl⟩
  | case3 r _ => simp [bareAtom] at h
  | case4 c r hc _ =>
    rw [bareAtom.eq_4 c r hc] at h
    cases h
  | case5 c r hc₁ hc₂ hc₃ hend =>
    rw [bareAtom.eq_5 c r hc₁ hc₂ hc₃, if_pos hend]
    refine .inl ⟨rfl, ?_⟩
    rintro d ⟨⟩
    exact ⟨hend, ne_backslash hc₁ hc₃⟩
  | case6 c r hc₁ hc₂ hc₃ hend _ =>
    rw [bareAtom.eq_5 c r hc₁ hc₂ hc₃, if_neg hend] at h
    cases h

end Literal

/-- The one character that starts a leaf, ends an atom, and is neither blank, a backslash nor a
double quote is the closing parenthesis. -/
theorem Opening.eq_close_of_endsAtom {c : Char} (hc : Opening.of (some c) = .leaf)
    (he : endsAtom c = true) (hb : isBlank c = false) (hbs : c ≠ '\\') (hq : c ≠ '"') :
    c = ')' := by
  have hk : QuoteKind.ofChar? c = none := by
    cases hk : QuoteKind.ofChar? c with
    | none => rfl
    | some k =>
      simp only [Opening.of, hk] at hc
      cases hc
  have hopen : c ≠ '(' := by
    rintro rfl
    cases hc
  simp only [endsAtom, hb, Bool.false_or, Bool.or_eq_true, beq_iff_eq] at he
  rcases he with ((((((h | h) | h) | h) | h) | h) | h)
  · exact absurd h hbs
  · exact absurd h hq
  · subst h
    cases hk
  · subst h
    cases hk
  · subst h
    cases hk
  · exact absurd h hopen
  · exact h

namespace Reader

/-! ## Standing still -/

/-- The blanks that skipping blanks reads are blanks. -/
theorem blanks_dropBlank (cs : List Char) :
    ∃ bs, (∀ b ∈ bs, isBlank b = true) ∧ cs = bs ++ dropBlank cs := by
  induction cs with
  | nil => exact ⟨[], nofun, rfl⟩
  | cons c cs ih =>
    cases hc : isBlank c with
    | true =>
      obtain ⟨bs, hbs, hcs⟩ := ih
      refine ⟨c :: bs, ?_, ?_⟩
      · rintro b (_ | ⟨_, hb⟩)
        · exact hc
        · exact hbs b hb
      · rw [dropBlank_cons_of_isBlank hc, List.cons_append, ← hcs]
    | false => exact ⟨[], nofun, by rw [dropBlank_cons_of_not_isBlank hc, List.nil_append]⟩

theorem skip_zero (r : Reader) : r.skip 0 = r := by
  obtain ⟨⟨rest, pos⟩, budget⟩ := r
  simp [skip, Cursor.skip, Pos.advance]

/-- Skipping blanks where none are stays put. -/
theorem skipBlank_of_head {r : Reader} (h : ∀ c, r.cursor.rest.head? = some c → isBlank c = false) :
    r.skipBlank = r := by
  have hspan : (Cursor.spanUnits (fun c => !isBlank c) r.cursor.rest).1 = [] := by
    have happ := Cursor.spanUnits_append (fun c => !isBlank c) r.cursor.rest
    have hd : (Cursor.spanUnits (fun c => !isBlank c) r.cursor.rest).2 = r.cursor.rest :=
      dropBlank_of_head h
    rw [hd] at happ
    exact List.append_left_eq_self.1 happ
  have hs : r.skipBlank = r.skip 0 := by
    simp only [skipBlank, Cursor.skipBlank, Cursor.takeUntil, hspan, List.length_nil]
    rfl
  rw [hs, skip_zero]

/-- Where reading stops when it reads nothing: at the end, or at a closing parenthesis. -/
def Stopped (r : Reader) : Prop := r.cursor.rest = [] ∨ r.cursor.rest.head? = some ')'

theorem Stopped.head {r : Reader} (h : r.Stopped) :
    ∀ c, r.cursor.rest.head? = some c → isBlank c = false := by
  intro c hc
  rcases h with h | h
  · rw [h] at hc
    cases hc
  · rw [h] at hc
    cases hc
    decide

/-- **At a closing parenthesis or at the end there is nothing to read**, and the reader stays
where it is. -/
theorem expr_of_stop {s : Reader} (h : s.Stopped) : (expr s).1 = ⟨.ok none, s⟩ := by
  have hs := skipBlank_of_head h.head
  have hbare : Literal.bareAtom s.cursor.rest = ([], 0) := by
    rcases h with h | h
    · rw [h]
      rfl
    · obtain ⟨R, hR⟩ := List.head?_eq_some_iff.1 h
      rw [hR, Literal.bareAtom_close]
  have hpeek : s.peek? = none ∨ s.peek? = some ')' := by
    rw [peek?_eq]
    rcases h with h | h
    · exact .inl (by rw [h]; rfl)
    · exact .inr h
  have hleaf : Opening.of s.skipBlank.peek? = .leaf := by
    rw [hs]
    rcases hpeek with h | h <;> rw [h] <;> rfl
  have hatom : s.atom = s.reply none := by
    rw [atom, if_neg (by rcases hpeek with h | h <;> rw [h] <;> decide), bare, hbare, skip_zero]
    rfl
  rw [expr_of_leaf hleaf, hs, hatom]
  simp only [reply, Reply.skipBlank, hs]

/-! ## Reading nothing -/

/-- A bare atom that reads as nothing is at the end, at a character that ends it other than a
backslash, or at a lone backslash at the end. -/
theorem bare_of_none {r : Reader} (h : r.bare.result = .ok none) :
    (r.bare.state = r ∧ ∀ c, r.peek? = some c → endsAtom c = true ∧ c ≠ '\\') ∨
      (r.cursor.rest = ['\\'] ∧ r.bare.state.cursor.rest = []) := by
  have hnil : (Literal.bareAtom r.cursor.rest).1 = [] := by
    simp only [bare, reply] at h
    split at h
    · rename_i hemp
      exact List.isEmpty_iff.1 hemp
    · cases h
  rcases Literal.bareAtom_eq_nil hnil with ⟨h0, hc⟩ | ⟨h1, -⟩
  · refine .inl ⟨?_, fun c hp => hc c (by rw [← peek?_eq]; exact hp)⟩
    simp only [bare, reply, h0, skip_zero]
  · refine .inr ⟨h1, ?_⟩
    simp [bare, reply, h1, Literal.bareAtom]

/-- **What reading nothing reads**: the blanks in front, and then a lone backslash at the end or
nothing more; the reader then stands at the end or at a closing parenthesis. -/
theorem expr_of_none {r : Reader} (h : (expr r).1.result = .ok none) :
    (dropBlank r.cursor.rest = (expr r).1.state.cursor.rest ∨
        dropBlank r.cursor.rest = ['\\'] ∧ (expr r).1.state.cursor.rest = []) ∧
      (expr r).1.state.Stopped := by
  cases hc : Opening.of r.skipBlank.peek? with
  | quote k =>
    obtain ⟨v, hv, -⟩ := depth_pos_of_quote hc h
    cases hv
  | list =>
    obtain ⟨v, hv, -⟩ := depth_pos_of_list hc h
    cases hv
  | leaf =>
    rw [expr_of_leaf hc, Reply.result_skipBlank] at h
    rw [expr_of_leaf hc]
    -- a string literal reads as a string or fails, so this is a bare atom
    have hp : r.skipBlank.peek? ≠ some '"' := by
      intro hp
      simp only [atom, if_pos hp, string] at h
      split at h <;> cases h
    rw [atom, if_neg hp] at h ⊢
    rcases bare_of_none h with ⟨hstate, hend⟩ | ⟨hbs, hrest⟩
    · -- what follows the blanks is the end or a character that ends an atom: a parenthesis
      have hstop : r.skipBlank.Stopped := by
        cases hr : r.skipBlank.cursor.rest with
        | nil => exact .inl hr
        | cons c R =>
          have hpc : r.skipBlank.peek? = some c := by rw [peek?_eq, hr]; rfl
          obtain ⟨he, hbs⟩ := hend c hpc
          have hb : isBlank c = false := by
            rw [rest_skipBlank] at hr
            exact dropBlank_head _ c (by rw [hr]; rfl)
          have hq : c ≠ '"' := fun hq => hp (by rw [hpc, hq])
          have hcl := Opening.eq_close_of_endsAtom (by rw [← hpc]; exact hc) he hb hbs hq
          exact .inr (by rw [hr, hcl]; rfl)
      have hrep : r.skipBlank.bare = ⟨.ok none, r.skipBlank⟩ := Reply.eq_mk h hstate
      rw [hrep]
      simp only [Reply.skipBlank, skipBlank_of_head hstop.head]
      exact ⟨.inl (by rw [rest_skipBlank]), hstop⟩
    · have hstop : r.skipBlank.bare.state.Stopped := .inl hrest
      have hrep : r.skipBlank.bare = ⟨.ok none, r.skipBlank.bare.state⟩ := Reply.eq_mk h rfl
      rw [hrep]
      simp only [Reply.skipBlank, skipBlank_of_head hstop.head]
      rw [rest_skipBlank] at hbs
      exact ⟨.inr ⟨hbs, hrest⟩, hstop⟩

/-- The items of a list end where an item reads as nothing. -/
theorem items_end : ∀ r : Reader, ∀ vs, (items r).1.result = .ok vs →
    ∃ q, Relation.ReflTransGen NextItem r q ∧ (expr q).1.result = .ok none ∧
      (items r).1.state = (expr q).1.state := by
  refine (read_induction (fun _ => True) _ (fun _ _ => trivial) (fun _ _ _ _ => trivial)
    (fun _ _ _ => trivial) ?_).2
  intro r _ ih vs h
  cases he : (expr r).1.result with
  | error e =>
    rw [items_of_error he] at h
    cases h
  | ok o =>
    cases o with
    | none => exact ⟨r, .refl, he, by rw [items_of_none he]⟩
    | some v =>
      obtain ⟨ws, hws, -⟩ := items_ok_of_some he h
      obtain ⟨q, hq, hnone, hstate⟩ := ih v he ws hws
      exact ⟨q, .head ⟨v, he, rfl⟩ hq, hnone, by rw [items_of_some he, ← hstate]⟩

/-- The items of a list end at a closing parenthesis or at the end. -/
theorem items_stopped {r : Reader} {vs : List Value} (h : (items r).1.result = .ok vs) :
    (items r).1.state.Stopped := by
  obtain ⟨q, -, hnone, hstate⟩ := items_end r vs h
  rw [hstate]
  exact (expr_of_none hnone).2

/-- The two faults raised where reading stops: an unclosed list is reported at the end, and a
quote shorthand with nothing after it at the end or at a closing parenthesis. -/
theorem Raises.stopped {s : Reader} {i : Nat} {e : SyntaxError} (h : s.Raises i e) :
    (∀ seen, e.fault = .expectedClose seen → (expr s).1.state.cursor.rest = []) ∧
      (∀ seen k, e.fault = .missingQuoted seen k → (expr s).1.state.Stopped) := by
  cases h with
  | leaf hc h =>
    obtain ⟨-, rfl⟩ := atom_of_error h
    exact ⟨nofun, nofun⟩
  | quoteRefused hc h =>
    obtain ⟨-, -, rfl⟩ := openQuote_of_error h
    exact ⟨nofun, nofun⟩
  | listRefused hc h =>
    obtain ⟨-, ⟨-, -, rfl⟩ | ⟨-, rfl⟩⟩ := openList_of_error h <;> exact ⟨nofun, nofun⟩
  | quoteEmpty hc ho h =>
    rw [expr_of_quote hc ho, closeQuote_of_none h, Reply.skipBlank_of_error rfl]
    exact ⟨nofun, fun _ _ _ => (expr_of_none h).2⟩
  | listUnclosed hc ho h hclose =>
    obtain ⟨hstate, hp, rfl⟩ := closeList_of_error hclose
    rw [expr_of_list hc ho, finishList_of_ok h, hclose, Reply.skipBlank_of_error rfl, hstate]
    refine ⟨fun _ _ => ?_, nofun⟩
    rcases items_stopped h with hend | hcl
    · exact hend
    · exact absurd (by rw [peek?_eq, hcl]) hp

/-- A fault that reading gives, of one of the two kinds raised where reading stops, is reported
at the end, or, for a quote shorthand with nothing after it, at a closing parenthesis it saw. -/
theorem stop_of_error {r : Reader} {e : SyntaxError} (h : (expr r).1.result = .error e) :
    (∀ seen, e.fault = .expectedClose seen → seen = none ∧ (expr r).1.state.cursor.rest = []) ∧
      (∀ seen k, e.fault = .missingQuoted seen k →
        seen = none ∧ (expr r).1.state.cursor.rest = [] ∨
          seen = some ')' ∧ (expr r).1.state.cursor.rest.head? = some ')') := by
  obtain ⟨n, s, i, hcalls, hraises⟩ := raises_of_error.1 r e h
  obtain ⟨-, hfits⟩ := fits_of_error h
  rw [hcalls.expr_of_error hraises.result_eq.1] at hfits ⊢
  obtain ⟨hclose, hquote⟩ := hraises.stopped
  obtain ⟨fault, pos⟩ := e
  refine ⟨fun seen hf => ?_, fun seen k hf => ?_⟩
  · subst hf
    have hend := hclose seen rfl
    refine ⟨?_, hend⟩
    simpa [Fault.Fits, hend] using hfits
  · subst hf
    simp only [Fault.Fits] at hfits
    rcases hquote seen k rfl with hend | hcl
    · exact .inl ⟨by rw [hfits, hend]; rfl, hend⟩
    · exact .inr ⟨by rw [hfits, hcl], hcl⟩

/-! ## A whole document -/

/-- At the end, perhaps behind a lone backslash, there is nothing to read, and the reader ends
at the end. -/
theorem expr_of_end {r : Reader}
    (h : dropBlank r.cursor.rest = [] ∨ dropBlank r.cursor.rest = ['\\']) :
    (expr r).1.result = .ok none ∧ (expr r).1.state.cursor.rest = [] := by
  have hpeek : r.skipBlank.peek? = none ∨ r.skipBlank.peek? = some '\\' := by
    rw [peek?_eq, rest_skipBlank]
    rcases h with h | h <;> rw [h] <;> simp
  have hleaf : Opening.of r.skipBlank.peek? = .leaf := by
    rcases hpeek with hp | hp <;> rw [hp] <;> rfl
  have hnq : r.skipBlank.peek? ≠ some '"' := by
    rcases hpeek with hp | hp <;> rw [hp] <;> decide
  rw [expr_of_leaf hleaf, atom, if_neg hnq]
  rcases h with h | h <;> simp [bare, h, Literal.bareAtom, reply, Reply.skipBlank]

/-- Reading an expression never reports an empty input; only a whole document does. -/
theorem expr_ne_emptyInput (r : Reader) (p : Pos) :
    (expr r).1.result ≠ .error ⟨.emptyInput, p⟩ := by
  intro h
  obtain ⟨n, s, i, -, hraises⟩ := raises_of_error.1 r _ h
  cases hraises with
  | leaf hc h => cases (atom_of_error h).2
  | quoteRefused hc h => cases (openQuote_of_error h).2.2
  | listRefused hc h =>
    obtain ⟨-, ⟨-, -, he⟩ | ⟨-, he⟩⟩ := openList_of_error h <;> cases he
  | listUnclosed hc ho h hclose => cases (closeList_of_error hclose).2.2

/-- **A text is an empty input exactly when it is blanks**, with at most one backslash after
them. -/
theorem parse_emptyInput_iff (t : String) (m : Nat) :
    (∃ p, parse t ⟨m⟩ = .error ⟨.emptyInput, p⟩) ↔
      ∃ bs, (∀ b ∈ bs, isBlank b = true) ∧ (t.toList = bs ∨ t.toList = bs ++ ['\\']) := by
  constructor
  · rintro ⟨p, hp⟩
    obtain ⟨bs, hbs, ht⟩ := blanks_dropBlank t.toList
    refine ⟨bs, hbs, ?_⟩
    unfold parse document at hp
    cases he : (expr (start t ⟨m⟩)).1.result with
    | error e =>
      rw [he] at hp
      cases hp
      exact absurd he (expr_ne_emptyInput _ p)
    | ok o =>
      rw [he] at hp
      dsimp only at hp
      -- the document ends right after the expression, which was nothing
      cases hpk : (expr (start t ⟨m⟩)).1.state.skipBlank.peek? with
      | some c =>
        rw [hpk] at hp
        cases hp
      | none =>
        rw [hpk] at hp
        cases o with
        | some v => cases hp
        | none =>
          obtain ⟨hread, hstop⟩ := expr_of_none he
          have hend : (expr (start t ⟨m⟩)).1.state.cursor.rest = [] := by
            rcases hstop with hend | hcl
            · exact hend
            · rw [peek?_eq, rest_skipBlank, dropBlank_of_head (Stopped.head (.inr hcl)), hcl] at hpk
              cases hpk
          rw [hend] at hread
          rcases hread with hd | ⟨hd, -⟩
          · have hd' : dropBlank t.toList = [] := hd
            exact .inl (by rw [ht, hd', List.append_nil])
          · have hd' : dropBlank t.toList = ['\\'] := hd
            exact .inr (by rw [ht, hd'])
  · rintro ⟨bs, hbs, ht⟩
    have hdrop : dropBlank (start t ⟨m⟩).cursor.rest = [] ∨
        dropBlank (start t ⟨m⟩).cursor.rest = ['\\'] := by
      simp only [start, Cursor.start]
      rcases ht with ht | ht
      · exact .inl (by rw [ht, ← List.append_nil bs, dropBlank_append_of_isBlank hbs]; rfl)
      · exact .inr (by rw [ht, dropBlank_append_of_isBlank hbs]; decide)
    obtain ⟨hnone, hend⟩ := expr_of_end hdrop
    refine ⟨(expr (start t ⟨m⟩)).1.state.skipBlank.cursor.pos, ?_⟩
    unfold parse document
    rw [hnone]
    dsimp only
    have hpk : (expr (start t ⟨m⟩)).1.state.skipBlank.peek? = none := by
      rw [peek?_eq, rest_skipBlank, hend]
      rfl
    rw [hpk]
    rfl

end Reader

open Reader

/-- **Reading nothing.**  Ask a reader started on `t` with the limit `m` for one expression after
another, going on after faults.  When a call finds nothing, it has read only blanks, and then
perhaps a backslash that was the last character of `t`; it stops at the end of `t` or at a
closing parenthesis, and asked again it finds nothing again without moving or spending anything.
So a fault for an unclosed list is only ever reported at the end, having seen nothing, and a
fault for a quote shorthand with nothing after it only at the end or at a closing parenthesis,
which is what it saw.  And reading `t` whole fails with an empty input exactly when `t` is blanks,
with at most one backslash after them. -/
theorem nothing_read (t : String) (m : Nat) :
    (∀ j, let r := (start t ⟨m⟩).afterExprs j
      ((expr r).1.result = .ok none →
        ∃ pre bs, t.toList = pre ++ r.cursor.rest ∧ (∀ b ∈ bs, isBlank b = true) ∧
          (r.cursor.rest = bs ++ (expr r).1.state.cursor.rest ∨
            r.cursor.rest = bs ++ ['\\'] ∧ (expr r).1.state.cursor.rest = []) ∧
          ((expr r).1.state.cursor.rest = [] ∨ (expr r).1.state.cursor.rest.head? = some ')') ∧
          (expr (expr r).1.state).1 = ⟨.ok none, (expr r).1.state⟩) ∧
      ∀ e, (expr r).1.result = .error e → e.pos = (expr r).1.state.cursor.pos ∧
        (∀ seen, e.fault = .expectedClose seen → seen = none ∧ (expr r).1.state.cursor.rest = []) ∧
        (∀ seen k, e.fault = .missingQuoted seen k →
          seen = none ∧ (expr r).1.state.cursor.rest = [] ∨
            seen = some ')' ∧ (expr r).1.state.cursor.rest.head? = some ')')) ∧
    ((∃ p, parse t ⟨m⟩ = .error ⟨.emptyInput, p⟩) ↔
      ∃ bs, (∀ b ∈ bs, isBlank b = true) ∧ (t.toList = bs ∨ t.toList = bs ++ ['\\'])) := by
  refine ⟨fun j => ⟨fun hnone => ?_, fun e he => ⟨(fits_of_error he).1, stop_of_error he⟩⟩,
    parse_emptyInput_iff t m⟩
  obtain ⟨pre, hover⟩ := (over_start t ⟨m⟩).afterExprs j
  obtain ⟨bs, hbs, hsplit⟩ := blanks_dropBlank ((start t ⟨m⟩).afterExprs j).cursor.rest
  obtain ⟨hread, hstop⟩ := expr_of_none hnone
  refine ⟨pre, bs, hover.split.symm, hbs, ?_, hstop, expr_of_stop hstop⟩
  rcases hread with hd | ⟨hd, hend⟩
  · exact .inl (by rw [hsplit, hd])
  · exact .inr ⟨by rw [hsplit, hd], hend⟩

end Sexpr
