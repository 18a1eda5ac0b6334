import ClassLang.Proofs.Report.Lines
import ClassLang.Proofs.Token.Cuts
/-!
# Text — the order of positions

Positions stand in the order of lines and, on one line, of columns. Going to a
later byte offset goes to a later position (`Lines.before_pos`), and what stands
behind an offset does not matter to its position (`Lines.pos_append`). The
tokens of a text stand at later and later positions (`before_locate`).
-/


namespace ClassLang

/-- The position comes first: on an earlier line, or on the same one further to
the left. -/
def Pos.Before (p q : Pos) : Prop := p.line < q.line ∨ p.line = q.line ∧ p.column < q.column

theorem Pos.Before.asymm {p q : Pos} (h : p.Before q) : ¬ q.Before p := by
  unfold Before at *
  omega

namespace Lines

/-- The lines that start no later than an offset start no later than a later one. -/
theorem takeWhile_prefix_of_le (starts : List Nat) {o o' : Nat} (h : o ≤ o') :
    starts.takeWhile (· ≤ o) <+: starts.takeWhile (· ≤ o') := by
  induction starts with
  | nil => exact List.prefix_rfl
  | cons s starts ih =>
    by_cases hs : s ≤ o
    · rw [List.takeWhile_cons_of_pos (by simpa using hs),
        List.takeWhile_cons_of_pos (by simpa using Nat.le_trans hs h)]
      exact (List.prefix_cons_inj s).2 ih
    · rw [List.takeWhile_cons_of_neg (by simpa using hs)]
      exact List.nil_prefix

/-- **Later offsets are at later positions.** -/
theorem before_pos {l : Lines} (hfirst : l.starts.head? = some 0) {o o' : Nat} (h : o < o') :
    (l.pos o).Before (l.pos o') := by
  obtain ⟨starts, hstarts⟩ := List.head?_eq_some_iff.1 hfirst
  have hne : l.starts.takeWhile (· ≤ o) ≠ [] := by simp [hstarts]
  have hpos := List.length_pos_iff.2 hne
  have hlast : (l.starts.takeWhile (· ≤ o)).getLast hne ≤ o := by
    simpa using List.all_eq_true.1 List.all_takeWhile _ (List.getLast_mem hne)
  obtain ⟨more, hmore⟩ := takeWhile_prefix_of_le l.starts (Nat.le_of_lt h)
  unfold pos
  rw [← hmore]
  cases more with
  | nil =>
    refine .inr ⟨by rw [List.append_nil], ?_⟩
    simp only [List.append_nil, List.getLastD_eq_getLast?, List.getLast?_eq_some_getLast hne,
      Option.getD_some]
    omega
  | cons s more =>
    refine .inl ?_
    simp only [List.length_append, List.length_cons]
    omega

/-- What stands behind an offset does not matter to its position. -/
theorem pos_append {o : Nat} {before : List Char} (h : o ≤ byteLength before) (more : List Char) :
    (ofChars (before ++ more)).pos o = (ofChars before).pos o := by
  have hlate : ∀ s ∈ startsAfter (0 + byteLength before) more, ¬ s ≤ o := fun s hs => by
    have := (startsAfter_bounds _ _ s hs).1
    omega
  have htake : (startsAfter (0 + byteLength before) more).takeWhile (· ≤ o) = [] := by
    cases hl : startsAfter (0 + byteLength before) more with
    | nil => rfl
    | cons s l =>
      exact List.takeWhile_cons_of_neg (by simpa using hlate s (hl ▸ List.mem_cons_self))
  have hstarts : (ofChars (before ++ more)).starts.takeWhile (· ≤ o) =
      (ofChars before).starts.takeWhile (· ≤ o) := by
    show (0 :: startsAfter 0 (before ++ more)).takeWhile (· ≤ o) =
      (0 :: startsAfter 0 before).takeWhile (· ≤ o)
    rw [startsAfter_append, ← List.cons_append, List.takeWhile_append, htake, List.append_nil]
    split
    next hall => exact (List.takeWhile_prefix _).eq_of_length hall |>.symm
    next => rfl
  rw [pos, pos, hstarts]

end Lines

/-- **The tokens of a text stand at later and later positions.** -/
theorem before_locate (source : String) :
    (Source.locate (Lines.ofString source) (lex source).tokens).Pairwise
      fun t u => t.pos.Before u.pos := by
  refine List.pairwise_map.2 ((tokenizes_lex source).ascending.imp fun hlt => ?_)
  exact Lines.before_pos rfl hlt

end ClassLang
