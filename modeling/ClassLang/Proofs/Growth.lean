import Mathlib.Data.List.Nodup
/-!
# Places in lists

Tables of the analysis and of the lowering only grow at their end, so what
was found in one at an index is found there later.
-/


namespace ClassLang

variable {α : Type} {xs ys : List α} {i : Nat} {a : α}

/-- What stands in a list stands in every longer one. -/
theorem getElem?_of_initial (h : xs <+: ys) (hi : xs[i]? = some a) : ys[i]? = some a := by
  obtain ⟨hlt, rfl⟩ := List.getElem?_eq_some_iff.1 hi
  exact List.prefix_iff_getElem?.1 h i hlt

/-- A place in a list with one more element is an old one or the last. -/
theorem getElem?_append_singleton {b : α} (h : (xs ++ [b])[i]? = some a) :
    xs[i]? = some a ∨ (i = xs.length ∧ b = a) := by
  rcases Nat.lt_or_ge i xs.length with hi | hi
  · rw [List.getElem?_append_left hi] at h
    exact .inl h
  · rw [List.getElem?_append_right hi, List.getElem?_singleton] at h
    split at h
    next heq => exact .inr ⟨by omega, Option.some.inj h⟩
    next => cases h

/-- Where nothing repeats, what stands at an index is found there. -/
theorem idxOf?_eq_of_nodup [BEq α] [LawfulBEq α] (hnodup : xs.Nodup) (hi : xs[i]? = some a) :
    xs.idxOf? a = some i := by
  obtain ⟨hlt, hget⟩ := List.getElem?_eq_some_iff.1 hi
  refine List.idxOf?_eq_some_iff.2 ⟨hlt, by simp [hget], fun j hj heq => ?_⟩
  have hinj := (List.Nodup.getElem_inj_iff hnodup).1
    (show xs[j] = xs[i] by simpa [hget] using heq)
  omega

/-- What stands in a list has its counterpart in a list that goes with it. -/
theorem getElem?_of_forall₂ {β : Type} {R : α → β → Prop} {ys : List β} (h : List.Forall₂ R xs ys)
    (hi : xs[i]? = some a) : ∃ b, ys[i]? = some b ∧ R a b := by
  induction h generalizing i with
  | nil => cases hi
  | @cons x y xs ys hxy _ ih =>
    cases i with
    | zero => exact ⟨y, rfl, Option.some.inj hi ▸ hxy⟩
    | succ i => exact ih hi

end ClassLang
