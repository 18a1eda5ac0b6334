import ClassLang.Ir.Layout
/-!
# Intermediate form — where fields are placed

Fields are placed from left to right (`place`). Each starts at a multiple of
its alignment, behind the end of the field before it, and all of them end
before the end of the last (`Placed`). Where a field is placed depends on the
fields before it only, and so does its offset in a struct
(`fieldOffset_congr`).
-/


namespace ClassLang.Ir

/-! ## Rounding up -/

theorem dvd_alignUp (n : Nat) {align : Nat} (h : 0 < align) : align ∣ alignUp n align := by
  rw [alignUp, Nat.max_eq_left h]
  exact Nat.dvd_mul_left _ _

theorem le_alignUp (n align : Nat) : n ≤ alignUp n align := by
  unfold alignUp
  have hpos : 0 < max align 1 := by omega
  have hdiv := Nat.div_add_mod (n + max align 1 - 1) (max align 1)
  have hmod := Nat.mod_lt (n + max align 1 - 1) hpos
  rw [Nat.mul_comm] at hdiv
  omega

/-! ## Placing -/

section Place

variable {start i : Nat} {e : Extent} {extents : List Extent}

/-- Where fields are placed does not depend on the fields behind them. -/
theorem getElem?_place_of_initial {front all : List Extent} (h : front <+: all)
    (hi : i < front.length) : (place start all).1[i]? = (place start front).1[i]? := by
  obtain ⟨rest, rfl⟩ := h
  induction front generalizing start i with
  | nil => cases hi
  | cons e front ih =>
    cases i with
    | zero => rfl
    | succ i => exact ih (Nat.lt_of_succ_lt_succ hi)

theorem length_place (start : Nat) (extents : List Extent) :
    (place start extents).1.length = extents.length := by
  induction extents generalizing start with
  | nil => rfl
  | cons e rest ih => simp [place, ih]

/-- The offset that a field is placed at; behind the last field if there is no
such field. -/
def offsetAt (start : Nat) (extents : List Extent) (i : Nat) : Nat :=
  (place start extents).1[i]?.getD (place start extents).2

theorem offsetAt_succ (start : Nat) (e : Extent) (rest : List Extent) (i : Nat) :
    offsetAt start (e :: rest) (i + 1) = offsetAt (alignUp start e.align + e.size) rest i := rfl

theorem start_le_offsetAt (start : Nat) (extents : List Extent) (i : Nat) :
    start ≤ offsetAt start extents i := by
  induction extents generalizing start i with
  | nil => exact Nat.le_refl _
  | cons e rest ih =>
    have hround := le_alignUp start e.align
    cases i with
    | zero => exact hround
    | succ i =>
      rw [offsetAt_succ]
      exact Nat.le_trans (Nat.le_trans hround (Nat.le_add_right _ _)) (ih _ i)

/-- Behind the last field, the offset is the end. -/
theorem offsetAt_length (start : Nat) (extents : List Extent) :
    offsetAt start extents extents.length = (place start extents).2 := by
  rw [offsetAt, List.getElem?_eq_none (Nat.le_of_eq (length_place start extents))]
  rfl

theorem start_le_stop (start : Nat) (extents : List Extent) : start ≤ (place start extents).2 :=
  offsetAt_length start extents ▸ start_le_offsetAt start extents _

/-- **A field starts at a multiple of its alignment.** -/
theorem dvd_offsetAt (hi : extents[i]? = some e) (hpos : 0 < e.align) :
    e.align ∣ offsetAt start extents i := by
  induction extents generalizing start i with
  | nil => cases hi
  | cons e' rest ih =>
    cases i with
    | zero =>
      obtain rfl := Option.some.inj hi
      exact dvd_alignUp start hpos
    | succ i => exact ih hi

/-- **A field ends before the next one starts.** -/
theorem end_le_offsetAt_succ (hi : extents[i]? = some e) :
    offsetAt start extents i + e.size ≤ offsetAt start extents (i + 1) := by
  induction extents generalizing start i with
  | nil => cases hi
  | cons e' rest ih =>
    cases i with
    | zero =>
      obtain rfl := Option.some.inj hi
      exact start_le_offsetAt _ rest 0
    | succ i => exact ih hi

/-- **A field ends before the end.** -/
theorem end_le_stop (hi : extents[i]? = some e) :
    offsetAt start extents i + e.size ≤ (place start extents).2 := by
  induction extents generalizing start i with
  | nil => cases hi
  | cons e' rest ih =>
    cases i with
    | zero =>
      obtain rfl := Option.some.inj hi
      exact start_le_stop _ rest
    | succ i => exact ih hi

end Place

/-! ## Offsets in structs -/

section Offsets

variable {p : Program} {struct upper : StructId} {decl upperDecl : StructDef}

theorem fieldOffset_eq (hstruct : p.structs[struct]? = some decl) (i : Nat) :
    p.fieldOffset struct i = offsetAt 0 (decl.fields.map (p.extent ·.ty)) i := by
  simp only [Program.fieldOffset, hstruct]
  rfl

/-- **A field has the same offset in two structs** if the fields up to it have
the same extents. -/
theorem fieldOffset_congr (hstruct : p.structs[struct]? = some decl)
    (hupper : p.structs[upper]? = some upperDecl)
    (h : upperDecl.fields.map (p.extent ·.ty) <+: decl.fields.map (p.extent ·.ty)) {i : Nat}
    (hi : i < upperDecl.fields.length) : p.fieldOffset struct i = p.fieldOffset upper i := by
  have hlt : i < (place 0 (upperDecl.fields.map (p.extent ·.ty))).1.length := by
    rwa [length_place, List.length_map]
  rw [fieldOffset_eq hstruct, fieldOffset_eq hupper, offsetAt, offsetAt,
    getElem?_place_of_initial h (by rwa [List.length_map]), List.getElem?_eq_getElem hlt]
  rfl

end Offsets

end ClassLang.Ir
