import ClassLang.Proofs.Typing.Denotation
/-!
# Typing — one type in two tables

Two runs of the checks intern array types in orders of their own. `Alike` says
that two interned types are one type, each in its own table: they are written
alike and fit alike, whatever their indices are (`Alike.text`,
`Alike.isSubtype`). `Fades` leaves room for a second run that has lost a type
and goes on with `any`, and there what fitted still fits (`Fades.isSubtype`).
-/


namespace ClassLang.Typing

open Source (TypeExpr)

/-- Two tables of one program. -/
structure Paired (t t' : TypeTable) : Prop where
  left : Layered t
  right : Layered t'
  classNames : t'.classNames = t.classNames

/-- The two types are one, each in its own table. -/
inductive Alike (t t' : TypeTable) : Ty → Ty → Prop
  | int : Alike t t' .int .int
  | bool : Alike t t' .bool .bool
  | null : Alike t t' .null .null
  | any : Alike t t' .any .any
  | class_ (id : ClassId) : Alike t t' (.class_ id) (.class_ id)
  | array {id id' elem elem'} : t.elems[id]? = some elem → t'.elems[id']? = some elem' →
      Alike t t' elem elem' → Alike t t' (.array id) (.array id')

/-- The two types are one, or the second is lost. -/
inductive Fades (t t' : TypeTable) : Ty → Ty → Prop
  | alike {ty ty'} : Alike t t' ty ty' → Fades t t' ty ty'
  | lost {ty} : Alike t t ty ty → Fades t t' ty .any

variable {t t' u u' : TypeTable} {ty ty' other : Ty}

/-! ## One type -/

namespace Alike

theorem mono (hle : t.elems <+: u.elems) (hle' : t'.elems <+: u'.elems) (h : Alike t t' ty ty') :
    Alike u u' ty ty' := by
  induction h with
  | int => exact .int
  | bool => exact .bool
  | null => exact .null
  | any => exact .any
  | class_ id => exact .class_ id
  | array helem helem' _ ih =>
    exact .array (getElem?_of_initial hle helem) (getElem?_of_initial hle' helem') ih

theorem symm (h : Alike t t' ty ty') : Alike t' t ty' ty := by
  induction h with
  | int => exact .int
  | bool => exact .bool
  | null => exact .null
  | any => exact .any
  | class_ id => exact .class_ id
  | array helem helem' _ ih => exact .array helem' helem ih

/-- What is a type of two tables is one of the first. -/
theorem left (h : Alike t t' ty ty') : Alike t t ty ty := by
  induction h with
  | int => exact .int
  | bool => exact .bool
  | null => exact .null
  | any => exact .any
  | class_ id => exact .class_ id
  | array helem _ _ ih => exact .array helem helem ih

/-- A type is interned once. -/
theorem right_unique (hnodup : t'.elems.Nodup) (h : Alike t t' ty ty') (h' : Alike t t' ty other) :
    ty' = other := by
  induction h generalizing other with
  | int | bool | null | any | class_ => cases h'; rfl
  | array helem helem' _ ih =>
    cases h' with
    | array hleft hright h' =>
      obtain rfl := Option.some.inj (helem.symm.trans hleft)
      obtain rfl := ih h'
      obtain ⟨hi, hi'⟩ := List.getElem?_eq_some_iff.1 helem'
      obtain ⟨hj, hj'⟩ := List.getElem?_eq_some_iff.1 hright
      rw [(List.Nodup.getElem_inj_iff hnodup).1 (hi'.trans hj'.symm)]

theorem left_unique (hnodup : t.elems.Nodup) (h : Alike t t' ty ty') (h' : Alike t t' other ty') :
    ty = other :=
  h.symm.right_unique hnodup h'.symm

theorem eq_any_iff (h : Alike t t' ty ty') : ty = .any ↔ ty' = .any := by
  cases h <;> simp

theorem ne_invalid (h : Alike t t' ty ty') : ty ≠ .invalid := by
  cases h <;> simp

/-- A type is written alike from both tables. -/
theorem textWithin (hpair : Paired t t') (h : Alike t t' ty ty') : ∀ {depth depth' : Nat},
    (∀ id, ty = .array id → id < depth) → (∀ id, ty' = .array id → id < depth') →
    t.textWithin depth ty = t'.textWithin depth' ty' := by
  induction h with
  | int | bool | null | any =>
    intro depth depth' _ _
    cases depth <;> cases depth' <;> rfl
  | class_ id =>
    intro depth depth' _ _
    have hname : t.className id = t'.className id := by
      rw [TypeTable.className, TypeTable.className, hpair.classNames]
    cases depth <;> cases depth' <;> exact hname
  | @array id id' elem elem' helem helem' _ ih =>
    intro depth depth' hid hid'
    obtain ⟨depth, rfl⟩ := Nat.exists_eq_succ_of_ne_zero (Nat.ne_zero_of_lt (hid id rfl))
    obtain ⟨depth', rfl⟩ := Nat.exists_eq_succ_of_ne_zero (Nat.ne_zero_of_lt (hid' id' rfl))
    have hinner : t.textWithin depth elem = t'.textWithin depth' elem' := ih
      (fun inner heq => Nat.lt_of_lt_of_le (hpair.left.older id inner (heq ▸ helem))
        (Nat.le_of_lt_succ (hid id rfl)))
      (fun inner heq => Nat.lt_of_lt_of_le (hpair.right.older id' inner (heq ▸ helem'))
        (Nat.le_of_lt_succ (hid' id' rfl)))
    simp only [TypeTable.textWithin, TypeTable.elem, helem, helem', Option.getD_some, hinner]

theorem lt_length (h : Alike t t' ty ty') (id : ArrayId) (heq : ty = .array id) :
    id < t.elems.length := by
  cases h with
  | array helem _ _ => exact Ty.array.inj heq ▸ (List.getElem?_eq_some_iff.1 helem).1
  | int | bool | null | any | class_ => cases heq

theorem text (hpair : Paired t t') (h : Alike t t' ty ty') : t.text ty = t'.text ty' :=
  h.textWithin hpair (fun id heq => Nat.lt_succ_of_lt (h.lt_length id heq))
    fun id heq => Nat.lt_succ_of_lt (h.symm.lt_length id heq)

/-- **Subtyping** is the same in both tables. -/
theorem isSubtype (hpair : Paired t t') (classes : ClassTable) {sub sub' sup sup' : Ty}
    (hsub : Alike t t' sub sub') (hsup : Alike t t' sup sup') :
    classes.isSubtype t sub sup = classes.isSubtype t' sub' sup' := by
  cases hsub with
  | int | bool | null | any | class_ => cases hsup <;> rfl
  | @array id id' elem elem' helem helem' h =>
    cases hsup with
    | int | bool | null | any | class_ => rfl
    | @array other other' inner inner' hinner hinner' hother =>
      have heq : id = other ↔ id' = other' := by
        constructor
        · rintro rfl
          exact Ty.array.inj ((Alike.array helem helem' h).right_unique hpair.right.nodup
            (.array hinner hinner' hother))
        · rintro rfl
          exact Ty.array.inj ((Alike.array helem helem' h).left_unique hpair.left.nodup
            (.array hinner hinner' hother))
      have hany (id : ArrayId) {a b : Ty} (ha : t.elems[id]? = some a) : (t.elem id == b) = (a == b) := by
        simp [TypeTable.elem, ha]
      have hany' (id : ArrayId) {a b : Ty} (ha : t'.elems[id]? = some a) :
          (t'.elem id == b) = (a == b) := by
        simp [TypeTable.elem, ha]
      simp only [ClassTable.isSubtype, hany id helem, hany other hinner, hany' id' helem',
        hany' other' hinner', Bool.beq_eq_decide_eq]
      rw [decide_eq_decide.2 heq, decide_eq_decide.2 h.eq_any_iff, decide_eq_decide.2 hother.eq_any_iff]

end Alike

/-! ## A type that may be lost -/

namespace Fades

theorem mono (hle : t.elems <+: u.elems) (hle' : t'.elems <+: u'.elems) (h : Fades t t' ty ty') :
    Fades u u' ty ty' := by
  cases h with
  | alike h => exact .alike (h.mono hle hle')
  | lost h => exact .lost (h.mono hle hle)

/-- The first type is one of its table. -/
theorem left (h : Fades t t' ty ty') : Alike t t ty ty := by
  cases h with
  | alike h => exact h.left
  | lost h => exact h

/-- **What is lost fits**, in both directions. -/
theorem fits_or_alike (classes : ClassTable) {sub sub' sup sup' : Ty} (hsub : Fades t t' sub sub')
    (hsup : Fades t t' sup sup') :
    classes.isSubtype t' sub' sup' = true ∨ Alike t t' sub sub' ∧ Alike t t' sup sup' := by
  cases hsub with
  | lost _ =>
    left
    cases hsup with
    | lost _ => rfl
    | alike h => cases h <;> rfl
  | alike hsub =>
    cases hsup with
    | lost _ => left; cases hsub <;> rfl
    | alike hsup => exact .inr ⟨hsub, hsup⟩

end Fades

/-! ## Interning -/

/-- **An array type** is one in both tables if its elements are. -/
theorem Alike.arrayOf (hpair : Paired t t') (h : Alike t t' ty ty') :
    Paired (t.arrayOf ty).2 (t'.arrayOf ty').2 ∧
      Alike (t.arrayOf ty).2 (t'.arrayOf ty').2 (t.arrayOf ty).1 (t'.arrayOf ty').1 := by
  obtain ⟨id, hid, helem⟩ := getElem?_arrayOf t ty
  obtain ⟨id', hid', helem'⟩ := getElem?_arrayOf t' ty'
  refine ⟨⟨hpair.left.arrayOf h.lt_length, hpair.right.arrayOf h.symm.lt_length, ?_⟩, ?_⟩
  · rw [classNames_arrayOf, classNames_arrayOf, hpair.classNames]
  · rw [hid, hid']
    exact .array helem helem' (h.mono (prefix_arrayOf t ty) (prefix_arrayOf t' ty'))

/-- **A written type** resolves to one type in both tables, or in neither. -/
theorem alike_resolve (classes : ClassTable) (written : TypeExpr) (hpair : Paired t t') :
    Paired (resolve classes written t).2 (resolve classes written t').2 ∧
      ((resolve classes written t).1 = .invalid ∧ (resolve classes written t').1 = .invalid ∨
        Alike (resolve classes written t).2 (resolve classes written t').2
          (resolve classes written t).1 (resolve classes written t').1) := by
  induction written with
  | int => exact ⟨hpair, .inr .int⟩
  | bool => exact ⟨hpair, .inr .bool⟩
  | class_ name =>
    refine ⟨hpair, ?_⟩
    cases hid : classes.lookup name with
    | none => simp [resolve, hid]
    | some id =>
      simp only [resolve, hid, Option.elim_some]
      exact .inr (.class_ id)
  | array elem ih =>
    obtain ⟨hpair', hinvalid, hinvalid'⟩ | ⟨hpair', halike⟩ := and_or_left.1 ih
    · rw [resolve, resolve]
      split
      next u heq =>
        split
        next u' heq' =>
          rw [heq, heq'] at hpair'
          exact ⟨hpair', .inl ⟨rfl, rfl⟩⟩
        next found u' hne heq' => exact absurd (by rw [heq'] at hinvalid'; exact hinvalid') hne
      next found u hne heq => exact absurd (by rw [heq] at hinvalid; exact hinvalid) hne
    · rw [resolve, resolve]
      split
      next u heq => exact absurd (by rw [heq]) halike.ne_invalid
      next found u hne heq =>
        split
        next u' heq' => exact absurd (by rw [heq']) halike.symm.ne_invalid
        next found' u' hne' heq' =>
          rw [heq, heq'] at hpair' halike
          exact ⟨(halike.arrayOf hpair').1, .inr (halike.arrayOf hpair').2⟩

theorem Alike.gracious (h : ty = .invalid ∧ ty' = .invalid ∨ Alike t t' ty ty') :
    Alike t t' ty.gracious ty'.gracious := by
  rcases h with ⟨rfl, rfl⟩ | h
  · exact .any
  · cases h with
    | int => exact .int
    | bool => exact .bool
    | null => exact .null
    | any => exact .any
    | class_ id => exact .class_ id
    | array helem helem' h => exact .array helem helem' h

end ClassLang.Typing
