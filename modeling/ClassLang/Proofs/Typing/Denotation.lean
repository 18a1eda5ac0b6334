import ClassLang.Typing.Findings
import ClassLang.Proofs.Growth
import ClassLang.Proofs.Typing.Rules
/-!
# Typing — interned types and written types

Checking works on interned types, the rules on written ones. `Denotes`
relates the two over a table; it is a bijection on what the table holds
(`Denotes.left_unique`, `Denotes.right_unique`) and stays when the table
grows. `resolve` finds the interned type of a written one exactly if all
classes in it are there, and `isSubtype` decides `Fits`
(`isSubtype_iff`).
-/


namespace ClassLang

open Source (TypeExpr Program)

namespace Typing

/-- The interned type stands for the written one. -/
inductive Denotes (p : Program) (t : TypeTable) : Ty → TypeExpr → Prop
  | int : Denotes p t .int .int
  | bool : Denotes p t .bool .bool
  | class_ {name id} : p.classId? name = some id → Denotes p t (.class_ id) (.class_ name)
  | array {id elem ty} : t.elems[id]? = some elem → Denotes p t elem ty →
      Denotes p t (.array id) (.array ty)

/-- The interned type stands for the type of an expression. -/
inductive DenotesExpr (p : Program) (t : TypeTable) : Ty → ExprTy → Prop
  | null : DenotesExpr p t .null .null
  | written {ty written} : Denotes p t ty written → DenotesExpr p t ty (.written written)

/-- Every array type is interned once, and behind its element type. -/
structure Layered (t : TypeTable) : Prop where
  nodup : t.elems.Nodup
  older : ∀ (id inner : ArrayId), t.elems[id]? = some (.array inner) → inner < id

/-- The table holds types that stand for written ones, each of them once,
and an array type behind its element type. -/
structure TableOk (p : Program) (t : TypeTable) : Prop where
  nodup : t.elems.Nodup
  denotes : ∀ (id : ArrayId) (elem : Ty), t.elems[id]? = some elem → ∃ ty, Denotes p t elem ty
  older : ∀ (id inner : ArrayId), t.elems[id]? = some (.array inner) → inner < id

variable {p : Program} {t t' : TypeTable} {ty : Ty} {written : TypeExpr}

theorem Denotes.mono (hle : t.elems <+: t'.elems) (h : Denotes p t ty written) :
    Denotes p t' ty written := by
  induction h with
  | int => exact .int
  | bool => exact .bool
  | class_ hid => exact .class_ hid
  | array helem _ ih => exact .array (getElem?_of_initial hle helem) ih

theorem DenotesExpr.mono {found : ExprTy} (hle : t.elems <+: t'.elems)
    (h : DenotesExpr p t ty found) : DenotesExpr p t' ty found := by
  cases h with
  | null => exact .null
  | written h => exact .written (h.mono hle)

/-- An interned type stands for one written type. -/
theorem Denotes.right_unique {other : TypeExpr} (h : Denotes p t ty written)
    (h' : Denotes p t ty other) : written = other := by
  induction h generalizing other with
  | int => cases h'; rfl
  | bool => cases h'; rfl
  | class_ hid =>
    cases h' with
    | class_ hid' =>
      obtain ⟨c, hc, rfl⟩ := Program.name_of_classId? hid
      obtain ⟨c', hc', rfl⟩ := Program.name_of_classId? hid'
      obtain rfl : c = c' := by simpa [hc] using hc'
      rfl
  | array helem _ ih =>
    cases h' with
    | array helem' h' =>
      obtain rfl := Option.some.inj (helem.symm.trans helem')
      rw [ih h']

/-- A written type has one interned type. -/
theorem Denotes.left_unique {other : Ty} (ht : t.elems.Nodup) (h : Denotes p t ty written)
    (h' : Denotes p t other written) : ty = other := by
  induction h generalizing other with
  | int => cases h'; rfl
  | bool => cases h'; rfl
  | class_ hid =>
    cases h' with
    | class_ hid' => rw [Option.some.inj (hid.symm.trans hid')]
  | array helem _ ih =>
    cases h' with
    | array helem' h' =>
      obtain rfl := ih h'
      obtain ⟨hi, hi'⟩ := List.getElem?_eq_some_iff.1 helem
      obtain ⟨hj, hj'⟩ := List.getElem?_eq_some_iff.1 helem'
      rw [(List.Nodup.getElem_inj_iff ht).1 (hi'.trans hj'.symm)]

theorem DenotesExpr.right_unique {found other : ExprTy} (h : DenotesExpr p t ty found)
    (h' : DenotesExpr p t ty other) : found = other := by
  cases h with
  | null => cases h' with
    | null => rfl
    | written h' => cases h'
  | written h => cases h' with
    | null => cases h
    | written h' => rw [h.right_unique h']

theorem Denotes.resolves (h : Denotes p t ty written) : p.Resolves written := by
  induction h with
  | int => exact trivial
  | bool => exact trivial
  | class_ hid => exact Option.isSome_iff_exists.2 ⟨_, hid⟩
  | array _ _ ih => exact ih

theorem Denotes.ne_invalid (h : Denotes p t ty written) : ty ≠ .invalid := by
  cases h <;> simp

theorem Denotes.ne_any (h : Denotes p t ty written) : ty ≠ .any := by
  cases h <;> simp

theorem Denotes.gracious (h : Denotes p t ty written) : ty.gracious = ty := by
  cases h <;> rfl

theorem DenotesExpr.ne_any {found : ExprTy} (h : DenotesExpr p t ty found) : ty ≠ .any := by
  cases h with
  | null => simp
  | written h => exact h.ne_any

/-! ## Interning -/

theorem tableOk_ofClassNames (p : Program) (names : List String) :
    TableOk p (.ofClassNames names) :=
  ⟨List.nodup_nil, by simp [TypeTable.ofClassNames], by simp [TypeTable.ofClassNames]⟩

theorem prefix_arrayOf (t : TypeTable) (elem : Ty) :
    t.elems <+: (t.arrayOf elem).2.elems := by
  unfold TypeTable.arrayOf
  split
  · exact List.prefix_rfl
  · exact List.prefix_append _ _

theorem classNames_arrayOf (t : TypeTable) (elem : Ty) :
    (t.arrayOf elem).2.classNames = t.classNames := by
  unfold TypeTable.arrayOf
  split <;> rfl

/-- The array type of an element type is one with these elements. -/
theorem getElem?_arrayOf (t : TypeTable) (elem : Ty) :
    ∃ id, (t.arrayOf elem).1 = .array id ∧ (t.arrayOf elem).2.elems[id]? = some elem := by
  unfold TypeTable.arrayOf TypeTable.lookupArray
  cases hidx : t.elems.idxOf? elem with
  | none => exact ⟨t.elems.length, rfl, by simp⟩
  | some id =>
    obtain ⟨hlt, heq, -⟩ := List.idxOf?_eq_some_iff.1 hidx
    exact ⟨id, rfl, List.getElem?_eq_some_iff.2 ⟨hlt, by simpa using heq⟩⟩

theorem mem_elems_arrayOf {other : Ty} (h : other ∈ (t.arrayOf ty).2.elems) :
    other ∈ t.elems ∨ other = ty := by
  unfold TypeTable.arrayOf at h
  split at h
  · exact .inl h
  · simpa using h

theorem layered_ofClassNames (names : List String) : Layered (.ofClassNames names) :=
  ⟨List.nodup_nil, by simp [TypeTable.ofClassNames]⟩

theorem TableOk.layered (ht : TableOk p t) : Layered t := ⟨ht.nodup, ht.older⟩

/-- What is interned goes behind what is there. -/
theorem Layered.arrayOf (ht : Layered t) (h : ∀ id, ty = .array id → id < t.elems.length) :
    Layered (t.arrayOf ty).2 := by
  unfold TypeTable.arrayOf TypeTable.lookupArray
  cases hidx : t.elems.idxOf? ty with
  | some id => exact ht
  | none =>
    have hmem : ty ∉ t.elems := List.idxOf?_eq_none_iff.1 hidx
    refine ⟨List.nodup_append.2 ⟨ht.nodup, by simp, fun a ha b hb heq => hmem ?_⟩,
      fun id inner helem => ?_⟩
    · rw [List.mem_singleton] at hb
      rwa [← hb, ← heq]
    · rcases getElem?_append_singleton helem with hold | ⟨rfl, rfl⟩
      · exact ht.older id inner hold
      · exact h inner rfl

theorem TableOk.arrayOf (ht : TableOk p t) (h : Denotes p t ty written) :
    TableOk p (t.arrayOf ty).2 ∧ Denotes p (t.arrayOf ty).2 (t.arrayOf ty).1 (.array written) := by
  obtain ⟨id, hty, helem⟩ := getElem?_arrayOf t ty
  have hlayered : Layered (t.arrayOf ty).2 := ht.layered.arrayOf fun inner heq => by
    subst heq
    cases h with
    | array hinner _ => exact (List.getElem?_eq_some_iff.1 hinner).1
  refine ⟨⟨hlayered.nodup, fun id elem helem => ?_, hlayered.older⟩, ?_⟩
  · rcases mem_elems_arrayOf (List.mem_of_getElem? helem) with hold | rfl
    · obtain ⟨i, hi⟩ := List.mem_iff_getElem?.1 hold
      obtain ⟨w, hw⟩ := ht.denotes i elem hi
      exact ⟨w, hw.mono (prefix_arrayOf t ty)⟩
    · exact ⟨written, h.mono (prefix_arrayOf t elem)⟩
  · rw [hty]
    exact .array helem (h.mono (prefix_arrayOf t ty))

/-! ## Resolving types -/

variable {classes : ClassTable}

theorem prefix_resolve (classes : ClassTable) (written : TypeExpr) (t : TypeTable) :
    t.elems <+: (resolve classes written t).2.elems := by
  induction written generalizing t with
  | int => exact List.prefix_rfl
  | bool => exact List.prefix_rfl
  | class_ name => exact List.prefix_rfl
  | array elem ih =>
    rw [resolve]
    split
    next t' heq => exact by simpa [heq] using ih t
    next found t' _ heq =>
      have h := ih t
      rw [heq] at h
      exact h.trans (prefix_arrayOf t' found)

theorem classNames_resolve (classes : ClassTable) (written : TypeExpr) (t : TypeTable) :
    (resolve classes written t).2.classNames = t.classNames := by
  induction written generalizing t with
  | int => rfl
  | bool => rfl
  | class_ name => rfl
  | array elem ih =>
    have h := ih t
    rw [resolve]
    split
    next t' heq => rwa [heq] at h
    next found t' _ heq =>
      rw [heq] at h
      exact (classNames_arrayOf t' found).trans h

/-- **A written type is found** if every class in it is there. -/
theorem denotes_resolve (hclasses : ∀ name, classes.lookup name = p.classId? name)
    (ht : TableOk p t) (h : p.Resolves written) :
    TableOk p (resolve classes written t).2 ∧
      Denotes p (resolve classes written t).2 (resolve classes written t).1 written := by
  induction written generalizing t with
  | int => exact ⟨ht, .int⟩
  | bool => exact ⟨ht, .bool⟩
  | class_ name =>
    obtain ⟨id, hid⟩ := Option.isSome_iff_exists.1 h
    simp only [resolve, hclasses, hid, Option.elim_some]
    exact ⟨ht, .class_ hid⟩
  | array elem ih =>
    obtain ⟨ht', hd⟩ := ih ht h
    rw [resolve]
    split
    next t' heq =>
      rw [heq] at hd
      exact absurd rfl hd.ne_invalid
    next found t' _ heq =>
      rw [heq] at hd ht'
      exact ht'.arrayOf hd

/-- And it is not found otherwise. -/
theorem resolve_of_not_resolves (hclasses : ∀ name, classes.lookup name = p.classId? name)
    (t : TypeTable) (h : ¬ p.Resolves written) : resolve classes written t = (.invalid, t) := by
  induction written with
  | int => exact absurd trivial h
  | bool => exact absurd trivial h
  | class_ name =>
    have hnone : p.classId? name = none := by simpa [Program.Resolves] using h
    simp [resolve, hclasses, hnone]
  | array elem ih => simp [resolve, ih h]

/-! ## Subtypes -/

theorem fits_null_iff {sup : ExprTy} :
    Fits p .null sup ↔ sup = .null ∨ (∃ name, sup = .written (.class_ name)) ∨
      ∃ elem, sup = .written (.array elem) := by
  constructor
  · intro h
    cases h with
    | refl => exact .inl rfl
    | nullClass name => exact .inr (.inl ⟨name, rfl⟩)
    | nullArray elem => exact .inr (.inr ⟨elem, rfl⟩)
  · rintro (rfl | ⟨name, rfl⟩ | ⟨elem, rfl⟩)
    · exact .refl _
    · exact .nullClass name
    · exact .nullArray elem

/-- **Subtyping of interned types decides `Fits`.** -/
theorem isSubtype_iff (hclasses : classes.Describes p) (hacyclic : p.Acyclic) (ht : TableOk p t)
    {sub sup : Ty} {a b : ExprTy} (hsub : DenotesExpr p t sub a) (hsup : DenotesExpr p t sup b) :
    classes.isSubtype t sub sup = true ↔ Fits p a b := by
  cases hsub with
  | null =>
    rw [fits_null_iff]
    cases hsup with
    | null => simp [ClassTable.isSubtype]
    | written h => cases h <;> simp [ClassTable.isSubtype]
  | written ha =>
    cases hsup with
    | null =>
      -- Null fits references, but nothing that is written fits null.
      have hnot (w : TypeExpr) : ¬ Fits p (.written w) .null := fun h => by cases h
      cases ha <;> simp [ClassTable.isSubtype, hnot]
    | written hb =>
      have hrefl (w : TypeExpr) : Fits p (.written w) (.written w) := .refl _
      have hne {v w : TypeExpr} (h : v ≠ w) (hv : ∀ name, v ≠ .class_ name) :
          ¬ Fits p (.written v) (.written w) := fun hfits => by
        cases hfits with
        | refl => exact h rfl
        | class_ _ _ _ => exact hv _ rfl
      cases ha with
      | int => cases hb <;> simp [ClassTable.isSubtype, hrefl, hne]
      | bool => cases hb <;> simp [ClassTable.isSubtype, hrefl, hne]
      | @class_ sub a hid =>
        cases hb with
        | int => simp [ClassTable.isSubtype]; exact fun h => by cases h
        | bool => simp [ClassTable.isSubtype]; exact fun h => by cases h
        | array _ _ => simp [ClassTable.isSubtype]; exact fun h => by cases h
        | class_ hid' =>
          rw [ClassTable.isSubtype, hclasses.inheritsFrom_iff hacyclic]
          refine ⟨.class_ hid hid', fun h => ?_⟩
          cases h with
          | refl =>
            rw [Option.some.inj (hid.symm.trans hid')]
            exact Relation.ReflTransGen.refl
          | class_ h1 h2 hup =>
            rw [Option.some.inj (hid.symm.trans h1), Option.some.inj (hid'.symm.trans h2)]
            exact hup
      -- Arrays are invariant: they fit if they are the same entry of the table.
      | @array i ei wi hei hdi =>
        cases hb with
        | int => simp [ClassTable.isSubtype, hne]
        | bool => simp [ClassTable.isSubtype, hne]
        | class_ _ => simp [ClassTable.isSubtype, hne]
        | @array j ej wj hej hdj =>
          have hi : t.elem i = ei := by simp [TypeTable.elem, hei]
          have hj : t.elem j = ej := by simp [TypeTable.elem, hej]
          have hai : (ei == Ty.any) = false := by simpa using hdi.ne_any
          have haj : (ej == Ty.any) = false := by simpa using hdj.ne_any
          simp only [ClassTable.isSubtype, hi, hj, hai, haj, Bool.or_false, beq_iff_eq]
          constructor
          · rintro rfl
            obtain rfl := Option.some.inj (hei.symm.trans hej)
            rw [hdi.right_unique hdj]
            exact .refl _
          · intro h
            cases h with
            | refl =>
              have := (Denotes.array hei hdi).left_unique ht.nodup (Denotes.array hej hdj)
              exact Ty.array.inj this

end Typing

end ClassLang
