import ClassLang.Proofs.Typing.Interning
/-!
# Typing — array types

An array type is made by asking the table for the array over an element type, and
elements that are arrays themselves were asked for before. `Interns` is a run of such
calls. Behind every run the table holds what the calls have made and nothing else, each
element type once and behind the one that it is made of (`Interns.holds`); the rest of
the interning contract is read off that: equal types for equal elements, elements that
stay, and types that unroll to the end (`interning_canonical`).
-/


namespace ClassLang

open Typing (Layered layered_ofClassNames prefix_arrayOf getElem?_arrayOf)

/-! ## Calls -/

/-- A run of calls, the latest in front: each call has asked for the array over its
first part and was given its second part. Arrays over arrays are asked for with an
array type that an earlier call has given. -/
inductive Interns {τ : Type} (arrayOf : τ → Ty → Ty × τ) (start : τ) : List (Ty × Ty) → τ → Prop
  | start : Interns arrayOf start [] start
  | call {calls t elem ty t'} : Interns arrayOf start calls t →
      (∀ id, elem = .array id → elem ∈ calls.map (·.2)) → arrayOf t elem = (ty, t') →
      Interns arrayOf start ((elem, ty) :: calls) t'

/-- A table that knows the array type of every element type, next to the elements of
every array type. -/
structure IndexedTable where
  table : TypeTable
  /-- The array types by their elements. -/
  ids : Table Ty ArrayId

namespace IndexedTable

/-- A table without array types. -/
def ofClassNames (names : List String) : IndexedTable := ⟨.ofClassNames names, []⟩

/-- The array type of an element type; interns it if the index does not have it. -/
def arrayOf (t : IndexedTable) (elem : Ty) : Ty × IndexedTable :=
  match t.ids.get? elem with
  | some id => (.array id, t)
  | none => (.array t.table.elems.length,
      ⟨{ t.table with elems := t.table.elems ++ [elem] }, t.ids.insert elem t.table.elems.length⟩)

/-- The index and the elements are each other's inverse. -/
def Inverse (t : IndexedTable) : Prop :=
  ∀ elem id, t.ids.get? elem = some id ↔ t.table.elems[id]? = some elem

end IndexedTable

namespace TypeTable

/-- A type unrolls to a type that is no array, by so many steps from an array to its
elements. -/
inductive Unrolls (t : TypeTable) : Ty → Nat → Ty → Prop
  | base {ty} : (∀ id, ty ≠ .array id) → Unrolls t ty 0 ty
  | array {id depth base} : Unrolls t (t.elem id) depth base →
      Unrolls t (.array id) (depth + 1) base

/-- Bracket pairs, so many of them. -/
def bracketText : Nat → String
  | 0 => ""
  | n + 1 => bracketText n ++ "[]"

/-- **A canonical table** for the calls that were made. -/
structure Canonical (t : TypeTable) (calls : List (Ty × Ty)) : Prop where
  /-- Two calls give the same type exactly if they ask for the same elements. -/
  same_iff : ∀ c ∈ calls, ∀ d ∈ calls, c.2 = d.2 ↔ c.1 = d.1
  /-- What a call gives is an array type with the elements that it asks for; its number is
  less than that of the calls. -/
  elem : ∀ c ∈ calls, ∃ id, c.2 = .array id ∧ id < calls.length ∧ t.elem id = c.1
  /-- What is found is what a call has given. -/
  lookup_iff : ∀ elem ty, t.lookupArray elem = some ty ↔ (elem, ty) ∈ calls
  /-- An array over arrays comes behind these. -/
  older : ∀ c ∈ calls, ∀ inner id, c.1 = .array inner → c.2 = .array id → inner < id
  /-- A type unrolls to the end, and is written as what it comes to with a bracket pair for
  each step, however much deeper arrays might nest. -/
  text : ∀ ty, (∀ id, ty = .array id → ty ∈ calls.map (·.2)) → ∃ depth base,
    t.Unrolls ty depth base ∧ t.text ty = t.textWithin 0 base ++ bracketText depth ∧
      ∀ bound, depth ≤ bound → t.textWithin bound ty = t.text ty

/-- The table holds the array types that the calls have given, and no others. -/
structure Holds (t : TypeTable) (calls : List (Ty × Ty)) : Prop where
  layered : Layered t
  mem_iff : ∀ elem ty, (elem, ty) ∈ calls ↔ ∃ id, ty = .array id ∧ t.elems[id]? = some elem
  length_le : t.elems.length ≤ calls.length

variable {names : List String} {calls : List (Ty × Ty)} {t : TypeTable} {elem ty : Ty}

/-! ## Looking up -/

/-- Where nothing is interned twice, what is found is the one array over the elements. -/
theorem lookupArray_eq_some_iff (ht : t.elems.Nodup) :
    t.lookupArray elem = some ty ↔ ∃ id, ty = .array id ∧ t.elems[id]? = some elem := by
  constructor
  · intro h
    obtain ⟨id, hid, rfl⟩ := Option.map_eq_some_iff.1 h
    obtain ⟨hlt, heq, -⟩ := List.idxOf?_eq_some_iff.1 hid
    exact ⟨id, rfl, List.getElem?_eq_some_iff.2 ⟨hlt, by simpa using heq⟩⟩
  · rintro ⟨id, rfl, helem⟩
    exact Option.map_eq_some_iff.2 ⟨id, idxOf?_eq_of_nodup ht helem, rfl⟩

/-- What asking for an array does: it is found, or it is new and goes to the end. -/
theorem arrayOf_cases (t : TypeTable) (elem : Ty) :
    (∃ ty, t.lookupArray elem = some ty ∧ t.arrayOf elem = (ty, t)) ∨
      (t.lookupArray elem = none ∧
        t.arrayOf elem = (.array t.elems.length, { t with elems := t.elems ++ [elem] })) := by
  unfold arrayOf
  cases h : t.lookupArray elem with
  | some ty => exact .inl ⟨ty, rfl, rfl⟩
  | none => exact .inr ⟨rfl, rfl⟩

/-- **One call** keeps that the table holds what the calls have given. -/
theorem Holds.call (h : t.Holds calls) (harg : ∀ id, elem = .array id → elem ∈ calls.map (·.2)) :
    (t.arrayOf elem).2.Holds ((elem, (t.arrayOf elem).1) :: calls) := by
  have hlayered : Layered (t.arrayOf elem).2 := by
    refine h.layered.arrayOf fun id heq => ?_
    obtain ⟨c, hc, hty⟩ := List.mem_map.1 (harg id heq)
    obtain ⟨id', hid', helem⟩ := (h.mem_iff c.1 c.2).1 hc
    obtain rfl : id = id' := Ty.array.inj (heq.symm.trans (hty.symm.trans hid'))
    exact (List.getElem?_eq_some_iff.1 helem).1
  refine ⟨hlayered, fun other ty => ?_, ?_⟩
  · rw [List.mem_cons, h.mem_iff, Prod.mk.injEq]
    rcases arrayOf_cases t elem with ⟨ty', hfound, heq⟩ | ⟨-, heq⟩
    · rw [heq]
      refine ⟨fun h' => h'.elim ?_ id, .inr⟩
      rintro ⟨rfl, rfl⟩
      exact (lookupArray_eq_some_iff h.layered.nodup).1 hfound
    · rw [heq]
      constructor
      · rintro (⟨rfl, rfl⟩ | ⟨id, rfl, helem⟩)
        · exact ⟨t.elems.length, rfl, by simp⟩
        · exact ⟨id, rfl, getElem?_of_initial (List.prefix_append _ _) helem⟩
      · rintro ⟨id, rfl, helem⟩
        rcases getElem?_append_singleton helem with hold | ⟨rfl, rfl⟩
        · exact .inr ⟨id, rfl, hold⟩
        · exact .inl ⟨rfl, rfl⟩
  · have hle := h.length_le
    rcases arrayOf_cases t elem with ⟨ty', -, heq⟩ | ⟨-, heq⟩
    · rw [heq]
      exact Nat.le_succ_of_le hle
    · rw [heq, List.length_append, List.length_cons, List.length_cons, List.length_nil]
      omega

/-- **Behind every run** the table holds what the calls have given. -/
theorem holds_of_interns (h : Interns arrayOf (.ofClassNames names) calls t) : t.Holds calls := by
  induction h with
  | start =>
    exact ⟨layered_ofClassNames names, by simp [ofClassNames], Nat.le_refl _⟩
  | @call calls t elem ty t' _ harg heq ih =>
    have hcall := ih.call harg
    rwa [heq] at hcall

/-! ## Unrolling -/

theorem elem_of_getElem? {id : ArrayId} (h : t.elems[id]? = some elem) : t.elem id = elem := by
  rw [TypeTable.elem, h, Option.getD_some]

/-- **An interned array type unrolls to the end**, because its elements are older. -/
theorem exists_unrolls (ht : Layered t) (id : ArrayId) :
    ∃ depth base, t.Unrolls (.array id) depth base ∧ depth ≤ id + 1 := by
  induction id using Nat.strong_induction_on with
  | _ id ih =>
    by_cases hinner : ∃ inner, t.elem id = .array inner
    · obtain ⟨inner, heq⟩ := hinner
      have hold : inner < id := by
        cases helem : t.elems[id]? with
        | none =>
          rw [TypeTable.elem, helem] at heq
          cases heq
        | some elem => exact ht.older id inner (heq ▸ elem_of_getElem? helem ▸ helem)
      obtain ⟨depth, base, hunrolls, hdepth⟩ := ih inner hold
      exact ⟨depth + 1, base, .array (heq ▸ hunrolls),
        Nat.succ_le_succ (Nat.le_trans hdepth hold)⟩
    · exact ⟨1, t.elem id, .array (.base fun inner heq => hinner ⟨inner, heq⟩),
        Nat.le_add_left 1 id⟩

theorem textWithin_of_unrolls {depth : Nat} {base : Ty} (h : t.Unrolls ty depth base) {bound : Nat}
    (hbound : depth ≤ bound) : t.textWithin bound ty = t.textWithin 0 base ++ bracketText depth := by
  induction h generalizing bound with
  | @base ty hbase =>
    rw [bracketText, String.append_empty]
    cases ty with
    | array id => exact absurd rfl (hbase id)
    | _ => cases bound <;> rfl
  | array _ ih =>
    obtain ⟨bound, rfl⟩ := Nat.exists_eq_add_of_le' (Nat.le_trans (Nat.le_add_left 1 _) hbound)
    rw [textWithin, ih (Nat.le_of_succ_le_succ hbound), bracketText, String.append_assoc]

/-! ## What the calls give -/

/-- **A table that holds what the calls have given is canonical.** -/
theorem Holds.canonical (h : t.Holds calls) : t.Canonical calls where
  same_iff := fun c hc d hd => by
    obtain ⟨id, hid, helem⟩ := (h.mem_iff c.1 c.2).1 hc
    obtain ⟨id', hid', helem'⟩ := (h.mem_iff d.1 d.2).1 hd
    rw [hid, hid', Ty.array.injEq]
    constructor
    · rintro rfl
      exact Option.some.inj (helem.symm.trans helem')
    · intro heq
      have hidx := idxOf?_eq_of_nodup h.layered.nodup helem
      rw [heq, idxOf?_eq_of_nodup h.layered.nodup helem'] at hidx
      exact (Option.some.inj hidx).symm
  elem := fun c hc => by
    obtain ⟨id, hid, helem⟩ := (h.mem_iff c.1 c.2).1 hc
    have hlt := (List.getElem?_eq_some_iff.1 helem).1
    exact ⟨id, hid, Nat.lt_of_lt_of_le hlt h.length_le, elem_of_getElem? helem⟩
  lookup_iff := fun elem ty => by rw [lookupArray_eq_some_iff h.layered.nodup, h.mem_iff]
  older := fun c hc inner id helem hty => by
    obtain ⟨id', hid', helem'⟩ := (h.mem_iff c.1 c.2).1 hc
    obtain rfl : id = id' := Ty.array.inj (hty.symm.trans hid')
    exact h.layered.older id inner (helem ▸ helem')
  text := fun ty hknown => by
    obtain ⟨depth, base, hunrolls, hdepth⟩ :
        ∃ depth base, t.Unrolls ty depth base ∧ depth ≤ t.elems.length + 1 := by
      by_cases harray : ∃ id, ty = .array id
      · obtain ⟨id, rfl⟩ := harray
        obtain ⟨c, hc, hty⟩ := List.mem_map.1 (hknown id rfl)
        obtain ⟨id', hid', helem⟩ := (h.mem_iff c.1 c.2).1 hc
        obtain rfl : id = id' := Ty.array.inj (hty.symm.trans hid')
        obtain ⟨depth, base, hunrolls, hdepth⟩ := exists_unrolls h.layered id
        have hlt := (List.getElem?_eq_some_iff.1 helem).1
        exact ⟨depth, base, hunrolls, Nat.le_succ_of_le (Nat.le_trans hdepth hlt)⟩
      · exact ⟨0, ty, .base fun id heq => harray ⟨id, heq⟩, Nat.zero_le _⟩
    have htext : t.text ty = t.textWithin 0 base ++ bracketText depth :=
      textWithin_of_unrolls hunrolls hdepth
    refine ⟨depth, base, hunrolls, htext, fun bound hbound => ?_⟩
    rw [htext, textWithin_of_unrolls hunrolls hbound]

end TypeTable

/-! ## The index -/

namespace IndexedTable

variable {names : List String} {calls : List (Ty × Ty)} {elem : Ty}

/-- **One call** does with the index what it does without, and keeps the index the
inverse of the elements. -/
theorem Inverse.call {t : IndexedTable} (h : t.Inverse) (ht : t.table.elems.Nodup) (elem : Ty) :
    (t.arrayOf elem).2.Inverse ∧
      ((t.arrayOf elem).1, (t.arrayOf elem).2.table) = t.table.arrayOf elem := by
  rcases t.table.arrayOf_cases elem with ⟨ty, hfound, heq⟩ | ⟨hnone, heq⟩
  · obtain ⟨id, rfl, helem⟩ := (TypeTable.lookupArray_eq_some_iff ht).1 hfound
    have hcall : t.arrayOf elem = (.array id, t) := by rw [arrayOf, (h elem id).2 helem]
    rw [hcall, heq]
    exact ⟨h, rfl⟩
  · have hnew : elem ∉ t.table.elems := by
      simpa [TypeTable.lookupArray, List.idxOf?_eq_none_iff] using hnone
    have hget : t.ids.get? elem = none := by
      cases hget : t.ids.get? elem with
      | none => rfl
      | some id => exact absurd (List.mem_of_getElem? ((h elem id).1 hget)) hnew
    rw [arrayOf, hget, heq]
    refine ⟨fun other id => ?_, rfl⟩
    show (t.ids.insert elem t.table.elems.length).get? other = some id ↔
      (t.table.elems ++ [elem])[id]? = some other
    by_cases hother : elem = other
    · subst hother
      rw [Table.get?_insert_self]
      constructor
      · intro hid
        obtain rfl := Option.some.inj hid
        simp
      · intro helem
        rcases getElem?_append_singleton helem with hold | ⟨rfl, -⟩
        · exact absurd (List.mem_of_getElem? hold) hnew
        · rfl
    · rw [Table.get?_insert_of_ne _ _ hother, h other id]
      refine ⟨getElem?_of_initial (List.prefix_append _ _), fun helem => ?_⟩
      rcases getElem?_append_singleton helem with hold | ⟨-, heq'⟩
      · exact hold
      · exact absurd heq' hother

/-- **Every run** gives the same types with the index as without. -/
theorem exists_interns {t : TypeTable}
    (h : Interns TypeTable.arrayOf (.ofClassNames names) calls t) :
    ∃ ids, Interns arrayOf (.ofClassNames names) calls ⟨t, ids⟩ ∧ Inverse ⟨t, ids⟩ := by
  induction h with
  | start => exact ⟨[], .start, fun elem id => by simp [TypeTable.ofClassNames]⟩
  | @call calls t elem ty t' hcalls harg heq ih =>
    obtain ⟨ids, hruns, hinverse⟩ := ih
    obtain ⟨hinverse', hsame⟩ :=
      hinverse.call (TypeTable.holds_of_interns hcalls).layered.nodup elem
    obtain ⟨hty, ht'⟩ := Prod.mk.inj (hsame.trans heq)
    refine ⟨(arrayOf ⟨t, ids⟩ elem).2.ids, hruns.call harg ?_, ?_⟩
    · rw [← hty, ← ht']
    · rw [← ht']
      exact hinverse'

end IndexedTable

/-- **Interning is canonical and well-founded.** Behind every run of calls on a table
without array types, equal types were given for equal elements and for no others, what
is found is what was given, elements are older than their arrays, and types are written
as what they unroll to. Later calls leave the elements of every array as they are, and a
table that looks element types up in an index gives the same types, with an index that
is the inverse of the elements. -/
theorem interning_canonical {names : List String} {calls : List (Ty × Ty)} {t : TypeTable}
    (h : Interns TypeTable.arrayOf (.ofClassNames names) calls t) :
    t.Canonical calls ∧
      (∀ later t', Interns TypeTable.arrayOf (.ofClassNames names) (later ++ calls) t' →
        ∀ c ∈ calls, ∀ id, c.2 = .array id → t'.elem id = c.1) ∧
      ∃ ids, Interns IndexedTable.arrayOf (.ofClassNames names) calls ⟨t, ids⟩ ∧
        IndexedTable.Inverse ⟨t, ids⟩ := by
  refine ⟨(TypeTable.holds_of_interns h).canonical, fun later t' h' c hc id hid => ?_,
    IndexedTable.exists_interns h⟩
  have hcanonical := (TypeTable.holds_of_interns h').canonical
  obtain ⟨id', hid', -, helem⟩ := hcanonical.elem c (List.mem_append_right later hc)
  obtain rfl : id = id' := Ty.array.inj (hid.symm.trans hid')
  exact helem

/-- The array over a class, the array over that array, and the first one again. -/
def gridCalls : List (Ty × Ty) :=
  [(.class_ 0, .array 0), (.array 0, .array 1), (.class_ 0, .array 0)]

theorem interning_canonical_grid :
    Interns TypeTable.arrayOf (.ofClassNames ["Point"]) gridCalls ⟨[.class_ 0, .array 0], ["Point"]⟩ ∧
      TypeTable.Canonical ⟨[.class_ 0, .array 0], ["Point"]⟩ gridCalls ∧
      TypeTable.text ⟨[.class_ 0, .array 0], ["Point"]⟩ (.array 1) = "Point[][]" := by
  have hcalls : Interns TypeTable.arrayOf (.ofClassNames ["Point"]) gridCalls
      ⟨[.class_ 0, .array 0], ["Point"]⟩ :=
    .call (.call (.call .start (fun id h => by cases h) rfl)
      (fun _ _ => List.mem_singleton.2 rfl) rfl) (fun id h => by cases h) rfl
  exact ⟨hcalls, (interning_canonical hcalls).1, by decide⟩

end ClassLang
