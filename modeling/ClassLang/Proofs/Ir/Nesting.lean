import Mathlib.Data.List.Perm.Subperm
import Mathlib.Logic.Relation
import ClassLang.Proofs.Ir.Placement
/-!
# Intermediate form — structs in structs

A struct nests the structs that its fields hold by value (`Program.Nests`), be
it as elements of an array. Where no struct is nested in itself, structs nest
at most as deep as there are structs (`Acyclic.shallow`), so the extent of a
struct is that of its fields, placed one behind the other (`extent_struct`). Alignments
are powers of two (`natural_alignOf`); hence that of a struct is a multiple of
those of its fields, and its layout is sound (`Acyclic.wellPlaced`).
-/


namespace ClassLang.Ir

/-! ## Nesting -/

/-- The structs that a value of the type holds. -/
def Ty.parts : Ty → List StructId
  | struct id => [id]
  | array elem _ => elem.parts
  | _ => []

namespace Program

/-- The struct has a field that holds the other struct by value. -/
def Nests (p : Program) (id inner : StructId) : Prop :=
  ∃ s, p.structs[id]? = some s ∧ ∃ f ∈ s.fields, inner ∈ f.ty.parts

/-- **No struct is nested in itself.** -/
def Acyclic (p : Program) : Prop := ∀ id, ¬ Relation.TransGen p.Nests id id

/-- The struct nests others at most so deep. -/
inductive Shallow (p : Program) : Nat → StructId → Prop
  | missing {depth id} : p.structs[id]? = none → Shallow p depth id
  | within {depth id} : (∀ inner, p.Nests id inner → Shallow p depth inner) →
      Shallow p (depth + 1) id

variable {p : Program} {id inner : StructId} {s : StructDef} {depth : Nat}

/-- Structs that are nested in each other, each once, are fewer than all if
another one is nested in all of them. -/
theorem Acyclic.length_lt (h : p.Acyclic) {chain : List StructId} (hnodup : chain.Nodup)
    (hchain : ∀ outer ∈ chain, outer < p.structs.length ∧ Relation.TransGen p.Nests outer id)
    (hid : id < p.structs.length) :
    (id :: chain).Nodup ∧ chain.length < p.structs.length := by
  have hlonger : (id :: chain).Nodup :=
    List.nodup_cons.2 ⟨fun hmem => h id (hchain id hmem).2, hnodup⟩
  have hsub : id :: chain ⊆ List.range p.structs.length := fun outer houter => by
    rcases List.mem_cons.1 houter with rfl | houter
    · exact List.mem_range.2 hid
    · exact List.mem_range.2 (hchain outer houter).1
  refine ⟨hlonger, ?_⟩
  exact Nat.lt_of_succ_le (by simpa using (List.subperm_of_subset hlonger hsub).length_le)

/-- Behind a chain of nested structs, so many levels are left as there are
structs that are not in the chain. -/
theorem Acyclic.shallow_of_chain (h : p.Acyclic) {chain : List StructId} (hnodup : chain.Nodup)
    (hchain : ∀ outer ∈ chain, outer < p.structs.length ∧ Relation.TransGen p.Nests outer id)
    (hdepth : p.structs.length ≤ depth + chain.length) : p.Shallow depth id := by
  induction depth generalizing id chain with
  | zero =>
    refine .missing (List.getElem?_eq_none (Nat.le_of_not_lt fun hid => ?_))
    have := (h.length_lt hnodup hchain hid).2
    omega
  | succ depth ih =>
    rcases Nat.lt_or_ge id p.structs.length with hid | hge
    · refine .within fun inner hinner => ih (h.length_lt hnodup hchain hid).1 (fun outer houter => ?_) ?_
      · rcases List.mem_cons.1 houter with rfl | houter
        · exact ⟨hid, .single hinner⟩
        · exact ⟨(hchain outer houter).1, (hchain outer houter).2.tail hinner⟩
      · rw [List.length_cons]
        omega
    · exact .missing (List.getElem?_eq_none hge)

/-- **Structs nest at most as deep as there are structs.** -/
theorem Acyclic.shallow (h : p.Acyclic) (id : StructId) : p.Shallow p.structs.length id :=
  h.shallow_of_chain List.nodup_nil (by simp) (Nat.le_add_right _ _)

end Program

/-! ## Extents -/

/-- The extent of a type depends on those of its parts. -/
theorem Ty.extent_congr {f g : StructId → Extent} :
    (ty : Ty) → (∀ id ∈ ty.parts, f id = g id) → ty.extent f = ty.extent g
  | .struct id, h => h id (List.mem_singleton_self id)
  | .array elem length, h => by rw [extent, extent, extent_congr elem h]
  | .int, _ | .bool, _ | .byte, _ | .null, _ | .ptr _, _ | .proc _ _, _ => rfl

namespace Program

variable {p : Program} {id : StructId} {s : StructDef} {depth : Nat}

theorem structExtentWithin_of_none (h : p.structs[id]? = none) (depth : Nat) :
    p.structExtentWithin depth id = ⟨0, 1⟩ := by
  cases depth with
  | zero => rfl
  | succ depth => rw [structExtentWithin, h]

/-- **The extent is told** as soon as the levels suffice. -/
theorem Shallow.extent_add (h : p.Shallow depth id) (more : Nat) :
    p.structExtentWithin (depth + more) id = p.structExtentWithin depth id := by
  induction h with
  | missing hnone => rw [structExtentWithin_of_none hnone, structExtentWithin_of_none hnone]
  | @within depth id hnests ih =>
    rw [Nat.add_right_comm, structExtentWithin, structExtentWithin]
    cases hs : p.structs[id]? with
    | none => rfl
    | some s =>
      refine congrArg structExtent (List.map_congr_left fun f hf => ?_)
      exact f.ty.extent_congr fun inner hinner => ih inner ⟨s, hs, f, hf, hinner⟩

/-- **The extent of a struct is that of its fields**, placed one behind the
other. -/
theorem Acyclic.extent_struct (h : p.Acyclic) (hs : p.structs[id]? = some s) :
    p.extent (.struct id) = structExtent (s.fields.map (p.extent ·.ty)) := by
  have hmore := (h.shallow id).extent_add 1
  rw [structExtentWithin, hs] at hmore
  exact hmore.symm

end Program

/-! ## Alignments -/

/-- An alignment that occurs. -/
def Natural (align : Nat) : Prop := align = 1 ∨ align = 4 ∨ align = 8

namespace Natural

variable {m n : Nat}

theorem pos (h : Natural n) : 0 < n := by
  rcases h with rfl | rfl | rfl <;> decide

/-- **Of two alignments the greater is a multiple of the other.** -/
theorem dvd (hm : Natural m) (hn : Natural n) (hle : m ≤ n) : m ∣ n := by
  rcases hm with rfl | rfl | rfl <;> rcases hn with rfl | rfl | rfl <;> revert hle <;> decide

end Natural

/-- The alignment of a struct is one of those of its fields. -/
theorem natural_structExtent {fields : List Extent} (h : ∀ e ∈ fields, Natural e.align) :
    Natural (structExtent fields).align := by
  show Natural ((fields.map (·.align)).max?.getD 1)
  cases hmax : (fields.map (·.align)).max? with
  | none => exact .inl rfl
  | some align =>
    obtain ⟨e, he, rfl⟩ := List.mem_map.1 (List.max?_mem hmax)
    exact h e he

/-- **The alignment of a struct is a multiple of those of its fields.** -/
theorem dvd_structExtent {fields : List Extent} (h : ∀ e ∈ fields, Natural e.align) {e : Extent}
    (he : e ∈ fields) : e.align ∣ (structExtent fields).align :=
  (h e he).dvd (natural_structExtent h) (List.le_max?_getD_of_mem (List.mem_map_of_mem he))

theorem Ty.natural_extent {f : StructId → Extent} (h : ∀ id, Natural (f id).align) :
    (ty : Ty) → Natural (ty.extent f).align
  | .struct id => h id
  | .array elem _ => elem.natural_extent h
  | .int => .inr (.inl rfl)
  | .bool | .byte => .inl rfl
  | .null | .ptr _ | .proc _ _ => .inr (.inr rfl)

namespace Program

variable {p : Program} {id : StructId} {s : StructDef}

theorem natural_structExtentWithin (p : Program) (depth : Nat) (id : StructId) :
    Natural (p.structExtentWithin depth id).align := by
  induction depth generalizing id with
  | zero => exact .inl rfl
  | succ depth ih =>
    rw [structExtentWithin]
    split
    · exact .inl rfl
    · refine natural_structExtent fun e he => ?_
      obtain ⟨f, -, rfl⟩ := List.mem_map.1 he
      exact f.ty.natural_extent ih

theorem natural_alignOf (p : Program) (ty : Ty) : Natural (p.alignOf ty) :=
  ty.natural_extent (p.natural_structExtentWithin _)

/-! ## Layouts -/

/-- **The layout of a struct is sound**: its fields are placed in one pass from
left to right, each where its alignment wants it and behind the one before it,
and the struct has room for all of them and can follow itself. -/
structure WellPlaced (p : Program) (id : StructId) (s : StructDef) : Prop where
  placed : ∀ i < s.fields.length, (place 0 (s.fields.map (p.extent ·.ty))).1[i]? =
    some (p.fieldOffset id i)
  size : p.sizeOf (.struct id) =
    alignUp (place 0 (s.fields.map (p.extent ·.ty))).2 (p.alignOf (.struct id))
  aligned : ∀ i f, s.fields[i]? = some f → p.alignOf f.ty ∣ p.fieldOffset id i
  apart : ∀ i f, s.fields[i]? = some f → i + 1 < s.fields.length →
    p.fieldOffset id i + p.sizeOf f.ty ≤ p.fieldOffset id (i + 1)
  inside : ∀ i f, s.fields[i]? = some f →
    p.fieldOffset id i + p.sizeOf f.ty ≤ p.sizeOf (.struct id)
  rounded : p.alignOf (.struct id) ∣ p.sizeOf (.struct id)
  strict : ∀ f ∈ s.fields, p.alignOf f.ty ∣ p.alignOf (.struct id)

/-- **Where no struct is nested in itself, layouts are sound.** -/
theorem Acyclic.wellPlaced (h : p.Acyclic) (hs : p.structs[id]? = some s) : p.WellPlaced id s := by
  have hextent := h.extent_struct hs
  have hfield {i : Nat} {f : Field} (hf : s.fields[i]? = some f) :
      (s.fields.map (p.extent ·.ty))[i]? = some (p.extent f.ty) := by
    rw [List.getElem?_map, hf]
    rfl
  have hnatural : ∀ e ∈ s.fields.map (p.extent ·.ty), Natural e.align := fun e he => by
    obtain ⟨f, -, rfl⟩ := List.mem_map.1 he
    exact p.natural_alignOf f.ty
  have hsize : p.sizeOf (.struct id) =
      alignUp (place 0 (s.fields.map (p.extent ·.ty))).2 (p.alignOf (.struct id)) := by
    rw [sizeOf, alignOf, hextent]
    rfl
  refine ⟨fun i hi => ?_, hsize, fun i f hf => ?_, fun i f hf _ => ?_, fun i f hf => ?_, ?_,
    fun f hf => ?_⟩
  · have hlt : i < (place 0 (s.fields.map (p.extent ·.ty))).1.length := by
      rwa [length_place, List.length_map]
    rw [fieldOffset_eq hs, offsetAt, List.getElem?_eq_getElem hlt]
    rfl
  · rw [fieldOffset_eq hs]
    exact dvd_offsetAt (hfield hf) (p.natural_alignOf f.ty).pos
  · rw [fieldOffset_eq hs, fieldOffset_eq hs]
    exact end_le_offsetAt_succ (hfield hf)
  · rw [fieldOffset_eq hs, hsize]
    exact Nat.le_trans (end_le_stop (hfield hf)) (le_alignUp _ _)
  · rw [hsize]
    exact dvd_alignUp _ (p.natural_alignOf _).pos
  · rw [alignOf, alignOf, hextent]
    exact dvd_structExtent hnatural (List.mem_map_of_mem hf)

end Program

end ClassLang.Ir
