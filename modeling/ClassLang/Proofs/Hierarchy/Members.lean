import Mathlib.Algebra.GroupWithZero.Nat
import ClassLang.Proofs.Hierarchy.Description
import ClassLang.Lowering.Classes
/-!
# Hierarchy — the members of an object, in order

`fieldRefs` lists the fields of an object of a class: those of the classes
above it first, and hidden ones too. `slotNames` lists the names that have
a slot in the vtable of a class, in the order in which they were first
declared from above. Both lists of a class start with those of its
superclass, so a class can be used where one above it is expected.
`LayOrder` says that a list of classes has every class behind its
superclass; `classOrder` finds such a list of all classes
(`classOrder_eq`).
-/


namespace ClassLang

open Source (ClassDecl FunctionDecl VarDecl Program)

/-- The names with another one behind them, unless it is there. -/
def addName (names : List String) (name : String) : List String :=
  if name ∈ names then names else names ++ [name]

namespace Source.Program

variable (p : Program)

/-- The fields that a class declares. -/
def ownFields (id : ClassId) : List MemberRef :=
  (List.range ((p.classes[id]?.map (·.fields.length)).getD 0)).map (⟨id, ·⟩)

/-- The names of the methods that a class declares. -/
def ownMethodNames (id : ClassId) : List String :=
  (p.classes[id]?.map (·.methods.map (·.name))).getD []

/-- The fields of an object of a class, in the order of its struct. -/
def fieldRefs (id : ClassId) : List MemberRef := (p.lineage id).reverse.flatMap p.ownFields

/-- The names of the methods of a class, in the order of its vtable. -/
def slotNames (id : ClassId) : List String :=
  (p.lineage id).reverse.foldl (fun names c => (p.ownMethodNames c).foldl addName names) []

variable {p}

/-! ## Fields -/

theorem fieldRefs_eq (hacyclic : p.Acyclic) {id : ClassId} (hid : id < p.classes.length) :
    p.fieldRefs id = (p.superOf id).elim [] p.fieldRefs ++ p.ownFields id := by
  rw [fieldRefs, lineage_eq hacyclic hid]
  cases p.superOf id <;> simp [fieldRefs]

/-- **The fields of a class start with those of the classes above it.** -/
theorem fieldRefs_of_inherits (hacyclic : p.Acyclic) {a b : ClassId} (h : p.Inherits a b) :
    p.fieldRefs b <+: p.fieldRefs a := by
  induction h using Relation.ReflTransGen.head_induction_on with
  | refl => exact List.prefix_rfl
  | @head a c hstep _ ih =>
    have hstep : p.superOf a = some c := hstep
    rw [fieldRefs_eq hacyclic (lt_of_superOf hstep), hstep]
    exact ih.trans (List.prefix_append _ _)

theorem mem_ownFields {id : ClassId} {ref : MemberRef} :
    ref ∈ p.ownFields id ↔ ref.class_ = id ∧ ∃ field, fieldDecl? p ref = some field := by
  obtain ⟨class_, index⟩ := ref
  rw [ownFields, List.mem_map]
  constructor
  · rintro ⟨i, hi, heq⟩
    obtain ⟨rfl, rfl⟩ := MemberRef.mk.inj heq
    refine ⟨rfl, ?_⟩
    cases hc : p.classes[id]? with
    | none => simp [hc] at hi
    | some c =>
      have hi : i < c.fields.length := by simpa [hc] using hi
      exact ⟨c.fields[i], by simp [fieldDecl?, hc, hi]⟩
  · rintro ⟨rfl, field, hfield⟩
    obtain ⟨c, hc, hindex⟩ := Option.bind_eq_some_iff.1 hfield
    obtain ⟨hi, -⟩ := List.getElem?_eq_some_iff.1 hindex
    have hc : p.classes[class_]? = some c := hc
    exact ⟨index, by simpa [hc] using hi, rfl⟩

/-- The fields of an object are the fields that the classes above its class
declare. -/
theorem mem_fieldRefs (hacyclic : p.Acyclic) {id : ClassId} (hid : id < p.classes.length)
    {ref : MemberRef} : ref ∈ p.fieldRefs id ↔
      p.Inherits id ref.class_ ∧ ∃ field, fieldDecl? p ref = some field := by
  rw [fieldRefs, List.mem_flatMap]
  constructor
  · rintro ⟨c, hc, hmem⟩
    obtain ⟨rfl, hdecl⟩ := mem_ownFields.1 hmem
    exact ⟨(mem_lineage_iff hacyclic hid).1 (List.mem_reverse.1 hc), hdecl⟩
  · rintro ⟨hup, hdecl⟩
    exact ⟨ref.class_, List.mem_reverse.2 ((mem_lineage_iff hacyclic hid).2 hup),
      mem_ownFields.2 ⟨rfl, hdecl⟩⟩

theorem nodup_fieldRefs (hacyclic : p.Acyclic) (id : ClassId) : (p.fieldRefs id).Nodup := by
  refine List.nodup_flatMap.2 ⟨fun c _ => ?_, ?_⟩
  · exact (List.nodup_range).map fun i j h => (MemberRef.mk.inj h).2
  · refine (List.nodup_reverse.2 (nodup_lineageWithin hacyclic _ id)).imp fun {c d} hne => ?_
    rintro ref hc hd
    exact hne ((mem_ownFields.1 hc).1.symm.trans (mem_ownFields.1 hd).1)

/-- An object has no more fields than the classes declare. -/
theorem length_fieldRefs_le (hacyclic : p.Acyclic) (id : ClassId) :
    (p.fieldRefs id).length ≤ (p.classes.map (·.fields.length)).sum := by
  have hsub : p.fieldRefs id ⊆ (List.range p.classes.length).flatMap p.ownFields := by
    intro ref href
    obtain ⟨c, -, hmem⟩ := List.mem_flatMap.1 href
    refine List.mem_flatMap.2 ⟨c, List.mem_range.2 (Nat.lt_of_not_le fun hle => ?_), hmem⟩
    simp [ownFields, List.getElem?_eq_none hle] at hmem
  have hle := (List.subperm_of_subset (nodup_fieldRefs hacyclic id) hsub).length_le
  have hlength : (List.range p.classes.length).map (fun c => (p.ownFields c).length) =
      p.classes.map (·.fields.length) := by
    refine List.ext_getElem (by simp) fun i hi hi' => ?_
    have hlt : i < p.classes.length := by simpa using hi
    simp [ownFields, hlt]
  rwa [List.length_flatMap, hlength] at hle

/-! ## Slots -/

theorem slotNames_eq (hacyclic : p.Acyclic) {id : ClassId} (hid : id < p.classes.length) :
    p.slotNames id =
      (p.ownMethodNames id).foldl addName ((p.superOf id).elim [] p.slotNames) := by
  rw [slotNames, lineage_eq hacyclic hid, List.reverse_cons, List.foldl_append]
  cases p.superOf id <;> rfl

end Source.Program

theorem prefix_addName (names : List String) (name : String) : names <+: addName names name := by
  unfold addName
  split
  · exact List.prefix_rfl
  · exact List.prefix_append _ _

theorem mem_addName {names : List String} {name other : String} :
    other ∈ addName names name ↔ other ∈ names ∨ other = name := by
  unfold addName
  split
  next hmem => exact ⟨.inl, fun h => h.elim id fun heq => heq ▸ hmem⟩
  next => simp

theorem nodup_addName {names : List String} (h : names.Nodup) (name : String) :
    (addName names name).Nodup := by
  unfold addName
  split
  · exact h
  next hmem => exact List.nodup_append'.2 ⟨h, by simp, by simpa using hmem⟩

theorem prefix_foldl_addName (names new : List String) : names <+: new.foldl addName names := by
  induction new generalizing names with
  | nil => exact List.prefix_rfl
  | cons name rest ih => exact (prefix_addName names name).trans (ih _)

theorem mem_foldl_addName {names new : List String} {name : String} :
    name ∈ new.foldl addName names ↔ name ∈ names ∨ name ∈ new := by
  induction new generalizing names with
  | nil => simp
  | cons first rest ih => rw [List.foldl_cons, ih, mem_addName, List.mem_cons, or_assoc]

theorem nodup_foldl_addName {names : List String} (h : names.Nodup) (new : List String) :
    (new.foldl addName names).Nodup := by
  induction new generalizing names with
  | nil => exact h
  | cons name rest ih => exact ih (nodup_addName h name)

namespace Source.Program

variable {p : Program}

/-- **The slots of a class start with those of the classes above it.** -/
theorem slotNames_of_inherits (hacyclic : p.Acyclic) {a b : ClassId} (h : p.Inherits a b) :
    p.slotNames b <+: p.slotNames a := by
  induction h using Relation.ReflTransGen.head_induction_on with
  | refl => exact List.prefix_rfl
  | @head a c hstep _ ih =>
    have hstep : p.superOf a = some c := hstep
    rw [slotNames_eq hacyclic (lt_of_superOf hstep), hstep]
    exact ih.trans (prefix_foldl_addName _ _)

theorem nodup_slotNames (id : ClassId) : (p.slotNames id).Nodup := by
  unfold slotNames
  generalize (p.lineage id).reverse = classes
  suffices h : ∀ names : List String, names.Nodup → (classes.foldl
      (fun names c => (p.ownMethodNames c).foldl addName names) names).Nodup from h [] List.nodup_nil
  induction classes with
  | nil => exact fun _ h => h
  | cons c rest ih => exact fun _ h => ih _ (nodup_foldl_addName h _)

theorem mem_ownMethodNames {id : ClassId} {name : String} :
    name ∈ p.ownMethodNames id ↔ (p.ownMember? (·.methods.map (·.name)) id name).isSome := by
  rw [ownMethodNames, ownMember?]
  cases p.classes[id]? <;> simp [List.isSome_idxOf?]

/-- **A name has a slot exactly if there is a method of the name.** -/
theorem mem_slotNames {id : ClassId} {name : String} :
    name ∈ p.slotNames id ↔ (p.methodRef? id name).isSome := by
  have hfold (classes : List ClassId) (names : List String) :
      name ∈ classes.foldl (fun names c => (p.ownMethodNames c).foldl addName names) names ↔
        name ∈ names ∨ ∃ c ∈ classes, name ∈ p.ownMethodNames c := by
    induction classes generalizing names with
    | nil => simp
    | cons c rest ih => rw [List.foldl_cons, ih, mem_foldl_addName]; simp [or_assoc]
  rw [slotNames, hfold, methodRef?, memberRef?, List.findSome?_isSome_iff]
  simp [mem_ownMethodNames]

/-- A vtable has no more slots than the classes declare methods. -/
theorem length_slotNames_le (id : ClassId) :
    (p.slotNames id).length ≤ (p.classes.map (·.methods.length)).sum := by
  have hsub : p.slotNames id ⊆ p.classes.flatMap (·.methods.map (·.name)) := by
    intro name hname
    obtain ⟨ref, href⟩ := Option.isSome_iff_exists.1 (mem_slotNames.1 hname)
    obtain ⟨-, c, hc, hmethod⟩ := memberRef?_eq_some href
    exact List.mem_flatMap.2 ⟨c, List.mem_of_getElem? hc, List.mem_of_getElem? hmethod⟩
  have hle := (List.subperm_of_subset (nodup_slotNames id) hsub).length_le
  simpa [List.length_flatMap] using hle

/-- A method has the same slot in the class that declares it. -/
theorem slot_of_methodRef? (hacyclic : p.Acyclic) {id : ClassId} {name : String} {ref : MemberRef}
    (href : p.methodRef? id name = some ref) {slot : Nat}
    (hslot : (p.slotNames id)[slot]? = some name) :
    (p.slotNames ref.class_)[slot]? = some name := by
  have hself : p.methodRef? ref.class_ name = some ref := memberRef?_self hacyclic href
  obtain ⟨i, hi⟩ := List.mem_iff_getElem?.1 (mem_slotNames.2 (Option.isSome_iff_exists.2 ⟨_, hself⟩))
  have hi' := getElem?_of_initial (slotNames_of_inherits hacyclic (memberRef?_eq_some href).1) hi
  have heq := (idxOf?_eq_of_nodup (nodup_slotNames id) hi').symm.trans
    (idxOf?_eq_of_nodup (nodup_slotNames id) hslot)
  rwa [← Option.some.inj heq]

end Source.Program

/-! ## The order of the classes -/

/-- Each class of a list is new, and its superclass stands before it or is
one of those `done`. -/
inductive LayOrder (p : Program) : List ClassId → List ClassId → Prop
  | nil {done} : LayOrder p done []
  | cons {done id rest} : id < p.classes.length → id ∉ done →
      (∀ s, p.superOf id = some s → s ∈ done) → LayOrder p (id :: done) rest →
      LayOrder p done (id :: rest)

namespace LayOrder

variable {p : Program} {done order : List ClassId}

theorem append {id : ClassId} (h : LayOrder p done order) (hid : id < p.classes.length)
    (hnew : id ∉ done ∧ id ∉ order)
    (hsuper : ∀ s, p.superOf id = some s → s ∈ done ∨ s ∈ order) :
    LayOrder p done (order ++ [id]) := by
  induction h with
  | nil => exact .cons hid hnew.1 (fun s hs => by simpa using hsuper s hs) .nil
  | cons hfirst hdone hfirstSuper _ ih =>
    refine .cons hfirst hdone hfirstSuper (ih ?_ fun s hs => ?_)
    · have h := hnew
      simp only [List.mem_cons, not_or] at h ⊢
      exact ⟨⟨h.2.1, h.1⟩, h.2.2⟩
    · have h := hsuper s hs
      simp only [List.mem_cons] at h ⊢
      tauto

end LayOrder

namespace Lowering

variable {p : Program} {t : ClassTable}

/-- A class comes into the order behind its superclasses. -/
theorem visit_eq (ht : t.Describes p) (hacyclic : p.Acyclic) {order : List ClassId}
    (horder : LayOrder p [] order) (chain : List ClassId) (id : ClassId)
    (hid : id < p.classes.length) (hchain : ∀ c ∈ chain, Relation.TransGen p.Extends c id) :
    ∃ order', visit p t chain id order = .ok order' ∧ LayOrder p [] order' ∧ order ⊆ order' ∧
      id ∈ order' ∧ ∀ c ∈ order', c ∈ order ∨ p.Inherits id c := by
  induction chain, id using visit.induct p t order with
  | case1 chain id hnone => exact absurd hid (Nat.not_lt.2 (List.getElem?_eq_none_iff.1 hnone))
  | case2 chain id decl hdecl hmem =>
    refine ⟨order, ?_, horder, List.Subset.refl _, hmem, fun _ hc => .inl hc⟩
    rw [visit]
    split
    next hnone => rw [hdecl] at hnone; cases hnone
    next => rw [if_pos hmem]; rfl
  | case3 chain id decl hdecl hmem hcycle => exact absurd (hchain id hcycle) (hacyclic id)
  | case4 chain id decl hdecl hmem hnot s hs ih =>
    have hsuper : p.superOf id = some s := ht.superclass id ▸ hs
    obtain ⟨above, habove, horder', hsub, hmem', hup⟩ :=
      ih (Source.Program.superOf_lt hsuper) fun c hc => by
        rcases List.mem_cons.1 hc with rfl | hc
        · exact .single hsuper
        · exact (hchain c hc).tail hsuper
    -- The superclasses come first, and no class is a superclass of itself.
    have hnew : id ∉ above := fun h => by
      rcases hup id h with h | h
      · exact hmem h
      · exact hacyclic id (Relation.TransGen.head' hsuper h)
    refine ⟨above ++ [id], ?_, horder'.append hid ⟨by simp, hnew⟩ fun s' hs' => ?_, ?_, by simp, ?_⟩
    · rw [visit]
      split
      next hnone => rw [hdecl] at hnone; cases hnone
      next =>
        rw [if_neg hmem, dif_neg hnot]
        simp only [hs, habove]
        rfl
    · rw [Option.some.inj (hs'.symm.trans hsuper)]
      exact .inr hmem'
    · exact List.Subset.trans hsub (List.subset_append_left _ _)
    · intro c hc
      rcases List.mem_append.1 hc with hc | hc
      · exact (hup c hc).imp_right fun h => Relation.ReflTransGen.head hsuper h
      · rw [List.mem_singleton.1 hc]
        exact .inr Relation.ReflTransGen.refl
  | case5 chain id decl hdecl hmem hnot hnone =>
    have hsuper : p.superOf id = none := ht.superclass id ▸ hnone
    refine ⟨order ++ [id], ?_, horder.append hid ⟨by simp, hmem⟩ fun s hs => ?_,
      List.subset_append_left _ _, by simp, ?_⟩
    · rw [visit]
      split
      next hnone => rw [hdecl] at hnone; cases hnone
      next =>
        rw [if_neg hmem, dif_neg hnot]
        simp only [hnone]
        rfl
    · rw [hsuper] at hs
      cases hs
    · intro c hc
      rcases List.mem_append.1 hc with hc | hc
      · exact .inl hc
      · rw [List.mem_singleton.1 hc]
        exact .inr Relation.ReflTransGen.refl

/-- **There is an order of all classes**, every class behind its
superclass. -/
theorem classOrder_eq (ht : t.Describes p) (hacyclic : p.Acyclic) :
    ∃ order, classOrder p t = .ok order ∧ LayOrder p [] order ∧
      ∀ id < p.classes.length, id ∈ order := by
  have hfold (ids order : List ClassId) (horder : LayOrder p [] order)
      (hids : ∀ id ∈ ids, id < p.classes.length) :
      ∃ order', ids.foldlM (fun order id => visit p t [] id order) order = .ok order' ∧
        LayOrder p [] order' ∧ order ⊆ order' ∧ ids ⊆ order' := by
    induction ids generalizing order with
    | nil => exact ⟨order, rfl, horder, List.Subset.refl _, List.nil_subset _⟩
    | cons id rest ih =>
      rw [List.forall_mem_cons] at hids
      obtain ⟨order₁, hvisit, horder₁, hsub₁, hmem₁, -⟩ :=
        visit_eq ht hacyclic horder [] id hids.1 (by simp)
      obtain ⟨order₂, hrest, horder₂, hsub₂, hall⟩ := ih order₁ horder₁ hids.2
      refine ⟨order₂, ?_, horder₂, List.Subset.trans hsub₁ hsub₂, List.cons_subset.2 ⟨hsub₂ hmem₁, hall⟩⟩
      rw [List.foldlM_cons, hvisit]
      exact hrest
  obtain ⟨order, hrun, horder, -, hall⟩ :=
    hfold (List.range p.classes.length) [] .nil fun id hid => List.mem_range.1 hid
  exact ⟨order, hrun, horder, fun id hid => hall (List.mem_range.2 hid)⟩

end Lowering

end ClassLang
