import ClassLang.Proofs.Hierarchy.Resolution
/-!
# Hierarchy — what a class table says of a program

`ClassTable.Describes` is the interface between resolution and all that
reads its result: the table finds classes by name, walks to superclasses
and shows the nearest declaration of every name. A settled table that
knows every class describes its program (`Settled.describes`), and then
the walk of `inheritsFrom` follows the declarations
(`inheritsFrom_iff`). Overriding methods keep their signature all the way
down (`SoundHierarchy.signature`).
-/


namespace ClassLang

open Source (ClassDecl FunctionDecl Program)

/-- The declarations of classes are in order: no name is declared twice,
and the hierarchy is sound. -/
structure Source.Program.SoundClasses (p : Program) : Prop where
  names : (p.classes.map (·.name)).Nodup
  fields : ∀ c ∈ p.classes, (c.fields.map (·.name)).Nodup
  methods : ∀ c ∈ p.classes, (c.methods.map (·.name)).Nodup
  hierarchy : p.SoundHierarchy

namespace ClassTable

/-- What a table says of classes is what the program declares. -/
structure Describes (t : ClassTable) (p : Program) : Prop where
  size : t.size = p.classes.length
  lookup : ∀ name, t.lookup name = p.classId? name
  superclass : ∀ id, t.superclass id = p.superOf id
  field : ∀ id name, (t.info id).bind (·.field? name) = p.fieldRef? id name
  method : ∀ id name, (t.info id).bind (·.method? name) = p.methodRef? id name
  keys : ∀ id info, t.info id = some info → (info.fields.map (·.1)).Nodup

variable {p : Program} {t : ClassTable}

theorem nodup_keys_declareMembers (id : ClassId) (names : List String)
    {inherited : Table String MemberRef} (h : (inherited.map (·.1)).Nodup) :
    ((declareMembers id names inherited).map (·.1)).Nodup := by
  unfold declareMembers
  induction names.zipIdx generalizing inherited with
  | nil => exact h
  | cons m rest ih => exact ih (Table.nodup_keys_insert h)

theorem Settled.nodup_keys (ht : t.Settled p) {id : ClassId} {info : ClassInfo}
    (hinfo : t.info id = some info) : (info.fields.map (·.1)).Nodup := by
  have hacc := (ht.entry id info hinfo).founded
  induction hacc generalizing info with
  | intro id _ ih =>
    have hentry := ht.entry id info hinfo
    obtain ⟨c, -, -, rfl, -⟩ := hentry.decl
    refine nodup_keys_declareMembers _ _ ?_
    cases hs : p.superOf id with
    | none => simp [inheritedInfo, hs]
    | some s =>
      obtain ⟨i, hi⟩ := Option.isSome_iff_exists.1 (hentry.above s hs)
      simpa [inheritedInfo, hs, hi] using ih s hs hi

theorem memberRef?_eq_none_of_le {names : ClassDecl → List String} {id : ClassId}
    (hid : p.classes.length ≤ id) (name : String) : p.memberRef? names id name = none := by
  have hnone : p.classes[id]? = none := List.getElem?_eq_none hid
  refine List.findSome?_eq_none_iff.2 fun c hc => ?_
  have hup := Program.inherits_of_mem_lineageWithin hc
  rcases Relation.ReflTransGen.cases_head hup with rfl | ⟨s, hs, -⟩
  · simp [Program.ownMember?, hnone]
  · exact absurd (Program.lt_of_superOf hs) (Nat.not_lt.2 hid)

/-- **A settled table that knows every class describes its program.** -/
theorem Settled.describes (ht : t.Settled p) (hp : p.SoundClasses)
    (hknown : ∀ id < p.classes.length, (t.info id).isSome) : t.Describes p := by
  have hnone : ∀ id, p.classes.length ≤ id → t.info id = none := fun id hid => by
    rw [ClassTable.info, List.getElem?_eq_none (by rw [ht.size]; exact hid), Option.join_none]
  have hmembers {id : ClassId} {info : ClassInfo} (h : t.info id = some info) :=
    ht.members hp.hierarchy.acyclic hp.fields hp.methods h
  refine ⟨ht.size, ht.lookup, fun id => ?_, fun id name => ?_, fun id name => ?_,
    fun id info => ht.nodup_keys⟩
  all_goals rcases Nat.lt_or_ge id p.classes.length with hid | hid
  · obtain ⟨info, hinfo⟩ := Option.isSome_iff_exists.1 (hknown id hid)
    rw [ClassTable.superclass, hinfo, Option.bind_some, (hmembers hinfo).1]
  · rw [ClassTable.superclass, hnone id hid, Option.bind_none]
    cases hs : p.superOf id with
    | none => rfl
    | some s => exact absurd (Program.lt_of_superOf hs) (Nat.not_lt.2 hid)
  · obtain ⟨info, hinfo⟩ := Option.isSome_iff_exists.1 (hknown id hid)
    rw [hinfo, Option.bind_some, (hmembers hinfo).2.1]
  · rw [hnone id hid, Option.bind_none, Program.fieldRef?, memberRef?_eq_none_of_le hid]
  · obtain ⟨info, hinfo⟩ := Option.isSome_iff_exists.1 (hknown id hid)
    rw [hinfo, Option.bind_some, (hmembers hinfo).2.2]
  · rw [hnone id hid, Option.bind_none, Program.methodRef?, memberRef?_eq_none_of_le hid]

/-! ## Subclasses -/

theorem Describes.reaches_iff (ht : t.Describes p) (b : ClassId) (n : Nat) (a : ClassId) :
    t.reaches b n a = true ↔ b ∈ p.lineageWithin (n + 1) a := by
  induction n generalizing a with
  | zero =>
    simp only [reaches, Program.lineageWithin, List.mem_cons, beq_iff_eq]
    cases p.superOf a <;> simp [eq_comm]
  | succ n ih =>
    rw [reaches, Program.lineageWithin, List.mem_cons, ht.superclass, Bool.or_eq_true, beq_iff_eq]
    cases p.superOf a with
    | none => simp [eq_comm]
    | some s => simp [ih, eq_comm]

/-- **The walk over superclasses follows the declarations.** -/
theorem Describes.inheritsFrom_iff (ht : t.Describes p) (hacyclic : p.Acyclic) (a b : ClassId) :
    t.inheritsFrom a b = true ↔ p.Inherits a b := by
  rw [inheritsFrom, ht.reaches_iff, ht.size]
  refine ⟨Program.inherits_of_mem_lineageWithin, fun h => ?_⟩
  rcases Relation.ReflTransGen.cases_head h with rfl | ⟨s, hs, hsb⟩
  · simp [Program.lineageWithin]
  · have hs' : p.superOf a = some s := hs
    rw [Program.lineageWithin, hs']
    exact List.mem_cons_of_mem _ ((Program.mem_lineage_iff hacyclic (Program.superOf_lt hs)).2 hsb)

end ClassTable

/-! ## Overriding methods -/

section Overriding

variable {p : Program}

/-- The methods have the same return and parameter types. -/
theorem sameSignature_iff {f g : FunctionDecl} : sameSignature f g ↔
    f.returnType = g.returnType ∧ f.params.map (·.ty) = g.params.map (·.ty) := by
  simp [sameSignature]

/-- **A method has the signature of the methods that it overrides**, however
far above they are. -/
theorem Source.Program.SoundHierarchy.signature (hp : p.SoundHierarchy) {sub id : ClassId}
    (h : p.Inherits sub id) {method : String} {ref : MemberRef} {g : FunctionDecl}
    (href : p.methodRef? id method = some ref) (hg : methodDecl? p ref = some g) {ref' : MemberRef}
    {f : FunctionDecl} (href' : p.methodRef? sub method = some ref')
    (hf : methodDecl? p ref' = some f) :
    g.returnType = f.returnType ∧ g.params.map (·.ty) = f.params.map (·.ty) := by
  induction h using Relation.ReflTransGen.head_induction_on generalizing ref' f with
  | refl =>
    obtain rfl := Option.some.inj (href.symm.trans href')
    obtain rfl := Option.some.inj (hg.symm.trans hf)
    exact ⟨rfl, rfl⟩
  | @head a b hstep hup ih =>
    have hstep : p.superOf a = some b := hstep
    obtain ⟨above, habove⟩ := Option.isSome_iff_exists.1
      (Program.memberRef?_isSome_of_inherits hp.acyclic hup (Option.isSome_iff_exists.2 ⟨ref, href⟩))
    obtain ⟨inherited, hdecl, -⟩ := Program.exists_methodDecl habove
    obtain ⟨hret, hparams⟩ := ih habove hdecl
    have hnearest := Program.memberRef?_eq hp.acyclic (·.methods.map (·.name))
      (Program.lt_of_superOf hstep) method
    cases hown : p.ownMember? (·.methods.map (·.name)) a method with
    | none =>
      rw [hown, hstep, Option.none_or, Option.bind_some] at hnearest
      obtain rfl := Option.some.inj (href'.symm.trans (hnearest.trans habove))
      obtain rfl := Option.some.inj (hf.symm.trans hdecl)
      exact ⟨hret, hparams⟩
    | some own =>
      rw [hown, Option.some_or] at hnearest
      obtain rfl := Option.some.inj (href'.symm.trans hnearest)
      obtain ⟨rfl, c, hc, hname⟩ := Program.ownMember?_eq_some hown
      rw [methodDecl?, hc, Option.bind_some] at hf
      rw [List.getElem?_map, hf, Option.map_some, Option.some_inj] at hname
      subst hname
      obtain ⟨hret', hparams'⟩ := sameSignature_iff.1
        (hp.overrides _ c b hc hstep f (List.mem_of_getElem? hf) above habove inherited hdecl)
      exact ⟨hret.trans hret', hparams.trans hparams'⟩

end Overriding

end ClassLang
