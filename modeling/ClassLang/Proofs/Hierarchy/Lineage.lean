import ClassLang.Proofs.Growth
import ClassLang.Types.Hierarchy
import Mathlib.Logic.Relation
import Mathlib.Data.List.Perm.Subperm
import Mathlib.Data.List.Nodup
/-!
# Hierarchy — lineages, and the members seen through them

What the declarations of a program alone say of its classes. `superOf`
is the superclass that a class names, `lineage` a class and all classes
above it, nearest first, and `memberRef?` the nearest declaration of a
name along the lineage. Where no class inherits from itself, a lineage
is the class and the lineage of its superclass (`lineage_eq`), and it
holds the classes that `Inherits` reaches (`mem_lineage_iff`).
-/


namespace ClassLang

open Source (ClassDecl FunctionDecl VarDecl Program)

namespace Source

namespace Program

variable (p : Program)

/-- The class of a name: the first one that has it. -/
def classId? (name : String) : Option ClassId := (p.classes.map (·.name)).idxOf? name

/-- The superclass of a class, if it names one and there is one of that
name. -/
def superOf (id : ClassId) : Option ClassId :=
  (p.classes[id]?.bind (·.extends?)).bind p.classId?

/-- `b` is the superclass of `a`. -/
def Extends (a b : ClassId) : Prop := p.superOf a = some b

/-- `b` is `a` or a class above it. -/
def Inherits : ClassId → ClassId → Prop := Relation.ReflTransGen p.Extends

/-- No class is above itself. -/
def Acyclic : Prop := ∀ id, ¬ Relation.TransGen p.Extends id id

/-- A class and the classes above it, `n` classes at most, nearest
first. -/
def lineageWithin : Nat → ClassId → List ClassId
  | 0, _ => []
  | n + 1, id => id :: (p.superOf id).elim [] (lineageWithin n)

/-- A class and all classes above it, nearest first. -/
def lineage (id : ClassId) : List ClassId := p.lineageWithin p.classes.length id

/-- The index of a name among the members that a class declares itself. -/
def ownMember? (names : ClassDecl → List String) (id : ClassId) (name : String) :
    Option MemberRef :=
  (p.classes[id]?.bind fun c => (names c).idxOf? name).map (⟨id, ·⟩)

/-- The nearest declaration of a name along the lineage of a class. -/
def memberRef? (names : ClassDecl → List String) (id : ClassId) (name : String) :
    Option MemberRef :=
  (p.lineage id).findSome? fun c => p.ownMember? names c name

/-- The nearest field of a name. -/
def fieldRef? (id : ClassId) (name : String) : Option MemberRef :=
  p.memberRef? (·.fields.map (·.name)) id name

/-- The nearest method of a name. -/
def methodRef? (id : ClassId) (name : String) : Option MemberRef :=
  p.memberRef? (·.methods.map (·.name)) id name

variable {p}

/-! ## Superclasses -/

theorem classId?_lt {name : String} {id : ClassId} (h : p.classId? name = some id) :
    id < p.classes.length := by
  obtain ⟨hlt, -, -⟩ := List.idxOf?_eq_some_iff.1 h
  simpa using hlt

/-- A class that is found has the name that was looked for. -/
theorem name_of_classId? {name : String} {id : ClassId} (h : p.classId? name = some id) :
    ∃ c, p.classes[id]? = some c ∧ c.name = name := by
  obtain ⟨hlt, hname, -⟩ := List.idxOf?_eq_some_iff.1 h
  have hid : id < p.classes.length := by simpa using hlt
  exact ⟨p.classes[id], List.getElem?_eq_getElem hid, by simpa using hname⟩

/-- Where names do not repeat, a class is found by its name. -/
theorem classId?_name (hnodup : (p.classes.map (·.name)).Nodup) {id : ClassId} {c : ClassDecl}
    (hc : p.classes[id]? = some c) : p.classId? c.name = some id := by
  exact idxOf?_eq_of_nodup hnodup (by rw [List.getElem?_map, hc, Option.map_some])

theorem superOf_lt {a b : ClassId} (h : p.superOf a = some b) : b < p.classes.length := by
  obtain ⟨name, -, hname⟩ := Option.bind_eq_some_iff.1 h
  exact classId?_lt hname

theorem lt_of_superOf {a b : ClassId} (h : p.superOf a = some b) : a < p.classes.length := by
  obtain ⟨name, hname, -⟩ := Option.bind_eq_some_iff.1 h
  obtain ⟨c, hc, -⟩ := Option.bind_eq_some_iff.1 hname
  exact (List.getElem?_eq_some_iff.1 hc).1

theorem Inherits.lt {a b : ClassId} (h : p.Inherits a b) (ha : a < p.classes.length) :
    b < p.classes.length := by
  induction h with
  | refl => exact ha
  | tail _ hstep _ => exact superOf_lt hstep

theorem Inherits.lt_below {a b : ClassId} (h : p.Inherits a b) (hb : b < p.classes.length) :
    a < p.classes.length := by
  rcases Relation.ReflTransGen.cases_head h with rfl | ⟨_, hstep, -⟩
  · exact hb
  · exact lt_of_superOf hstep

/-! ## Lineages -/

theorem take_lineageWithin (n k : Nat) (id : ClassId) :
    (p.lineageWithin (n + k) id).take n = p.lineageWithin n id := by
  induction n generalizing id with
  | zero => simp [lineageWithin]
  | succ n ih =>
    rw [Nat.add_right_comm, lineageWithin, lineageWithin, List.take_succ_cons]
    cases p.superOf id with
    | none => simp
    | some s => simp [ih]

theorem inherits_of_mem_lineageWithin {n : Nat} {id c : ClassId}
    (h : c ∈ p.lineageWithin n id) : p.Inherits id c := by
  induction n generalizing id with
  | zero => simp [lineageWithin] at h
  | succ n ih =>
    rw [lineageWithin, List.mem_cons] at h
    rcases h with rfl | h
    · exact Relation.ReflTransGen.refl
    · cases hs : p.superOf id with
      | none => simp [hs] at h
      | some s =>
        rw [hs] at h
        exact Relation.ReflTransGen.head hs (ih h)

theorem nodup_lineageWithin (hacyclic : p.Acyclic) (n : Nat) (id : ClassId) :
    (p.lineageWithin n id).Nodup := by
  induction n generalizing id with
  | zero => simp [lineageWithin]
  | succ n ih =>
    rw [lineageWithin]
    cases hs : p.superOf id with
    | none => simp
    | some s =>
      refine List.nodup_cons.2 ⟨fun hmem => hacyclic id ?_, ih s⟩
      exact Relation.TransGen.head' hs (inherits_of_mem_lineageWithin hmem)

/-- No lineage is longer than there are classes. -/
theorem length_lineageWithin_le (hacyclic : p.Acyclic) {id : ClassId}
    (hid : id < p.classes.length) (n : Nat) :
    (p.lineageWithin n id).length ≤ p.classes.length := by
  have hsub : p.lineageWithin n id ⊆ List.range p.classes.length := fun c hc =>
    List.mem_range.2 ((inherits_of_mem_lineageWithin hc).lt hid)
  simpa using (List.subperm_of_subset (nodup_lineageWithin hacyclic n id) hsub).length_le

/-- **A lineage is a class and the lineage of its superclass.** -/
theorem lineage_eq (hacyclic : p.Acyclic) {id : ClassId} (hid : id < p.classes.length) :
    p.lineage id = id :: (p.superOf id).elim [] p.lineage := by
  have htake := take_lineageWithin (p := p) p.classes.length 1 id
  rw [List.take_of_length_le (length_lineageWithin_le hacyclic hid _)] at htake
  exact htake.symm

/-- **A lineage holds the classes above a class.** -/
theorem mem_lineage_iff (hacyclic : p.Acyclic) {id c : ClassId} (hid : id < p.classes.length) :
    c ∈ p.lineage id ↔ p.Inherits id c := by
  refine ⟨inherits_of_mem_lineageWithin, fun h => ?_⟩
  induction h using Relation.ReflTransGen.head_induction_on with
  | refl => rw [lineage_eq hacyclic hid]; exact List.mem_cons_self
  | head hstep _ ih =>
    rw [lineage_eq hacyclic hid, show p.superOf _ = some _ from hstep]
    exact List.mem_cons_of_mem _ (ih (superOf_lt hstep))

/-! ## Members -/

/-- **The nearest declaration** of a name is the own one, or else the
nearest of the superclass. -/
theorem memberRef?_eq (hacyclic : p.Acyclic) (names : ClassDecl → List String) {id : ClassId}
    (hid : id < p.classes.length) (name : String) :
    p.memberRef? names id name =
      (p.ownMember? names id name).or ((p.superOf id).bind (p.memberRef? names · name)) := by
  rw [memberRef?, lineage_eq hacyclic hid, List.findSome?_cons]
  cases p.ownMember? names id name with
  | some ref => simp
  | none => cases p.superOf id <;> simp [memberRef?]

theorem ownMember?_eq_some {names : ClassDecl → List String} {id : ClassId} {name : String}
    {ref : MemberRef} (h : p.ownMember? names id name = some ref) :
    ref.class_ = id ∧ ∃ c, p.classes[id]? = some c ∧ (names c)[ref.index]? = some name := by
  obtain ⟨index, hindex, rfl⟩ := Option.map_eq_some_iff.1 h
  obtain ⟨c, hc, hindex⟩ := Option.bind_eq_some_iff.1 hindex
  obtain ⟨hlt, hname, -⟩ := List.idxOf?_eq_some_iff.1 hindex
  exact ⟨rfl, c, hc, by simpa [List.getElem?_eq_getElem hlt] using hname⟩

/-- The nearest declaration stands in a class of the lineage. -/
theorem memberRef?_eq_some {names : ClassDecl → List String} {id : ClassId} {name : String}
    {ref : MemberRef} (h : p.memberRef? names id name = some ref) :
    p.Inherits id ref.class_ ∧
      ∃ c, p.classes[ref.class_]? = some c ∧ (names c)[ref.index]? = some name := by
  obtain ⟨c, hc, hown⟩ := List.exists_of_findSome?_eq_some h
  obtain ⟨rfl, hdecl⟩ := ownMember?_eq_some hown
  exact ⟨inherits_of_mem_lineageWithin hc, hdecl⟩

/-- The class of the nearest declaration sees the same declaration. -/
theorem memberRef?_self (hacyclic : p.Acyclic) {names : ClassDecl → List String} {id : ClassId}
    {name : String} {ref : MemberRef} (h : p.memberRef? names id name = some ref) :
    p.memberRef? names ref.class_ name = some ref := by
  obtain ⟨c, -, hown⟩ := List.exists_of_findSome?_eq_some h
  obtain ⟨rfl, d, hd, -⟩ := ownMember?_eq_some hown
  rw [memberRef?_eq hacyclic names (List.getElem?_eq_some_iff.1 hd).1, hown, Option.some_or]

theorem exists_fieldDecl {id : ClassId} {name : String} {ref : MemberRef}
    (h : p.fieldRef? id name = some ref) :
    ∃ field, fieldDecl? p ref = some field ∧ field.name = name := by
  obtain ⟨-, c, hc, hindex⟩ := memberRef?_eq_some h
  rw [List.getElem?_map, Option.map_eq_some_iff] at hindex
  obtain ⟨field, hfield, hname⟩ := hindex
  exact ⟨field, by rw [fieldDecl?, hc, Option.bind_some, hfield], hname⟩

theorem exists_methodDecl {id : ClassId} {name : String} {ref : MemberRef}
    (h : p.methodRef? id name = some ref) :
    ∃ method, methodDecl? p ref = some method ∧ method.name = name := by
  obtain ⟨-, c, hc, hindex⟩ := memberRef?_eq_some h
  rw [List.getElem?_map, Option.map_eq_some_iff] at hindex
  obtain ⟨method, hmethod, hname⟩ := hindex
  exact ⟨method, by rw [methodDecl?, hc, Option.bind_some, hmethod], hname⟩

/-- What is seen in a class is seen in the classes below it. -/
theorem memberRef?_isSome_of_inherits (hacyclic : p.Acyclic) {names : ClassDecl → List String}
    {a b : ClassId} (h : p.Inherits a b) {name : String}
    (hb : (p.memberRef? names b name).isSome) : (p.memberRef? names a name).isSome := by
  induction h using Relation.ReflTransGen.head_induction_on with
  | refl => exact hb
  | @head a c hstep _ ih =>
    have hstep : p.superOf a = some c := hstep
    rw [memberRef?_eq hacyclic names (lt_of_superOf hstep), hstep]
    cases p.ownMember? names a name <;> simp [ih]

end Program

end Source

end ClassLang
