import ClassLang.Proofs.Hierarchy.Description
import Mathlib.Data.List.OfFn
import Mathlib.Data.Fintype.Perm
import Mathlib.Logic.Equiv.Fin.Basic
/-!
# Hierarchy — the order of declarations

A program whose functions and classes are put in another order has the same
hierarchy, with the indices renumbered (`Reordering.memberRef?`), and it is in
order exactly if the program was (`Reordering.soundClasses`).
-/


namespace ClassLang

open Source (ClassDecl FunctionDecl VarDecl Program)

/-! ## Orders -/

/-- The list with its elements in another order: at `i` stands what was at
`order i`. -/
def reordered {α : Type} (xs : List α) (order : Equiv.Perm (Fin xs.length)) : List α :=
  List.ofFn fun i => xs.get (order i)

/-- Where an index of a list goes if its elements are put in another order. -/
def renumbered {n : Nat} (order : Equiv.Perm (Fin n)) : Equiv.Perm Nat where
  toFun i := if h : i < n then (order.symm ⟨i, h⟩).val else i
  invFun i := if h : i < n then (order ⟨i, h⟩).val else i
  left_inv i := by
    by_cases h : i < n
    · simp [h]
    · simp [h]
  right_inv i := by
    by_cases h : i < n
    · simp [h]
    · simp [h]

theorem getElem?_reordered {α : Type} (xs : List α) (order : Equiv.Perm (Fin xs.length)) (i : Nat) :
    (reordered xs order)[renumbered order i]? = xs[i]? := by
  by_cases h : i < xs.length
  · simp [reordered, renumbered, h]
  · simp [reordered, renumbered, h]

theorem reordered_perm {α : Type} (xs : List α) (order : Equiv.Perm (Fin xs.length)) :
    (reordered xs order).Perm xs := by
  have h := Equiv.Perm.ofFn_comp_perm order xs.get
  rwa [List.ofFn_get] at h

/-- Where a name has gone that occurs once. -/
theorem idxOf?_of_renumbered {names names' : List String} (e : Equiv.Perm Nat)
    (h : ∀ i, names'[e i]? = names[i]?) (hnodup : names'.Nodup) (name : String) :
    names'.idxOf? name = (names.idxOf? name).map e := by
  cases hname : names.idxOf? name with
  | some i =>
    obtain ⟨hlt, hi, -⟩ := List.idxOf?_eq_some_iff.1 hname
    have hfound : names[i]? = some name := by simpa [List.getElem?_eq_getElem hlt] using hi
    exact idxOf?_eq_of_nodup hnodup ((h i).trans hfound)
  | none =>
    rw [List.idxOf?_eq_none_iff] at hname
    rw [Option.map_none, List.idxOf?_eq_none_iff]
    intro hmem
    obtain ⟨j, hj⟩ := List.mem_iff_getElem?.1 hmem
    rw [← e.apply_symm_apply j, h] at hj
    exact hname (List.mem_of_getElem? hj)

namespace Source.Program

/-- The second program has the functions and classes of the first in another
order; what was at an index is now at the index it is sent to. -/
structure Reordering (p p' : Program) where
  function : Equiv.Perm Nat
  class_ : Equiv.Perm ClassId
  functions : ∀ i, p'.functions[function i]? = p.functions[i]?
  classes : ∀ id, p'.classes[class_ id]? = p.classes[id]?
  functions_perm : p'.functions.Perm p.functions
  classes_perm : p'.classes.Perm p.classes
  pos : p'.pos = p.pos

/-- The program with its functions and classes in another order. -/
def reorder (p : Program) (functions : Equiv.Perm (Fin p.functions.length))
    (classes : Equiv.Perm (Fin p.classes.length)) : Program :=
  { p with functions := reordered p.functions functions, classes := reordered p.classes classes }

/-- Where the indices of functions and classes have gone. -/
def reordering (p : Program) (functions : Equiv.Perm (Fin p.functions.length))
    (classes : Equiv.Perm (Fin p.classes.length)) : p.Reordering (p.reorder functions classes) where
  function := renumbered functions
  class_ := renumbered classes
  functions := getElem?_reordered p.functions functions
  classes := getElem?_reordered p.classes classes
  functions_perm := reordered_perm p.functions functions
  classes_perm := reordered_perm p.classes classes
  pos := rfl

namespace Reordering

variable {p p' : Program} (r : p.Reordering p')

/-- The way back. -/
def symm : p'.Reordering p where
  function := r.function.symm
  class_ := r.class_.symm
  functions i := by rw [← r.functions, Equiv.apply_symm_apply]
  classes id := by rw [← r.classes, Equiv.apply_symm_apply]
  functions_perm := r.functions_perm.symm
  classes_perm := r.classes_perm.symm
  pos := r.pos.symm

/-- Where a member has gone: with its class. -/
def member (ref : MemberRef) : MemberRef := ⟨r.class_ ref.class_, ref.index⟩

include r

theorem length_classes : p'.classes.length = p.classes.length := r.classes_perm.length_eq

theorem mem_functions {f : FunctionDecl} : f ∈ p'.functions ↔ f ∈ p.functions :=
  r.functions_perm.mem_iff

theorem mem_classes {c : ClassDecl} : c ∈ p'.classes ↔ c ∈ p.classes := r.classes_perm.mem_iff

theorem fieldDecl? (ref : MemberRef) : fieldDecl? p' (r.member ref) = fieldDecl? p ref := by
  rw [ClassLang.fieldDecl?, ClassLang.fieldDecl?, member, r.classes]

theorem methodDecl? (ref : MemberRef) : methodDecl? p' (r.member ref) = methodDecl? p ref := by
  rw [ClassLang.methodDecl?, ClassLang.methodDecl?, member, r.classes]

theorem nodup_classNames (h : (p.classes.map (·.name)).Nodup) : (p'.classes.map (·.name)).Nodup :=
  (r.classes_perm.map _).nodup_iff.2 h

theorem ownMember? (names : ClassDecl → List String) (id : ClassId) (name : String) :
    p'.ownMember? names (r.class_ id) name = (p.ownMember? names id name).map r.member := by
  rw [Program.ownMember?, Program.ownMember?, r.classes, Option.map_map]
  rfl

/-! ## The hierarchy -/

variable (hnames : (p.classes.map (·.name)).Nodup)
include hnames

/-- **A class is found where it has gone**, if it is the only one of its name. -/
theorem classId? (name : String) : p'.classId? name = (p.classId? name).map r.class_ :=
  idxOf?_of_renumbered r.class_ (fun id => by simp [r.classes]) (r.nodup_classNames hnames) name

theorem superOf (id : ClassId) : p'.superOf (r.class_ id) = (p.superOf id).map r.class_ := by
  rw [Program.superOf, Program.superOf, r.classes]
  cases p.classes[id]?.bind (·.extends?) with
  | none => rfl
  | some name => exact r.classId? hnames name

theorem inherits {a b : ClassId} (h : p.Inherits a b) : p'.Inherits (r.class_ a) (r.class_ b) :=
  h.lift r.class_ fun a b hab => show p'.superOf (r.class_ a) = some (r.class_ b) by
    rw [r.superOf hnames, show p.superOf a = some b from hab, Option.map_some]

theorem acyclic (h : p.Acyclic) : p'.Acyclic := fun id hid => by
  refine h (r.symm.class_ id) (hid.lift r.symm.class_ fun a b hab => ?_)
  show p.superOf (r.symm.class_ a) = some (r.symm.class_ b)
  rw [r.symm.superOf (r.nodup_classNames hnames), show p'.superOf a = some b from hab,
    Option.map_some]

theorem lineageWithin (n : Nat) (id : ClassId) :
    p'.lineageWithin n (r.class_ id) = (p.lineageWithin n id).map r.class_ := by
  induction n generalizing id with
  | zero => rfl
  | succ n ih =>
    rw [Program.lineageWithin, Program.lineageWithin, r.superOf hnames]
    cases p.superOf id with
    | none => rfl
    | some s => simp [ih]

/-- **The nearest declaration goes with its class.** -/
theorem memberRef? (names : ClassDecl → List String) (id : ClassId) (name : String) :
    p'.memberRef? names (r.class_ id) name = (p.memberRef? names id name).map r.member := by
  rw [Program.memberRef?, Program.memberRef?, lineage, lineage, r.length_classes,
    r.lineageWithin hnames, List.findSome?_map]
  induction p.lineageWithin p.classes.length id with
  | nil => rfl
  | cons c rest ih =>
    rw [List.findSome?_cons, List.findSome?_cons, Function.comp_apply, r.ownMember?]
    cases p.ownMember? names c name with
    | none => exact ih
    | some ref => rfl

theorem fieldRef? (id : ClassId) (name : String) :
    p'.fieldRef? (r.class_ id) name = (p.fieldRef? id name).map r.member :=
  r.memberRef? hnames _ id name

theorem methodRef? (id : ClassId) (name : String) :
    p'.methodRef? (r.class_ id) name = (p.methodRef? id name).map r.member :=
  r.memberRef? hnames _ id name

end Reordering

end Source.Program

/-- **Classes are in order in every order.** -/
theorem Source.Program.Reordering.soundClasses {p p' : Program} (r : p.Reordering p')
    (h : p.SoundClasses) : p'.SoundClasses := by
  refine ⟨r.nodup_classNames h.names, fun c hc => h.fields c (r.mem_classes.1 hc),
    fun c hc => h.methods c (r.mem_classes.1 hc), ?_, r.acyclic h.names h.hierarchy.acyclic, ?_⟩
  · intro c hc name hname
    rw [r.classId? h.names, Option.isSome_map]
    exact h.hierarchy.superclasses c (r.mem_classes.1 hc) name hname
  · intro id c s hc hs m hm ref href inherited hinherited
    -- Everything is looked up where it comes from.
    obtain ⟨id, rfl⟩ := r.class_.surjective id
    rw [r.classes] at hc
    rw [r.superOf h.names] at hs
    obtain ⟨t, ht, rfl⟩ := Option.map_eq_some_iff.1 hs
    rw [r.methodRef? h.names] at href
    obtain ⟨found, hfound, rfl⟩ := Option.map_eq_some_iff.1 href
    rw [r.methodDecl?] at hinherited
    exact h.hierarchy.overrides id c t hc ht m hm found hfound inherited hinherited

end ClassLang
