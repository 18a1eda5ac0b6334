import ClassLang.Proofs.Ir.Typing
import ClassLang.Proofs.Lowering.Yields
import ClassLang.Proofs.Typing.NotedPrograms
/-!
# Lowering — sessions that grow, and the types of values

What is built stays: `Session.Grows` says so of all that lowering does
before it gives procedures their bodies, `Session.Extends` of all that it
does on demand, which also leaves every struct as it is. `Represents` says
which type the values of a written type have; a session that grows keeps
it. `irTy` makes the structs that the type needs, and succeeds for every
interned type (`yields_irTy`).
-/


namespace ClassLang.Lowering

open Source (TypeExpr Program VarDecl)
open Typing (Analysis Denotes ExprTy TableOk)
open Ir (StructId ProcId)

/-- Every value of the first table is one of the second. -/
def Kept {κ ν : Type} [DecidableEq κ] (t t' : Table κ ν) : Prop :=
  ∀ key value, t.get? key = some value → t'.get? key = some value

namespace Kept

variable {κ ν : Type} [DecidableEq κ] {t t' t'' : Table κ ν}

theorem refl (t : Table κ ν) : Kept t t := fun _ _ h => h

theorem trans (h : Kept t t') (h' : Kept t' t'') : Kept t t'' := fun key value hkey =>
  h' key value (h key value hkey)

theorem insert {key : κ} (hkey : t.get? key = none) (value : ν) : Kept t (t.insert key value) := by
  intro other found hother
  have hne : key ≠ other := fun heq => by rw [heq, hother] at hkey; cases hkey
  rw [Table.get?_insert_of_ne _ _ hne, hother]

end Kept

/-- The second session is the first and more. Structs that have fields keep
them, classes their structs, and procedures their signatures. -/
structure Session.Grows (s s' : Session) : Prop where
  ir : s.ir.Keeps s'.ir
  classes : ∀ (id : ClassId) layout, s.classes[id]? = some layout →
    ∃ entries, s'.classes[id]? = some { layout with entries := entries }
  size : s'.classes.length = s.classes.length
  globals : s'.ir.globals.length = s.ir.globals.length
  fieldSlots : Kept s.fieldSlots s'.fieldSlots
  methodProcs : Kept s.methodProcs s'.methodProcs
  functionProcs : s.functionProcs <+: s'.functionProcs
  arrayStructs : Kept s.arrayStructs s'.arrayStructs
  classAllocators : Kept s.classAllocators s'.classAllocators
  arrayAllocators : Kept s.arrayAllocators s'.arrayAllocators

/-- The second session is the first and more; structs, globals, layouts and
procedures stay as they are. -/
structure Session.Extends (s s' : Session) : Prop where
  structs : s.ir.structs <+: s'.ir.structs
  globals : s'.ir.globals = s.ir.globals
  procs : s.ir.procs <+: s'.ir.procs
  classes : s'.classes = s.classes
  fieldSlots : Kept s.fieldSlots s'.fieldSlots
  methodProcs : Kept s.methodProcs s'.methodProcs
  functionProcs : s.functionProcs <+: s'.functionProcs
  arrayStructs : Kept s.arrayStructs s'.arrayStructs
  classAllocators : Kept s.classAllocators s'.classAllocators
  arrayAllocators : Kept s.arrayAllocators s'.arrayAllocators

/-- No allocator came in. -/
structure Session.SameAllocators (s s' : Session) : Prop where
  classes : s'.classAllocators = s.classAllocators
  arrays : s'.arrayAllocators = s.arrayAllocators

/-- Nor did a slot of a field. -/
structure Session.SameFields (s s' : Session) : Prop extends Session.SameAllocators s s' where
  fields : s'.fieldSlots = s.fieldSlots

namespace Session

variable {s s' s'' : Session}

theorem SameAllocators.refl (s : Session) : SameAllocators s s := ⟨rfl, rfl⟩

theorem SameAllocators.trans (h : SameAllocators s s') (h' : SameAllocators s' s'') :
    SameAllocators s s'' :=
  ⟨h'.classes.trans h.classes, h'.arrays.trans h.arrays⟩

theorem SameFields.refl (s : Session) : SameFields s s := ⟨.refl s, rfl⟩

theorem SameFields.trans (h : SameFields s s') (h' : SameFields s' s'') : SameFields s s'' :=
  ⟨h.toSameAllocators.trans h'.toSameAllocators, h'.fields.trans h.fields⟩

theorem Grows.refl (s : Session) : Grows s s :=
  ⟨.refl _, fun _ l h => ⟨l.entries, h⟩, rfl, rfl, .refl _, .refl _, List.prefix_rfl, .refl _,
    .refl _, .refl _⟩

theorem Grows.trans (h : Grows s s') (h' : Grows s' s'') : Grows s s'' := by
  refine ⟨h.ir.trans h'.ir, fun id layout hid => ?_, h'.size.trans h.size,
    h'.globals.trans h.globals,
    h.fieldSlots.trans h'.fieldSlots, h.methodProcs.trans h'.methodProcs,
    h.functionProcs.trans h'.functionProcs, h.arrayStructs.trans h'.arrayStructs,
    h.classAllocators.trans h'.classAllocators, h.arrayAllocators.trans h'.arrayAllocators⟩
  obtain ⟨entries, hentries⟩ := h.classes id layout hid
  obtain ⟨entries', hentries'⟩ := h'.classes id _ hentries
  exact ⟨entries', hentries'⟩

theorem Extends.refl (s : Session) : Extends s s :=
  ⟨List.prefix_rfl, rfl, List.prefix_rfl, rfl, .refl _, .refl _, List.prefix_rfl, .refl _, .refl _,
    .refl _⟩

theorem Extends.trans (h : Extends s s') (h' : Extends s' s'') : Extends s s'' :=
  ⟨h.structs.trans h'.structs, h'.globals.trans h.globals, h.procs.trans h'.procs,
    h'.classes.trans h.classes, h.fieldSlots.trans h'.fieldSlots,
    h.methodProcs.trans h'.methodProcs, h.functionProcs.trans h'.functionProcs,
    h.arrayStructs.trans h'.arrayStructs, h.classAllocators.trans h'.classAllocators,
    h.arrayAllocators.trans h'.arrayAllocators⟩

theorem Extends.keeps (h : Extends s s') : s.ir.Keeps s'.ir :=
  .of_append h.structs (h.globals ▸ List.prefix_rfl) h.procs

theorem Extends.grows (h : Extends s s') : Grows s s' :=
  ⟨h.keeps, fun id layout hid => ⟨layout.entries, by rw [h.classes, hid]⟩, by rw [h.classes],
    by rw [h.globals], h.fieldSlots, h.methodProcs, h.functionProcs, h.arrayStructs, h.classAllocators, h.arrayAllocators⟩

end Session

/-! ## The types of values -/

/-- The values of the written type have the type of the intermediate form. -/
inductive Represents (p : Program) (a : Analysis) (s : Session) : TypeExpr → Ir.Ty → Prop
  | int : Represents p a s .int .int
  | bool : Represents p a s .bool .bool
  | class_ {name id layout} : p.classId? name = some id → s.classes[id]? = some layout →
      Represents p a s (.class_ name) (.ptr (.struct layout.instance_))
  | array {elem ty struct} : Denotes p a.findings.table ty elem →
      s.arrayStructs.get? ty = some struct →
      Represents p a s (.array elem) (.ptr (.struct struct))

/-- The same of the type of an expression. -/
inductive RepresentsExpr (p : Program) (a : Analysis) (s : Session) : ExprTy → Ir.Ty → Prop
  | null : RepresentsExpr p a s .null .null
  | written {ty target} : Represents p a s ty target → RepresentsExpr p a s (.written ty) target

/-- The struct of the arrays whose elements have a type. -/
def arrayFields (elem : Ir.Ty) : List Ir.Field := [⟨"length", .int⟩, ⟨"data", .array elem 0⟩]

/-- What holds of a session as soon as the classes are declared: what is
built is typed, every class has a layout and a global, every array struct is
one of the arrays over a written type and named for it, and behind the
structs of the classes there are only array structs. -/
structure Session.Typed (p : Program) (a : Analysis) (s : Session) : Prop where
  ir : s.ir.Typed
  size : s.classes.length = p.classes.length
  globals : s.ir.globals.length = p.classes.length
  instances : ∀ (id : ClassId) layout, s.classes[id]? = some layout →
    layout.instance_ < s.ir.structs.length
  arrays : ∀ ty struct, s.arrayStructs.get? ty = some struct → ∃ elem target,
    Denotes p a.findings.table ty elem ∧ Represents p a s elem target ∧
      s.ir.structs[struct]? = some ⟨"array_" ++ mangle a.findings.table ty, arrayFields target⟩
  structs : ∀ i < s.ir.structs.length, i < 2 * p.classes.length ∨
    ∃ ty, s.arrayStructs.get? ty = some i

section Types

variable {p : Program} {a : Analysis} {s s' : Session} {ty : Ty} {written : TypeExpr}
variable {target : Ir.Ty}

theorem Represents.mono (hs : s.Grows s') (h : Represents p a s written target) :
    Represents p a s' written target := by
  cases h with
  | int => exact .int
  | bool => exact .bool
  | class_ hid hlayout =>
    obtain ⟨_, hlayout'⟩ := hs.classes _ _ hlayout
    have h := Represents.class_ (a := a) hid hlayout'
    exact h
  | array hd hstruct => exact .array hd (hs.arrayStructs _ _ hstruct)

theorem RepresentsExpr.mono (hs : s.Grows s') {τ : ExprTy} (h : RepresentsExpr p a s τ target) :
    RepresentsExpr p a s' τ target := by
  cases h with
  | null => exact .null
  | written h => exact .written (h.mono hs)

/-- A written type has one type of values. -/
theorem Represents.unique (ht : TableOk p a.findings.table) {other : Ir.Ty}
    (h : Represents p a s written target) (h' : Represents p a s written other) :
    target = other := by
  cases h with
  | int => cases h'; rfl
  | bool => cases h'; rfl
  | class_ hid hlayout =>
    cases h' with
    | class_ hid' hlayout' =>
      obtain rfl := Option.some.inj (hid.symm.trans hid')
      rw [Option.some.inj (hlayout.symm.trans hlayout')]
  | array hd hstruct =>
    cases h' with
    | array hd' hstruct' =>
      obtain rfl := hd.left_unique ht.nodup hd'
      rw [Option.some.inj (hstruct.symm.trans hstruct')]

theorem Session.Typed.array (hs : s.Typed p a) {struct : StructId}
    (h : s.arrayStructs.get? ty = some struct) (hd : Denotes p a.findings.table ty written) :
    ∃ target name, Represents p a s written target ∧
      s.ir.structs[struct]? = some ⟨name, arrayFields target⟩ := by
  obtain ⟨elem, target, hd', hr, hstruct⟩ := hs.arrays ty struct h
  rw [hd.right_unique hd']
  exact ⟨target, _, hr, hstruct⟩

/-- The values of an array type point to a struct of arrays. -/
theorem Represents.array_inv (hs : s.Typed p a) {elem : TypeExpr}
    (h : Represents p a s (.array elem) target) : ∃ struct, target = .ptr (.struct struct) ∧
      ∃ inner name, Represents p a s elem inner ∧
        s.ir.structs[struct]? = some ⟨name, arrayFields inner⟩ := by
  cases h with
  | array hd hstruct => exact ⟨_, rfl, hs.array hstruct hd⟩

/-- The instance structs stay there. -/
theorem Session.Typed.instances_grow (hs : s.Typed p a) (hgrows : s.Grows s') (id : ClassId)
    (layout : ClassLayout) (h : s'.classes[id]? = some layout) :
    layout.instance_ < s'.ir.structs.length := by
  have hlt : id < s.classes.length := hgrows.size ▸ (List.getElem?_eq_some_iff.1 h).1
  obtain ⟨entries, hentries⟩ := hgrows.classes id _ (List.getElem?_eq_getElem hlt)
  obtain rfl := Option.some.inj (hentries.symm.trans h)
  have hold := hs.instances id _ (List.getElem?_eq_getElem hlt)
  exact Nat.lt_of_lt_of_le hold hgrows.ir.structCount

/-- The structs of the type of values are there. -/
theorem Represents.within (hs : s.Typed p a) (h : Represents p a s written target) :
    target.Within s.ir := by
  cases h with
  | int => exact Ir.Ty.within_int
  | bool => exact Ir.Ty.within_bool
  | class_ _ hlayout => exact Ir.Ty.within_struct.2 (hs.instances _ _ hlayout)
  | array _ hstruct =>
    obtain ⟨_, _, _, _, hdecl⟩ := hs.arrays _ _ hstruct
    exact Ir.Ty.within_struct.2 (List.getElem?_eq_some_iff.1 hdecl).1

/-- What is known of types stays where structs do not come in. -/
theorem Session.Typed.mono (hs : s.Typed p a) (hgrows : s.Grows s') (hir : s'.ir.Typed)
    (hstructs : s'.ir.structs.length = s.ir.structs.length)
    (harrays : s'.arrayStructs = s.arrayStructs) : s'.Typed p a := by
  refine ⟨hir, hgrows.size.trans hs.size, hgrows.globals.trans hs.globals,
    hs.instances_grow hgrows, fun ty struct h => ?_, ?_⟩
  · rw [harrays] at h
    obtain ⟨elem, target, hd, hr, hstruct⟩ := hs.arrays ty struct h
    exact ⟨elem, target, hd, hr.mono hgrows,
      hgrows.ir.structs _ _ hstruct (by simp [arrayFields])⟩
  · rw [hstructs, harrays]
    exact hs.structs

end Types

/-! ## Making types -/

section Making

variable {p : Program} {a : Analysis} {s : Session}

/-- Only structs of arrays came in. -/
structure Session.Retyped (p : Program) (a : Analysis) (s s' : Session) : Prop where
  extends_ : s.Extends s'
  typed : s'.Typed p a
  only : ∃ structs arrays,
    s' = { s with ir := { s.ir with structs := structs }, arrayStructs := arrays }

/-- Nor did structs of arrays over types that are as large as the bound. -/
structure Session.Makes (p : Program) (a : Analysis) (bound : Nat) (s s' : Session) : Prop
    extends Session.Retyped p a s s' where
  below : ∀ ty written, Denotes p a.findings.table ty written → bound ≤ sizeOf written →
    s'.arrayStructs.get? ty = s.arrayStructs.get? ty

theorem Session.Typed.retyped (hs : s.Typed p a) : s.Retyped p a s := ⟨.refl s, hs, _, _, rfl⟩

theorem Session.Typed.makes (hs : s.Typed p a) (bound : Nat) : s.Makes p a bound s :=
  ⟨hs.retyped, fun _ _ _ _ => rfl⟩

theorem Session.Retyped.trans {s' s'' : Session} (h : s.Retyped p a s')
    (h' : s'.Retyped p a s'') : s.Retyped p a s'' := by
  obtain ⟨structs, arrays, heq⟩ := h.only
  obtain ⟨structs', arrays', heq'⟩ := h'.only
  exact ⟨h.extends_.trans h'.extends_, h'.typed, structs', arrays', by rw [heq', heq]⟩

theorem Session.Retyped.procs {s' : Session} (h : s.Retyped p a s') :
    s'.ir.procs = s.ir.procs := by
  obtain ⟨structs, arrays, rfl⟩ := h.only
  rfl

theorem Session.Retyped.functionProcs {s' : Session} (h : s.Retyped p a s') :
    s'.functionProcs = s.functionProcs := by
  obtain ⟨structs, arrays, rfl⟩ := h.only
  rfl

theorem Session.Retyped.methodProcs {s' : Session} (h : s.Retyped p a s') :
    s'.methodProcs = s.methodProcs := by
  obtain ⟨structs, arrays, rfl⟩ := h.only
  rfl

theorem Session.Retyped.fieldSlots {s' : Session} (h : s.Retyped p a s') :
    s'.fieldSlots = s.fieldSlots := by
  obtain ⟨structs, arrays, rfl⟩ := h.only
  rfl

theorem Session.Retyped.sameAllocators {s' : Session} (h : s.Retyped p a s') :
    s.SameAllocators s' := by
  obtain ⟨structs, arrays, rfl⟩ := h.only
  exact ⟨rfl, rfl⟩

theorem Session.Retyped.sameFields {s' : Session} (h : s.Retyped p a s') : s.SameFields s' :=
  ⟨h.sameAllocators, h.fieldSlots⟩

theorem Session.Makes.weaken {bound bound' : Nat} {s' : Session} (h : s.Makes p a bound s')
    (hle : bound ≤ bound') : s.Makes p a bound' s' :=
  ⟨h.toRetyped, fun ty written hd hsize => h.below ty written hd (Nat.le_trans hle hsize)⟩

theorem yields_classLayout {id : ClassId} {P : ClassLayout → Session → Prop}
    {layout : ClassLayout} (h : s.classes[id]? = some layout) (hP : P layout s) :
    Yields (classLayout id) s P :=
  .get_bind (.lift (orFault_ok h) hP)

/-- The session with another array struct. -/
def Session.withArray (a : Analysis) (s : Session) (ty : Ty) (target : Ir.Ty) : Session :=
  { s with
    ir := { s.ir with structs := s.ir.structs ++
      [⟨"array_" ++ mangle a.findings.table ty, arrayFields target⟩] }
    arrayStructs := s.arrayStructs.insert ty s.ir.structs.length }

theorem Session.extends_withArray {ty : Ty} (hnew : s.arrayStructs.get? ty = none)
    (target : Ir.Ty) : s.Extends (s.withArray a ty target) :=
  ⟨List.prefix_append _ _, rfl, List.prefix_rfl, rfl, .refl _, .refl _, List.prefix_rfl,
    .insert hnew _, .refl _, .refl _⟩

theorem Session.Typed.withArray (hs : s.Typed p a) {ty : Ty} {written : TypeExpr}
    (hnew : s.arrayStructs.get? ty = none) (hd : Denotes p a.findings.table ty written)
    {target : Ir.Ty} (hr : Represents p a s written target) :
    (s.withArray a ty target).Typed p a := by
  have hgrows := (s.extends_withArray (a := a) hnew target).grows
  refine ⟨hs.ir.mono hgrows.ir (fun decl hdecl => ?_) (fun _ => .inl) (fun _ => .inl),
    hgrows.size.trans hs.size, hgrows.globals.trans hs.globals, hs.instances_grow hgrows,
    fun other struct h => ?_, fun i hi => ?_⟩
  · refine (List.mem_append.1 hdecl).imp_right fun hnewdecl => ?_
    rw [List.mem_singleton.1 hnewdecl]
    have htarget : target.Within _ := hgrows.ir.within (hr.within hs)
    exact List.forall_mem_cons.2 ⟨Ir.Ty.within_int, List.forall_mem_singleton.2 htarget⟩
  · by_cases hty : ty = other
    · subst hty
      rw [Session.withArray, Table.get?_insert_self] at h
      obtain rfl := Option.some.inj h
      exact ⟨written, target, hd, hr.mono hgrows, by simp [Session.withArray]⟩
    · rw [Session.withArray, Table.get?_insert_of_ne _ _ hty] at h
      obtain ⟨elem, target', hd', hr', hstruct⟩ := hs.arrays other struct h
      exact ⟨elem, target', hd', hr'.mono hgrows,
        hgrows.ir.structs _ _ hstruct (by simp [arrayFields])⟩
  · rw [Session.withArray, List.length_append, List.length_singleton] at hi
    rcases Nat.lt_succ_iff_lt_or_eq.1 hi with hi | rfl
    · exact (hs.structs i hi).imp_right fun ⟨other, h⟩ => ⟨other, hgrows.arrayStructs _ _ h⟩
    · exact .inr ⟨ty, Table.get?_insert_self _ _ _⟩

/-- **The struct of arrays**, found or made. -/
theorem yields_arrayStructOf (hs : s.Typed p a)
    {irTy : Ty → Build Ir.Ty} {ty : Ty} {written : TypeExpr}
    (hd : Denotes p a.findings.table ty written)
    (hirTy : Yields (irTy ty) s fun target s' =>
      s.Makes p a (sizeOf written) s' ∧ Represents p a s' written target) :
    Yields (arrayStructOf a irTy ty) s fun id s' =>
      s.Makes p a (sizeOf written + 1) s' ∧ s'.arrayStructs.get? ty = some id := by
  refine .get_bind ?_
  cases hget : s.arrayStructs.get? ty with
  | some id => exact .pure ⟨hs.makes _, hget⟩
  | none =>
    dsimp only
    refine hirTy.bind fun target s₁ ⟨hmakes, hr⟩ => ?_
    have hnew : s₁.arrayStructs.get? ty = none := by
      rw [hmakes.below ty written hd (Nat.le_refl _), hget]
    -- The struct is added without fields and gets them at once.
    refine yields_addStruct_bind (.bind (yields_modifyIr (P := fun _ s₂ => s₂ = _)
      (setFields_ok (List.getElem?_concat_length ..) _) rfl) fun _ s₂ h₂ =>
        .modify_bind (.pure ?_))
    have heq : { s₂ with arrayStructs := s₂.arrayStructs.insert ty s₁.ir.structs.length } =
        s₁.withArray a ty target := by
      subst h₂
      simp [Session.withArray, arrayFields]
    rw [heq]
    have hretyped : s₁.Retyped p a (s₁.withArray a ty target) :=
      ⟨s₁.extends_withArray hnew _, hmakes.typed.withArray hnew hd hr, _, _, rfl⟩
    refine ⟨⟨hmakes.toRetyped.trans hretyped, fun other w hdw hsize => ?_⟩, by
      simp [Session.withArray]⟩
    have hne : ty ≠ other := fun heq => by
      rw [heq] at hd
      rw [hd.right_unique hdw] at hsize
      omega
    rw [Session.withArray, Table.get?_insert_of_ne _ _ hne]
    exact hmakes.below other w hdw (by omega)

theorem Session.Typed.layout (hs : s.Typed p a) {name : String} {id : ClassId}
    (hid : p.classId? name = some id) : ∃ layout, s.classes[id]? = some layout :=
  ⟨_, List.getElem?_eq_getElem (hs.size ▸ Source.Program.classId?_lt hid)⟩

theorem yields_irTyWithin (ht : TableOk p a.findings.table) (n : Nat) (hs : s.Typed p a) {ty : Ty}
    {written : TypeExpr} (hd : Denotes p a.findings.table ty written)
    (hn : ∀ id, ty = .array id → id < n) : Yields (irTyWithin a n ty) s fun target s' =>
      s.Makes p a (sizeOf written) s' ∧ Represents p a s' written target := by
  induction n generalizing s ty written with
  | zero =>
    cases hd with
    | int => exact .pure ⟨hs.makes _, .int⟩
    | bool => exact .pure ⟨hs.makes _, .bool⟩
    | class_ hid =>
      obtain ⟨layout, hlayout⟩ := hs.layout hid
      exact (yields_classLayout (P := fun l s' => l = layout ∧ s' = s) hlayout ⟨rfl, rfl⟩).bind
        fun l s' h => by
          obtain ⟨rfl, rfl⟩ := h
          exact .pure ⟨hs.makes _, .class_ hid hlayout⟩
    | array _ _ => exact absurd (hn _ rfl) (Nat.not_lt_zero _)
  | succ n ih =>
    cases hd with
    | int => exact .pure ⟨hs.makes _, .int⟩
    | bool => exact .pure ⟨hs.makes _, .bool⟩
    | class_ hid =>
      obtain ⟨layout, hlayout⟩ := hs.layout hid
      exact (yields_classLayout (P := fun l s' => l = layout ∧ s' = s) hlayout ⟨rfl, rfl⟩).bind
        fun l s' h => by
          obtain ⟨rfl, rfl⟩ := h
          exact .pure ⟨hs.makes _, .class_ hid hlayout⟩
    | @array id elem written helem hd =>
      have helem' : a.findings.table.elem id = elem := by simp [TypeTable.elem, helem]
      have hinner : ∀ inner, elem = .array inner → inner < n := fun inner heq =>
        Nat.lt_of_lt_of_le (ht.older id inner (heq ▸ helem)) (Nat.lt_succ_iff.1 (hn id rfl))
      rw [irTyWithin, helem']
      refine (yields_arrayStructOf hs hd (ih hs hd hinner)).bind fun struct s' h =>
        .pure ⟨h.1.weaken ?_, .array hd h.2⟩
      simp only [TypeExpr.array.sizeOf_spec]
      omega

/-- **The type of values is found** for every interned type. -/
theorem yields_irTy (ht : TableOk p a.findings.table) (hs : s.Typed p a) {ty : Ty}
    {written : TypeExpr} (hd : Denotes p a.findings.table ty written) :
    Yields (irTy a ty) s fun target s' =>
      s.Makes p a (sizeOf written) s' ∧ Represents p a s' written target := by
  refine yields_irTyWithin ht _ hs hd fun id heq => ?_
  subst heq
  cases hd with
  | array helem _ =>
    obtain ⟨hlt, -⟩ := List.getElem?_eq_some_iff.1 helem
    exact Nat.lt_succ_of_lt hlt

theorem yields_arrayStruct (ht : TableOk p a.findings.table) (hs : s.Typed p a) {ty : Ty}
    {written : TypeExpr} (hd : Denotes p a.findings.table ty written) :
    Yields (arrayStruct a ty) s fun struct s' =>
      s.Retyped p a s' ∧ s'.arrayStructs.get? ty = some struct :=
  (yields_arrayStructOf hs hd (yields_irTy ht hs hd)).mono fun _ _ h => ⟨h.1.toRetyped, h.2⟩

/-- A type that is written in a declaration has a type of the intermediate form. -/
theorem yields_irTyOf (ht : TableOk p a.findings.table)
    (hlookup : ∀ name, a.classes.lookup name = p.classId? name) (hs : s.Typed p a)
    {written : TypeExpr} (h : Typing.Interned p a.findings written) :
    Yields (irTyOf a written) s fun target s' =>
      s.Retyped p a s' ∧ Represents p a s' written target := by
  obtain ⟨ty, hd⟩ := h
  exact .lift_bind (orFault_ok (Typing.lookupType_of_denotes ht hlookup hd)) <|
    (yields_irTy ht hs hd).mono fun _ _ h => ⟨h.1.toRetyped, h.2⟩

/-- The parameter of the intermediate form stands for the declared one. -/
structure ParamFor (p : Program) (a : Analysis) (s : Session) (param : VarDecl)
    (field : Ir.Field) : Prop where
  name : field.name = param.name
  ty : Represents p a s param.ty field.ty

theorem ParamFor.mono {s' : Session} (hs : s.Grows s') {param : VarDecl} {field : Ir.Field}
    (h : ParamFor p a s param field) : ParamFor p a s' param field :=
  ⟨h.name, h.ty.mono hs⟩

theorem ParamFor.within (hs : s.Typed p a) {params : List VarDecl} {fields : List Ir.Field}
    (h : List.Forall₂ (ParamFor p a s) params fields) : ∀ f ∈ fields, f.ty.Within s.ir := by
  induction h with
  | nil => exact List.forall_mem_nil _
  | cons hparam _ ih => exact List.forall_mem_cons.2 ⟨hparam.ty.within hs, ih⟩

theorem yields_irParams (ht : TableOk p a.findings.table)
    (hlookup : ∀ name, a.classes.lookup name = p.classId? name) (hs : s.Typed p a)
    {params : List VarDecl} (h : ∀ param ∈ params, Typing.Interned p a.findings param.ty) :
    Yields (irParams a params) s fun fields s' =>
      s.Retyped p a s' ∧ List.Forall₂ (ParamFor p a s') params fields := by
  induction params generalizing s with
  | nil => exact .pure ⟨hs.retyped, .nil⟩
  | cons param rest ih =>
    rw [List.forall_mem_cons] at h
    refine (yields_irTyOf ht hlookup hs h.1).bind fun target s₁ ⟨hretyped₁, hr⟩ =>
      (ih hretyped₁.typed h.2).bind fun fields s₂ ⟨hretyped₂, hfields⟩ => .pure ?_
    exact ⟨hretyped₁.trans hretyped₂, .cons ⟨rfl, hr.mono hretyped₂.extends_.grows⟩ hfields⟩

end Making

end ClassLang.Lowering
