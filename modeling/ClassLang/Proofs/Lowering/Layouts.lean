import ClassLang.Proofs.Hierarchy.Members
import ClassLang.Proofs.Lowering.Declarations
/-!
# Lowering — the layout of objects and vtables

`LaidOut` says what the structs, the slots and the vtable of a class are:
the object holds a pointer to the vtable and the fields of `fieldRefs`, and
the vtable the procedures of the nearest methods, in the order of
`slotNames`. Laying out a class behind its superclass makes it so
(`yields_layOutClass`), and so all classes are laid out
(`yields_layOutClasses`).
-/


namespace ClassLang.Lowering

open Source (TypeExpr Program VarDecl FunctionDecl ClassDecl)
open Typing (Analysis TableOk)
open Ir (StructId ProcId)

/-! ## Parts of the layout -/

section Entries

variable {entries : List (String × ProcId)} {name : String} {proc : ProcId}

theorem map_fst_putEntry_eq_addName (entries : List (String × ProcId)) (name : String)
    (proc : ProcId) :
    (putEntry entries name proc).map (·.1) = addName (entries.map (·.1)) name := by
  rw [map_fst_putEntry, addName]

/-- An entry is the one that was put, or one of another name that was there. -/
theorem mem_putEntry (hnodup : (entries.map (·.1)).Nodup) {e : String × ProcId}
    (h : e ∈ putEntry entries name proc) :
    e = (name, proc) ∨ (e ∈ entries ∧ e.1 ≠ name) := by
  unfold putEntry at h
  split at h
  next slot hslot =>
    obtain ⟨hlt, hname, -⟩ := List.idxOf?_eq_some_iff.1 hslot
    obtain ⟨i, hi⟩ := List.mem_iff_getElem?.1 h
    rw [List.getElem?_set] at hi
    split at hi
    next heq =>
      split at hi
      · exact .inl (Option.some.inj hi).symm
      · cases hi
    next hne =>
      refine .inr ⟨List.mem_of_getElem? hi, fun heq => hne ?_⟩
      have hfirst : (entries.map (·.1))[i]? = some name := by
        rw [List.getElem?_map, hi, Option.map_some, heq]
      exact Option.some.inj (hslot.symm.trans (idxOf?_eq_of_nodup hnodup hfirst))
  next hnone =>
    rcases List.mem_append.1 h with h | h
    · refine .inr ⟨h, fun heq => List.idxOf?_eq_none_iff.1 hnone ?_⟩
      exact heq ▸ List.mem_map_of_mem h
    · exact .inl (List.mem_singleton.1 h)

end Entries

section Parts

variable {p : Program} {a : Analysis} {s : Session}

theorem yields_methodProc {ref : MemberRef} {proc : ProcId} (h : s.methodProcs.get? ref = some proc)
    {P : ProcId → Session → Prop} (hP : P proc s) : Yields (methodProc ref) s P :=
  .get_bind (.lift (orFault_ok h) hP)

/-- **The entries of a vtable**: a name has its slot or a new one, and the
procedure of the method that the class declares, or else the one from above. -/
theorem yields_layOutMethods (id : ClassId) {methods : List FunctionDecl} (k : Nat)
    {entries : List (String × ProcId)} (hnodup : (entries.map (·.1)).Nodup)
    (hmethods : ∀ index, index < methods.length →
      ∃ proc, s.methodProcs.get? ⟨id, k + index⟩ = some proc) :
    Yields (layOutMethods id (methods.zipIdx k) entries) s fun entries' s' => s' = s ∧
      entries'.map (·.1) = (methods.map (·.name)).foldl addName (entries.map (·.1)) ∧
      ∀ e ∈ entries', (∃ index m, methods[index]? = some m ∧ m.name = e.1 ∧
          s.methodProcs.get? ⟨id, k + index⟩ = some e.2) ∨
        (e ∈ entries ∧ e.1 ∉ methods.map (·.name)) := by
  induction methods generalizing k entries with
  | nil => exact .pure ⟨rfl, rfl, fun e he => .inr ⟨he, by simp⟩⟩
  | cons m rest ih =>
    obtain ⟨proc, hproc⟩ := hmethods 0 (Nat.zero_lt_succ _)
    refine (yields_methodProc hproc (P := fun q s' => q = proc ∧ s' = s) ⟨rfl, rfl⟩).bind
      fun q s' h => ?_
    obtain ⟨rfl, rfl⟩ := h
    have hnames := map_fst_putEntry_eq_addName entries m.name q
    have hnodup' : ((putEntry entries m.name q).map (·.1)).Nodup := by
      rw [hnames]
      exact nodup_addName hnodup _
    refine (ih (k + 1) hnodup' fun index hindex => ?_).mono
      fun entries' s'' ⟨hs, hnames', hall⟩ => ⟨hs, ?_, fun e he => ?_⟩
    · rw [show k + 1 + index = k + (index + 1) by omega]
      exact hmethods (index + 1) (Nat.succ_lt_succ hindex)
    · rw [hnames', hnames, List.map_cons, List.foldl_cons]
    · rcases hall e he with ⟨index, m', hm', hname, hget⟩ | ⟨hmem, hother⟩
      · exact .inl ⟨index + 1, m', hm', hname, by
          rw [show k + (index + 1) = k + 1 + index by omega]; exact hget⟩
      · rcases mem_putEntry hnodup hmem with rfl | ⟨hmem, hne⟩
        · exact .inl ⟨0, m, rfl, rfl, hproc⟩
        · rw [List.map_cons, List.mem_cons, not_or]
          exact .inr ⟨hmem, hne, hother⟩

/-- The field of a vtable struct holds the procedure of an entry. -/
structure SlotFor (s : Session) (entry : String × ProcId) (field : Ir.Field) : Prop where
  name : field.name = entry.1
  ty : ∃ proc, s.ir.procs[entry.2]? = some proc ∧ field.ty = proc.signature

theorem SlotFor.mono {s' : Session} (hs : s.Grows s') {entry : String × ProcId} {field : Ir.Field}
    (h : SlotFor s entry field) : SlotFor s' entry field := by
  obtain ⟨proc, hproc, hty⟩ := h.ty
  obtain ⟨temps, blocks, hproc'⟩ := hs.ir.procs _ _ hproc
  exact ⟨h.name, _, hproc', hty⟩

theorem yields_vtableFields {entries : List (String × ProcId)}
    (h : ∀ e ∈ entries, ∃ proc, s.ir.procs[e.2]? = some proc) :
    Yields (vtableFields entries) s fun fields s' =>
      s' = s ∧ List.Forall₂ (SlotFor s) entries fields := by
  induction entries with
  | nil => exact .pure ⟨rfl, .nil⟩
  | cons e rest ih =>
    rw [List.forall_mem_cons] at h
    obtain ⟨proc, hproc⟩ := h.1
    refine (yields_procDecl hproc (P := fun q s' => q = proc ∧ s' = s) ⟨rfl, rfl⟩).bind
      fun q s' hq => ?_
    obtain ⟨rfl, rfl⟩ := hq
    refine (ih h.2).bind fun fields s'' ⟨hs, hfields⟩ => .pure ⟨hs, ?_⟩
    exact .cons ⟨rfl, q, hproc, rfl⟩ hfields

/-- The field of an instance struct holds a declared field. -/
structure FieldFor (p : Program) (a : Analysis) (s : Session) (ref : MemberRef)
    (field : Ir.Field) : Prop where
  decl : ∃ decl, fieldDecl? p ref = some decl ∧ Represents p a s decl.ty field.ty
  name : ∀ decl, fieldDecl? p ref = some decl → field.name = decl.name

theorem FieldFor.within (hs : s.Typed p a) {refs : List MemberRef} {fields : List Ir.Field}
    (h : List.Forall₂ (FieldFor p a s) refs fields) : ∀ f ∈ fields, f.ty.Within s.ir := by
  induction h with
  | nil => exact List.forall_mem_nil _
  | cons hfield _ ih =>
    obtain ⟨_, _, hr⟩ := hfield.decl
    exact List.forall_mem_cons.2 ⟨hr.within hs, ih⟩

theorem FieldFor.mono {s' : Session} (hs : s.Grows s') {ref : MemberRef} {field : Ir.Field}
    (h : FieldFor p a s ref field) : FieldFor p a s' ref field := by
  obtain ⟨decl, hdecl, hr⟩ := h.decl
  exact ⟨⟨decl, hdecl, hr.mono hs⟩, h.name⟩

/-- **The own fields of a class** get the next places of its struct. -/
theorem yields_layOutFields (ht : TableOk p a.findings.table)
    (hlookup : ∀ name, a.classes.lookup name = p.classId? name) (hs : s.Typed p a) (id : ClassId)
    (first : Nat) {fields : List VarDecl} (k : Nat)
    (hdecl : ∀ index, fieldDecl? p ⟨id, k + index⟩ = fields[index]?)
    (hfields : ∀ field ∈ fields, Typing.Interned p a.findings field.ty)
    (hnew : ∀ index, k ≤ index → s.fieldSlots.get? ⟨id, index⟩ = none) :
    Yields (layOutFields a id first (fields.zipIdx k)) s fun own s' =>
      s.Extends s' ∧ s.SameAllocators s' ∧ s'.Typed p a ∧ s'.methodProcs = s.methodProcs ∧
        s'.functionProcs = s.functionProcs ∧ s'.ir.procs = s.ir.procs ∧
        (∀ ref : MemberRef, ref.class_ ≠ id → s'.fieldSlots.get? ref = s.fieldSlots.get? ref) ∧
        (∀ index, index < fields.length →
          s'.fieldSlots.get? ⟨id, k + index⟩ = some (first + (k + index))) ∧
        List.Forall₂ (FieldFor p a s')
          ((List.range fields.length).map fun index => ⟨id, k + index⟩) own := by
  -- The induction is on the fields that are left; `k` is the index of the first of them,
  -- and fields from `k` on have no slot yet.
  induction fields generalizing s k with
  | nil => exact .pure ⟨.refl s, .refl s, hs, rfl, rfl, rfl, fun _ _ => rfl, by simp, .nil⟩
  | cons field rest ih =>
    rw [List.forall_mem_cons] at hfields
    refine (yields_irTyOf ht hlookup hs hfields.1).bind fun target s₁ ⟨h₁, hr⟩ =>
      .modify_bind ?_
    have hnew₁ (index : Nat) (hindex : k ≤ index) : s₁.fieldSlots.get? ⟨id, index⟩ = none := by
      rw [h₁.fieldSlots, hnew index hindex]
    have hext : s₁.Extends
        { s₁ with fieldSlots := s₁.fieldSlots.insert ⟨id, k⟩ (first + k) } :=
      ⟨List.prefix_rfl, rfl, List.prefix_rfl, rfl, .insert (hnew₁ k (Nat.le_refl k)) _, .refl _,
        List.prefix_rfl, .refl _, .refl _, .refl _⟩
    refine (ih (s := { s₁ with fieldSlots := s₁.fieldSlots.insert ⟨id, k⟩ (first + k) })
      (h₁.typed.mono hext.grows h₁.typed.ir rfl rfl) (k + 1) (fun index => ?_) hfields.2
      fun index hindex => ?_).bind
        fun own s' ⟨hext', hsame, hs', hmethods, hfunctions, hprocs, hother, hslots, hown⟩ =>
          .pure ?_
    · rw [show k + 1 + index = k + (index + 1) by omega, hdecl, List.getElem?_cons_succ]
    · have hne : (⟨id, k⟩ : MemberRef) ≠ ⟨id, index⟩ := fun heq => by
        have := (MemberRef.mk.inj heq).2
        omega
      rw [Table.get?_insert_of_ne _ _ hne, hnew₁ index (by omega)]
    · refine ⟨(h₁.extends_.trans hext).trans hext',
        h₁.sameAllocators.trans ⟨hsame.classes, hsame.arrays⟩, hs', hmethods.trans h₁.methodProcs,
        hfunctions.trans h₁.functionProcs, hprocs.trans h₁.procs, fun ref href => ?_,
        fun index hindex => ?_, ?_⟩
      · have hne : (⟨id, k⟩ : MemberRef) ≠ ref := fun heq => href (heq ▸ rfl)
        rw [hother ref href, Table.get?_insert_of_ne _ _ hne, h₁.fieldSlots]
      · cases index with
        | zero => exact hext'.fieldSlots _ _ (Table.get?_insert_self _ _ _)
        | succ index =>
          rw [show k + (index + 1) = k + 1 + index by omega]
          exact hslots index (Nat.lt_of_succ_lt_succ hindex)
      · rw [List.length_cons, List.range_succ_eq_map, List.map_cons, List.map_map]
        have hfield : fieldDecl? p ⟨id, k + 0⟩ = some field := hdecl 0
        refine .cons ⟨⟨field, hfield, (hr.mono hext.grows).mono hext'.grows⟩,
          fun decl hdecl' => congrArg VarDecl.name (Option.some.inj (hfield.symm.trans hdecl'))⟩ ?_
        have heq : ((fun index => (⟨id, k + index⟩ : MemberRef)) ∘ Nat.succ) =
            fun index => ⟨id, k + 1 + index⟩ := by
          funext index
          simp
          omega
        rw [heq]
        exact hown

end Parts

/-! ## Classes -/

/-- The first field of every object. -/
def headerField (id : ClassId) : Ir.Field := ⟨"_vtable", .ptr (.struct (2 * id + 1))⟩

/-- What is built for the class has the names of the class. -/
structure NamedFor (s : Session) (id : ClassId) (c : ClassDecl) : Prop where
  instance_ : (s.ir.structs[2 * id]?).map (·.name) = some ("class_" ++ c.name)
  vtable : (s.ir.structs[2 * id + 1]?).map (·.name) = some ("vtable_" ++ c.name)
  vtableGlobal : (s.ir.globals[id]?).map (·.name) = some ("_vtable_" ++ c.name)

/-- **The layout of a class**: `fields` are those of its objects behind the
header, `slots` those of its vtable. -/
structure LaidOut (p : Program) (a : Analysis) (s : Session) (id : ClassId)
    (entries : List (String × ProcId)) (fields slots : List Ir.Field) : Prop where
  layout : ∃ c, p.classes[id]? = some c ∧
    s.classes[id]? = some ⟨c.name, 2 * id, 2 * id + 1, id, entries⟩
  instance_ : ∃ name, s.ir.structs[2 * id]? = some ⟨name, headerField id :: fields⟩
  vtable : ∃ name, s.ir.structs[2 * id + 1]? = some ⟨name, slots⟩
  vtableGlobal : ∃ name, s.ir.globals[id]? = some ⟨name, .struct (2 * id + 1), true,
    .struct (2 * id + 1) (entries.map fun (_, proc) => .proc proc)⟩
  fields : List.Forall₂ (FieldFor p a s) (p.fieldRefs id) fields
  fieldSlots : ∀ (i : Nat) ref, (p.fieldRefs id)[i]? = some ref →
    s.fieldSlots.get? ref = some (i + 1)
  names : entries.map (·.1) = p.slotNames id
  procs : ∀ e ∈ entries, ∃ ref, p.methodRef? id e.1 = some ref ∧
    s.methodProcs.get? ref = some e.2
  slots : List.Forall₂ (SlotFor s) entries slots
  named : ∀ c, p.classes[id]? = some c → NamedFor s id c

section Classes

variable {p : Program} {a : Analysis} {s s' : Session} {id : ClassId}

/-- A layout stays where its parts do. -/
theorem LaidOut.mono {entries : List (String × ProcId)} {fields slots : List Ir.Field}
    (h : LaidOut p a s id entries fields slots) (hs : s.Grows s')
    (hlayout : s'.classes[id]? = s.classes[id]?)
    (hvtable : s'.ir.structs[2 * id + 1]? = s.ir.structs[2 * id + 1]?)
    (hglobal : s'.ir.globals[id]? = s.ir.globals[id]?) :
    LaidOut p a s' id entries fields slots := by
  obtain ⟨c, hc, hlaid⟩ := h.layout
  obtain ⟨name, hinstance⟩ := h.instance_
  refine ⟨⟨c, hc, hlayout.trans hlaid⟩, ⟨name, hs.ir.structs _ _ hinstance (by simp)⟩, ?_, ?_,
    h.fields.imp fun _ _ h => h.mono hs, fun i ref href => hs.fieldSlots _ _ (h.fieldSlots i ref href),
    h.names, fun e he => ?_, h.slots.imp fun _ _ h => h.mono hs, fun c' hc' => ?_⟩
  · rw [hvtable]
    exact h.vtable
  · rw [hglobal]
    exact h.vtableGlobal
  · obtain ⟨ref, href, hproc⟩ := h.procs e he
    exact ⟨ref, href, hs.methodProcs _ _ hproc⟩
  · have hnamed := h.named c' hc'
    refine ⟨?_, hvtable ▸ hnamed.vtable, hglobal ▸ hnamed.vtableGlobal⟩
    rw [hs.ir.structs _ _ hinstance (by simp), ← hinstance]
    exact hnamed.instance_

theorem LaidOut.extends_ {entries : List (String × ProcId)} {fields slots : List Ir.Field}
    (h : LaidOut p a s id entries fields slots) (hs : s.Extends s') :
    LaidOut p a s' id entries fields slots := by
  obtain ⟨name, hvtable⟩ := h.vtable
  refine h.mono hs.grows (by rw [hs.classes]) ?_ (by rw [hs.globals])
  rw [hvtable, getElem?_of_initial hs.structs hvtable]

/-- The vtable of a class is what the header of its objects points to. -/
theorem LaidOut.hasTy_vtable {entries : List (String × ProcId)} {fields slots : List Ir.Field}
    {params temps : List Ir.Field} (h : LaidOut p a s id entries fields slots) :
    Ir.HasTy s.ir params temps (.global id) (headerField id).ty := by
  obtain ⟨name, hvtable⟩ := h.vtable
  obtain ⟨name', hglobal⟩ := h.vtableGlobal
  exact Ir.hasTy_global.2
    ⟨⟨_, hglobal, rfl⟩, Ir.Ty.within_struct.2 (List.getElem?_eq_some_iff.1 hvtable).1⟩

/-- The classes in `done` are laid out, the others declared. -/
structure LaysOut (p : Program) (a : Analysis) (done : List ClassId) (s : Session) : Prop where
  typed : s.Typed p a
  apart : s.Apart p
  methods : ∀ (id : ClassId) c, p.classes[id]? = some c → ∀ (index : Nat) m,
    c.methods[index]? = some m → HasMethodProc p a s c ⟨id, index⟩ m
  declared : ∀ id c, id ∉ done → p.classes[id]? = some c → ClassDeclared s id c
  laid : ∀ id ∈ done, ∃ entries fields slots, LaidOut p a s id entries fields slots
  fieldSlots : ∀ ref, ref.class_ ∉ done → s.fieldSlots.get? ref = none

/-- **What a class inherits**: the fields and the entries of its superclass. -/
theorem yields_inheritedLayout (hclasses : a.classes.Describes p) {done : List ClassId}
    (hs : LaysOut p a done s) (hsuper : ∀ b, p.superOf id = some b → b ∈ done) :
    Yields (inheritedLayout a id) s fun r s' => s' = s ∧
      List.Forall₂ (FieldFor p a s) ((p.superOf id).elim [] p.fieldRefs) r.1 ∧
      r.2.map (·.1) = (p.superOf id).elim [] p.slotNames ∧
      (∀ e ∈ r.2, ∃ b ref, p.superOf id = some b ∧ p.methodRef? b e.1 = some ref ∧
        s.methodProcs.get? ref = some e.2) ∧
      ∀ i ref, ((p.superOf id).elim [] p.fieldRefs)[i]? = some ref →
        s.fieldSlots.get? ref = some (i + 1) := by
  unfold inheritedLayout
  rw [hclasses.superclass]
  cases hb : p.superOf id with
  | none => exact .pure ⟨rfl, .nil, rfl, by simp, by simp⟩
  | some b =>
    obtain ⟨entries, fields, slots, hlaid⟩ := hs.laid b (hsuper b hb)
    obtain ⟨c, -, hlayout⟩ := hlaid.layout
    obtain ⟨name, hinstance⟩ := hlaid.instance_
    dsimp only
    refine (yields_classLayout (P := fun l s' => l = ⟨c.name, 2 * b, 2 * b + 1, b, entries⟩ ∧
      s' = s) hlayout ⟨rfl, rfl⟩).bind fun l s₁ h => ?_
    obtain ⟨rfl, rfl⟩ := h
    refine .get_bind (.lift_bind (ofIr_ok (find_ok hinstance)) (.pure ⟨rfl, ?_⟩))
    exact ⟨hlaid.fields, hlaid.names, fun e he => by
      obtain ⟨ref, href, hproc⟩ := hlaid.procs e he
      exact ⟨b, ref, rfl, href, hproc⟩, hlaid.fieldSlots⟩

/-- The session with the layout of another class. -/
def Session.withLayout (s : Session) (id : ClassId) (c : ClassDecl)
    (entries : List (String × ProcId)) (fields slots : List Ir.Field) : Session :=
  { s with
    ir := { s.ir with
      structs := (s.ir.structs.set (2 * id) ⟨"class_" ++ c.name, headerField id :: fields⟩).set
        (2 * id + 1) ⟨"vtable_" ++ c.name, slots⟩
      globals := s.ir.globals.set id ⟨"_vtable_" ++ c.name, .struct (2 * id + 1), true,
        .struct (2 * id + 1) (entries.map fun (_, proc) => .proc proc)⟩ }
    classes := s.classes.set id ⟨c.name, 2 * id, 2 * id + 1, id, entries⟩ }

theorem ClassDeclared.grows {c : ClassDecl} (h : ClassDeclared s id c)
    (entries : List (String × ProcId)) (fields slots : List Ir.Field) :
    s.Grows (s.withLayout id c entries fields slots) := by
  refine ⟨⟨fun i decl hi hne => ?_, by simp [Session.withLayout], fun i g hi => ?_,
    fun _ proc h => ⟨proc.temps, proc.blocks, h⟩⟩, fun i layout hi => ?_,
    by simp [Session.withLayout], by simp [Session.withLayout], .refl _, .refl _, List.prefix_rfl, .refl _, .refl _, .refl _⟩
  · have hinstance : 2 * id ≠ i := fun heq => hne <| by
      have := h.instance_
      rw [heq, hi] at this
      rw [Option.some.inj this]
    have hvtable : 2 * id + 1 ≠ i := fun heq => hne <| by
      have := h.vtable
      rw [heq, hi] at this
      rw [Option.some.inj this]
    rw [Session.withLayout, List.getElem?_set_ne hvtable, List.getElem?_set_ne hinstance, hi]
  · by_cases heq : id = i
    · subst heq
      obtain rfl := Option.some.inj (h.vtableGlobal.symm.trans hi)
      obtain ⟨hlt, -⟩ := List.getElem?_eq_some_iff.1 hi
      exact ⟨_, List.getElem?_set_self hlt, rfl⟩
    · exact ⟨g, by rw [Session.withLayout, List.getElem?_set_ne heq, hi], rfl⟩
  · by_cases heq : id = i
    · subst heq
      obtain rfl := Option.some.inj (h.layout.symm.trans hi)
      obtain ⟨hlt, -⟩ := List.getElem?_eq_some_iff.1 hi
      exact ⟨entries, by simp [Session.withLayout, hlt]⟩
    · exact ⟨layout.entries, by rw [Session.withLayout, List.getElem?_set_ne heq, hi]⟩

/-- What the layout puts in place. -/
theorem ClassDeclared.withLayout_self {c : ClassDecl} (h : ClassDeclared s id c)
    (entries : List (String × ProcId)) (fields slots : List Ir.Field) :
    (s.withLayout id c entries fields slots).ir.structs[2 * id]? =
        some ⟨"class_" ++ c.name, headerField id :: fields⟩ ∧
      (s.withLayout id c entries fields slots).ir.structs[2 * id + 1]? =
        some ⟨"vtable_" ++ c.name, slots⟩ ∧
      (s.withLayout id c entries fields slots).ir.globals[id]? =
        some ⟨"_vtable_" ++ c.name, .struct (2 * id + 1), true,
          .struct (2 * id + 1) (entries.map fun (_, proc) => .proc proc)⟩ := by
  refine ⟨?_, List.getElem?_set_self ?_, List.getElem?_set_self ?_⟩
  · rw [Session.withLayout, List.getElem?_set_ne (by omega)]
    exact List.getElem?_set_self (List.getElem?_eq_some_iff.1 h.instance_).1
  · rw [List.length_set]
    exact (List.getElem?_eq_some_iff.1 h.vtable).1
  · exact (List.getElem?_eq_some_iff.1 h.vtableGlobal).1

theorem ClassDeclared.extends_ {c : ClassDecl} (h : ClassDeclared s id c) (hs : s.Extends s') :
    ClassDeclared s' id c :=
  ⟨by rw [hs.classes, h.layout], getElem?_of_initial hs.structs h.instance_,
    getElem?_of_initial hs.structs h.vtable, by rw [hs.globals, h.vtableGlobal]⟩

section WithLayout

variable {c : ClassDecl} {entries : List (String × ProcId)} {fields slots : List Ir.Field}
variable {other : ClassId}

/-- **Types stay in order** when a class is laid out. -/
theorem ClassDeclared.typed (h : ClassDeclared s id c) (hs : s.Typed p a)
    (hfields : ∀ f ∈ fields, f.ty.Within s.ir) (hslots : List.Forall₂ (SlotFor s) entries slots) :
    (s.withLayout id c entries fields slots).ir.Typed := by
  have hgrows := (h.grows entries fields slots).ir
  have hvtable : 2 * id + 1 < (s.withLayout id c entries fields slots).ir.structs.length :=
    Nat.lt_of_lt_of_le (List.getElem?_eq_some_iff.1 h.vtable).1 hgrows.structCount
  refine hs.ir.mono hgrows (fun decl hdecl => ?_) (fun g hg => ?_) fun _ => .inl
  · rcases List.mem_or_eq_of_mem_set hdecl with hdecl | rfl
    · rcases List.mem_or_eq_of_mem_set hdecl with hdecl | rfl
      · exact .inl hdecl
      · exact .inr (List.forall_mem_cons.2 ⟨Ir.Ty.within_struct.2 hvtable,
          fun f hf => hgrows.within (hfields f hf)⟩)
    · refine .inr fun f hf => ?_
      obtain ⟨i, hi⟩ := List.mem_iff_getElem?.1 hf
      obtain ⟨e, -, hslot⟩ := getElem?_of_forall₂ (R := flip (SlotFor s)) hslots.flip hi
      obtain ⟨proc, hproc, hty⟩ := hslot.ty
      rw [hty]
      exact hgrows.within (hs.ir.procs proc (List.mem_of_getElem? hproc)).signature
  · rcases List.mem_or_eq_of_mem_set hg with hg | rfl
    · exact .inl hg
    · refine .inr ⟨Ir.Ty.within_struct.2 hvtable, .struct hvtable fun const hconst => ?_⟩
      obtain ⟨e, he, rfl⟩ := List.mem_map.1 hconst
      obtain ⟨i, hi⟩ := List.mem_iff_getElem?.1 he
      obtain ⟨field, -, hslot⟩ := getElem?_of_forall₂ hslots hi
      obtain ⟨proc, hproc, -⟩ := hslot.ty
      exact .proc (List.getElem?_eq_some_iff.1 hproc).1

theorem Session.withLayout_structs (hne : id ≠ other) :
    (s.withLayout id c entries fields slots).ir.structs[2 * other]? = s.ir.structs[2 * other]? ∧
      (s.withLayout id c entries fields slots).ir.structs[2 * other + 1]? =
        s.ir.structs[2 * other + 1]? := by
  have hne : ∀ i j : Nat, i ≠ j → 2 * i ≠ 2 * j ∧ 2 * i + 1 ≠ 2 * j ∧ 2 * i ≠ 2 * j + 1 ∧
      2 * i + 1 ≠ 2 * j + 1 := by omega
  obtain ⟨h₀₀, h₁₀, h₀₁, h₁₁⟩ := hne id other ‹_›
  rw [Session.withLayout, List.getElem?_set_ne h₁₀, List.getElem?_set_ne h₀₀,
    List.getElem?_set_ne h₁₁, List.getElem?_set_ne h₀₁]
  exact ⟨rfl, rfl⟩

theorem ClassDeclared.withLayout {d : ClassDecl} (h : ClassDeclared s other d) (hne : id ≠ other) :
    ClassDeclared (s.withLayout id c entries fields slots) other d := by
  have hstructs : (s.withLayout id c entries fields slots).ir.structs[2 * other]? = _ ∧
      (s.withLayout id c entries fields slots).ir.structs[2 * other + 1]? = _ :=
    Session.withLayout_structs hne
  exact ⟨by rw [← h.layout]; exact List.getElem?_set_ne hne, hstructs.1.trans h.instance_,
    hstructs.2.trans h.vtable, by rw [← h.vtableGlobal]; exact List.getElem?_set_ne hne⟩

theorem LaidOut.withLayout {entries' : List (String × ProcId)} {fields' slots' : List Ir.Field}
    (h : LaidOut p a s other entries' fields' slots') (hne : id ≠ other)
    (hs : s.Grows (s.withLayout id c entries fields slots)) :
    LaidOut p a (s.withLayout id c entries fields slots) other entries' fields' slots' :=
  h.mono hs (List.getElem?_set_ne hne) (Session.withLayout_structs hne).2 (List.getElem?_set_ne hne)

/-- **The layout that is written down** is the layout of the class. -/
theorem ClassDeclared.laidOut (h : ClassDeclared s id c) (hc : p.classes[id]? = some c)
    (hfields : List.Forall₂ (FieldFor p a s) (p.fieldRefs id) fields)
    (hplaces : ∀ (i : Nat) ref, (p.fieldRefs id)[i]? = some ref →
      s.fieldSlots.get? ref = some (i + 1))
    (hnames : entries.map (·.1) = p.slotNames id)
    (hprocs : ∀ e ∈ entries, ∃ ref, p.methodRef? id e.1 = some ref ∧
      s.methodProcs.get? ref = some e.2)
    (hslots : List.Forall₂ (SlotFor s) entries slots) :
    LaidOut p a (s.withLayout id c entries fields slots) id entries fields slots := by
  have hgrows := h.grows entries fields slots
  obtain ⟨hinstance, hvtable, hglobal⟩ := h.withLayout_self entries fields slots
  refine ⟨⟨c, hc, List.getElem?_set_self (List.getElem?_eq_some_iff.1 h.layout).1⟩,
    ⟨_, hinstance⟩, ⟨_, hvtable⟩, ⟨_, hglobal⟩, hfields.imp fun _ _ h => h.mono hgrows, hplaces,
    hnames, hprocs, hslots.imp fun _ _ h => h.mono hgrows, fun c' hc' => ?_⟩
  obtain rfl := Option.some.inj (hc.symm.trans hc')
  exact ⟨by rw [hinstance, Option.map_some], by rw [hvtable, Option.map_some],
    by rw [hglobal, Option.map_some]⟩

/-- One class more is laid out. -/
theorem LaysOut.withLayout {done : List ClassId} (hs : LaysOut p a done s) {s₁ : Session}
    (hext : s.Extends s₁) (hgrows : s₁.Grows (s₁.withLayout id c entries fields slots))
    (htyped : (s₁.withLayout id c entries fields slots).Typed p a)
    (hapart : (s₁.withLayout id c entries fields slots).Apart p) (hnew : id ∉ done)
    (hother : ∀ ref : MemberRef, ref.class_ ≠ id →
      s₁.fieldSlots.get? ref = s.fieldSlots.get? ref)
    (hlaid : LaidOut p a (s₁.withLayout id c entries fields slots) id entries fields slots) :
    LaysOut p a (id :: done) (s₁.withLayout id c entries fields slots) where
  typed := htyped
  apart := hapart
  methods other d hd index m hm := (hs.methods other d hd index m hm).mono (hext.grows.trans hgrows)
  declared other d hout hd := by
    rw [List.mem_cons, not_or] at hout
    exact ((hs.declared other d hout.2 hd).extends_ hext).withLayout (Ne.symm hout.1)
  laid other hmem := by
    rcases List.mem_cons.1 hmem with rfl | hmem
    · exact ⟨entries, fields, slots, hlaid⟩
    · obtain ⟨entries', fields', slots', hlaid'⟩ := hs.laid other hmem
      exact ⟨entries', fields', slots', (hlaid'.extends_ hext).withLayout
        (fun heq => hnew (heq ▸ hmem)) hgrows⟩
  fieldSlots ref href := by
    rw [List.mem_cons, not_or] at href
    exact (hother ref href.1).trans (hs.fieldSlots ref href.2)

end WithLayout

/-- The end of laying out a class: its structs, its vtable and its layout are
written down. -/
def writeLayout (id : ClassId) (fields slots : List Ir.Field)
    (entries : List (String × ProcId)) : Build Unit := do
  let layout ← classLayout id
  modifyIr (·.setFields layout.instance_ (⟨"_vtable", .ptr (.struct layout.vtable)⟩ :: fields))
  modifyIr (·.setFields layout.vtable slots)
  let init := Ir.Const.struct layout.vtable (entries.map fun (_, proc) => .proc proc)
  modifyIr (·.setInit layout.vtableGlobal init)
  modify fun s => { s with classes := s.classes.set id { layout with entries := entries } }

theorem layOutClass_eq (a : Analysis) (id : ClassId) (c : ClassDecl) : layOutClass a id c = (do
    let (inherited, entries) ← inheritedLayout a id
    let own ← layOutFields a id (inherited.length + 1) c.fields.zipIdx
    let entries ← layOutMethods id c.methods.zipIdx entries
    let slots ← vtableFields entries
    writeLayout id (inherited ++ own) slots entries) :=
  rfl

theorem yields_writeLayout {c : ClassDecl} (h : ClassDeclared s id c) (fields slots : List Ir.Field)
    (entries : List (String × ProcId)) :
    Yields (writeLayout id fields slots entries) s fun _ s' =>
      s' = s.withLayout id c entries fields slots := by
  refine (yields_classLayout (P := fun l s' => l = ⟨c.name, 2 * id, 2 * id + 1, id, []⟩ ∧
    s' = s) h.layout ⟨rfl, rfl⟩).bind fun l s' heq => ?_
  obtain ⟨rfl, rfl⟩ := heq
  have hvtable : (s'.ir.structs.set (2 * id) ⟨"class_" ++ c.name,
      headerField id :: fields⟩)[2 * id + 1]? = some ⟨"vtable_" ++ c.name, []⟩ := by
    rw [List.getElem?_set_ne (by omega), h.vtable]
  have hinit (structs : List Ir.StructDef) (procs : List Ir.Proc) (init : Ir.Const) :
      (⟨structs, s'.ir.globals, procs⟩ : Ir.Program).setInit id init =
        .ok ⟨structs, s'.ir.globals.set id
          ⟨"_vtable_" ++ c.name, .struct (2 * id + 1), true, init⟩, procs⟩ :=
    setInit_ok (p := ⟨structs, s'.ir.globals, procs⟩) h.vtableGlobal init
  refine (yields_modifyIr (P := fun _ t => t = _) (setFields_ok h.instance_ _) rfl).bind
    fun _ t₁ h₁ => ?_
  subst h₁
  refine (yields_modifyIr (P := fun _ t => t = _) (setFields_ok hvtable _) rfl).bind
    fun _ t₂ h₂ => ?_
  subst h₂
  refine (yields_modifyIr (P := fun _ t => t = _) (hinit _ _ _) rfl).bind fun _ t₃ h₃ => ?_
  subst h₃
  exact .modify_last rfl

/-- The nearest method of an entry: the own one, or that from above. -/
theorem methodRef?_of_entry (hp : p.SoundClasses) {c : ClassDecl} (hc : p.classes[id]? = some c)
    {name : String} {proc : ProcId} {methodProcs : Table MemberRef ProcId}
    (h : (∃ index m, c.methods[index]? = some m ∧ m.name = name ∧
        methodProcs.get? ⟨id, index⟩ = some proc) ∨
      (∃ b ref, p.superOf id = some b ∧ p.methodRef? b name = some ref ∧
        methodProcs.get? ref = some proc) ∧ name ∉ c.methods.map (·.name)) :
    ∃ ref, p.methodRef? id name = some ref ∧ methodProcs.get? ref = some proc := by
  obtain ⟨hid, hget⟩ := List.getElem?_eq_some_iff.1 hc
  rw [Source.Program.methodRef?, Source.Program.memberRef?_eq hp.hierarchy.acyclic _ hid,
    Source.Program.ownMember?, hc, Option.bind_some]
  rcases h with ⟨index, m, hm, hname, hproc⟩ | ⟨⟨b, ref, hb, href, hproc⟩, hnot⟩
  · have hidx : (c.methods.map (·.name)).idxOf? name = some index :=
      idxOf?_eq_of_nodup (hp.methods c (hget ▸ List.getElem_mem hid))
        (by rw [List.getElem?_map, hm, Option.map_some, hname])
    rw [hidx]
    exact ⟨⟨id, index⟩, by simp, hproc⟩
  · rw [List.idxOf?_eq_none_iff.2 hnot, hb]
    exact ⟨ref, by simpa [Source.Program.methodRef?] using href, hproc⟩

/-- **The places of the fields of a class**: those from above keep theirs, and its
own fields get the next. -/
theorem place_of_fieldRef (hp : p.SoundClasses) {c : ClassDecl} (hc : p.classes[id]? = some c)
    {slots : Table MemberRef Nat}
    (habove : ∀ (i : Nat) ref, ((p.superOf id).elim [] p.fieldRefs)[i]? = some ref →
      slots.get? ref = some (i + 1))
    (hown : ∀ index, index < c.fields.length → slots.get? ⟨id, index⟩ =
      some (((p.superOf id).elim [] p.fieldRefs).length + 1 + index))
    (i : Nat) {ref : MemberRef} (href : (p.fieldRefs id)[i]? = some ref) :
    slots.get? ref = some (i + 1) := by
  obtain ⟨hid, -⟩ := List.getElem?_eq_some_iff.1 hc
  rw [Source.Program.fieldRefs_eq hp.hierarchy.acyclic hid] at href
  rcases Nat.lt_or_ge i ((p.superOf id).elim [] p.fieldRefs).length with hi | hi
  · rw [List.getElem?_append_left hi] at href
    exact habove i ref href
  · rw [List.getElem?_append_right hi, Source.Program.ownFields, hc, Option.map_some,
      Option.getD_some, List.getElem?_map, Option.map_eq_some_iff] at href
    obtain ⟨index, hindex, rfl⟩ := href
    obtain ⟨hlt, rfl⟩ := List.getElem?_eq_some_iff.1 hindex
    rw [List.length_range] at hlt
    refine (hown _ (by simpa using hlt)).trans ?_
    simp
    omega

/-- **A class behind its superclass is laid out.** -/
theorem yields_layOutClass (ht : TableOk p a.findings.table) (hclasses : a.classes.Describes p)
    (hp : p.SoundClasses) {done : List ClassId} (hs : LaysOut p a done s) {c : ClassDecl}
    (hc : p.classes[id]? = some c) (hnew : id ∉ done)
    (hsuper : ∀ b, p.superOf id = some b → b ∈ done)
    (hfields : ∀ field ∈ c.fields, Typing.Interned p a.findings field.ty) :
    Yields (layOutClass a id c) s fun _ s' => s.Grows s' ∧ s.SameAllocators s' ∧
      s'.functionProcs = s.functionProcs ∧ LaysOut p a (id :: done) s' := by
  obtain ⟨hid, -⟩ := List.getElem?_eq_some_iff.1 hc
  rw [layOutClass_eq]
  refine (yields_inheritedLayout hclasses hs hsuper).bind
    fun r s₀ h => ?_
  obtain ⟨hs₀, hinherited, hnames, hprocs, hslots⟩ := h
  obtain ⟨inherited, above⟩ := r
  subst hs₀
  dsimp only at hinherited hnames hprocs
  have hdecl (index : Nat) : fieldDecl? p ⟨id, 0 + index⟩ = c.fields[index]? := by
    rw [Nat.zero_add, fieldDecl?, hc, Option.bind_some]
  refine (yields_layOutFields ht hclasses.lookup hs.typed id (inherited.length + 1) 0 hdecl hfields
    fun index _ => hs.fieldSlots _ hnew).bind fun own s₁ h => ?_
  obtain ⟨hext, hsame, htyped, hmethods, hfunctions, hprocs₁, hother, hown, hfields₁⟩ := h
  have hnodup : (above.map (·.1)).Nodup := by
    rw [hnames]
    cases p.superOf id with
    | none => exact List.nodup_nil
    | some b => exact Source.Program.nodup_slotNames b
  have hmethodProcs (index : Nat) (hindex : index < c.methods.length) :
      ∃ proc, s₁.methodProcs.get? ⟨id, 0 + index⟩ = some proc := by
    obtain ⟨proc, hget, -⟩ := hs.methods id c hc index _ (List.getElem?_eq_getElem hindex)
    exact ⟨proc, by rw [hmethods, Nat.zero_add, hget]⟩
  refine (yields_layOutMethods id 0 hnodup hmethodProcs).bind
    fun entries s₂ h => ?_
  obtain ⟨hs₂, hnames', hentries⟩ := h
  subst hs₂
  -- Every entry is the procedure of the nearest method.
  have hnearest : ∀ e ∈ entries, ∃ ref, p.methodRef? id e.1 = some ref ∧
      s₂.methodProcs.get? ref = some e.2 := by
    intro e he
    refine methodRef?_of_entry hp hc ?_
    rcases hentries e he with ⟨index, m, hm, hname, hget⟩ | ⟨hmem, hnot⟩
    · exact .inl ⟨index, m, hm, hname, by rw [← hget, Nat.zero_add]⟩
    · obtain ⟨b, ref, hb, href, hget⟩ := hprocs e hmem
      exact .inr ⟨⟨b, ref, hb, href, by rw [hmethods, hget]⟩, hnot⟩
  have hdefined : ∀ e ∈ entries, ∃ proc, s₂.ir.procs[e.2]? = some proc := by
    intro e he
    obtain ⟨ref, -, hget⟩ := hnearest e he
    rw [hmethods] at hget
    exact ⟨_, by rw [hprocs₁]; exact List.getElem?_eq_getElem (hs.apart.boundedMethods ref _ hget)⟩
  refine (yields_vtableFields hdefined).bind fun slots s₃ h => ?_
  obtain ⟨hs₃, hslots₁⟩ := h
  subst hs₃
  have hdeclared : ClassDeclared s₃ id c := (hs.declared id c hnew hc).extends_ hext
  refine (yields_writeLayout hdeclared (inherited ++ own) slots entries).mono fun _ s₄ heq => ?_
  subst heq
  have hgrows := hdeclared.grows entries (inherited ++ own) slots
  have habove := hinherited.imp fun _ _ h => h.mono hext.grows
  have hwithin : ∀ f ∈ inherited ++ own, f.ty.Within s₃.ir :=
    List.forall_mem_append.2 ⟨FieldFor.within htyped habove, FieldFor.within htyped hfields₁⟩
  have hall : List.Forall₂ (FieldFor p a s₃) (p.fieldRefs id) (inherited ++ own) := by
    rw [Source.Program.fieldRefs_eq hp.hierarchy.acyclic hid, Source.Program.ownFields, hc]
    exact List.rel_append habove (by simpa using hfields₁)
  have hlaid := hdeclared.laidOut hc hall
    (fun i ref => place_of_fieldRef hp hc (fun i ref h => hext.fieldSlots _ _ (hslots i ref h))
      (fun index hindex => by simpa [hinherited.length_eq] using hown index hindex) i)
    (by rw [hnames', hnames, Source.Program.slotNames_eq hp.hierarchy.acyclic hid,
      Source.Program.ownMethodNames, hc]; rfl) hnearest hslots₁
  refine ⟨hext.grows.trans hgrows, ⟨hsame.classes, hsame.arrays⟩, hfunctions,
    hs.withLayout hext hgrows ?_ ?_ hnew hother hlaid⟩
  · exact htyped.mono hgrows (hdeclared.typed htyped hwithin hslots₁)
      (by simp [Session.withLayout]) rfl
  · exact hs.apart.of_procs hprocs₁ ⟨hsame.classes, hsame.arrays⟩ hfunctions hmethods

theorem yields_layOutEach (ht : TableOk p a.findings.table) (hclasses : a.classes.Describes p)
    (hp : p.SoundClasses)
    (hfields : ∀ c ∈ p.classes, ∀ field ∈ c.fields, Typing.Interned p a.findings field.ty)
    {done order : List ClassId} (horder : LayOrder p done order) (hs : LaysOut p a done s) :
    Yields (layOutEach a p order) s fun _ s' => s.Grows s' ∧ s.SameAllocators s' ∧
      s'.functionProcs = s.functionProcs ∧ LaysOut p a (order.reverse ++ done) s' := by
  induction horder generalizing s with
  | nil => exact .pure ⟨.refl s, .refl s, rfl, hs⟩
  | @cons done id rest hid hnew hsuper _ ih =>
    have hc : p.classes[id]? = some p.classes[id] := List.getElem?_eq_getElem hid
    rw [layOutEach, hc]
    refine (yields_layOutClass ht hclasses hp hs hc hnew hsuper
      (hfields _ (List.getElem_mem hid))).bind fun _ s₁ ⟨hgrows₁, hsame₁, hfunctions₁, hs₁⟩ => ?_
    refine (ih hs₁).mono fun _ s' ⟨hgrows', hsame', hfunctions', hs'⟩ => ?_
    rw [List.reverse_cons, List.append_assoc]
    exact ⟨hgrows₁.trans hgrows', hsame₁.trans hsame', hfunctions'.trans hfunctions₁, hs'⟩

/-- **All classes are laid out.** -/
theorem yields_layOutClasses (ht : TableOk p a.findings.table) (hclasses : a.classes.Describes p)
    (hp : p.SoundClasses)
    (hfields : ∀ c ∈ p.classes, ∀ field ∈ c.fields, Typing.Interned p a.findings field.ty)
    (hs : LaysOut p a [] s) :
    Yields (layOutClasses a p) s fun _ s' => s.Grows s' ∧ s.SameAllocators s' ∧
      s'.functionProcs = s.functionProcs ∧
        ∃ order, LaysOut p a order s' ∧ ∀ id < p.classes.length, id ∈ order := by
  obtain ⟨order, hrun, horder, hall⟩ := classOrder_eq hclasses hp.hierarchy.acyclic
  refine .lift_bind hrun <| (yields_layOutEach ht hclasses hp hfields horder hs).mono
    fun _ s' ⟨hgrows, hsame, hfunctions, hs'⟩ => ⟨hgrows, hsame, hfunctions, _, hs', fun id hid => ?_⟩
  exact List.mem_append_left _ (List.mem_reverse.2 (hall id hid))

end Classes

end ClassLang.Lowering
