import ClassLang.Proofs.Ir.Placement
import ClassLang.Proofs.Lowering.Guarantees
/-!
# Lowering — the objects of a class and of the classes above it

An object of a class starts like an object of any class above it: behind
the header the same fields stand at the same offsets
(`Session.Complete.startsLike`). Every field declaration has a slot of its
own in the objects of all classes that inherit it, whether it is hidden
there or not (`Session.Complete.keepsFields`).
-/


namespace ClassLang

open Source (Program ClassDecl VarDecl)
open Typing (Analysis)

namespace Lowering

/-- **The objects of one class start like those of another**: the header is a
pointer in both, and behind it the fields of the other stand at the same
offsets. -/
structure StartsLike (ir : Ir.Program) (layout upper : ClassLayout) : Prop where
  structs : ∃ decl upperDecl, ir.structs[layout.instance_]? = some decl ∧
    ir.structs[upper.instance_]? = some upperDecl ∧
    decl.fields[0]? = some ⟨"_vtable", .ptr (.struct layout.vtable)⟩ ∧
    upperDecl.fields[0]? = some ⟨"_vtable", .ptr (.struct upper.vtable)⟩ ∧
    (∀ i field, 0 < i → upperDecl.fields[i]? = some field → decl.fields[i]? = some field) ∧
    ∀ i < upperDecl.fields.length,
      ir.fieldOffset layout.instance_ i = ir.fieldOffset upper.instance_ i

/-- **The objects of a class hold every field that is declared in the class or
above it**, under its name and with its type, each in a slot of its own. -/
structure KeepsFields (p : Program) (a : Analysis) (s : Session) (id : ClassId)
    (layout : ClassLayout) : Prop where
  slot : ∃ decl, s.ir.structs[layout.instance_]? = some decl ∧
    ∀ ref var, p.Inherits id ref.class_ → fieldDecl? p ref = some var →
      ∃ slot field, s.fieldSlots.get? ref = some slot ∧ 0 < slot ∧ decl.fields[slot]? = some field ∧
        field.name = var.name ∧ Represents p a s var.ty field.ty
  apart : ∀ ref ref' var var' slot, p.Inherits id ref.class_ → fieldDecl? p ref = some var →
    p.Inherits id ref'.class_ → fieldDecl? p ref' = some var' →
    s.fieldSlots.get? ref = some slot → s.fieldSlots.get? ref' = some slot → ref = ref'

section Complete

variable {p : Program} {printName : String} {a : Analysis} {s : Session}
variable {id : ClassId} {entries entries' : List (String × Ir.ProcId)}
variable {fields slots fields' slots' : List Ir.Field} {ref : MemberRef}

/-- A declaration has one field. -/
theorem FieldFor.unique (ht : Typing.TableOk p a.findings.table) {field field' : Ir.Field}
    (h : FieldFor p a s ref field) (h' : FieldFor p a s ref field') : field = field' := by
  obtain ⟨var, hvar, hty⟩ := h.decl
  obtain ⟨var', hvar', hty'⟩ := h'.decl
  obtain rfl := Option.some.inj (hvar.symm.trans hvar')
  obtain ⟨name, ty⟩ := field
  obtain ⟨name', ty'⟩ := field'
  obtain rfl : ty = ty' := hty.unique ht hty'
  obtain rfl : name = name' := (h.name var hvar).trans (h'.name var hvar').symm
  rfl

/-- **The fields of a class start with those of the classes above it.** -/
theorem LaidOut.fields_prefix (ha : Supports p printName a) {above : ClassId}
    (h : LaidOut p a s id entries fields slots) (h' : LaidOut p a s above entries' fields' slots')
    (hup : p.Inherits id above) : fields' <+: fields := by
  have hrefs := Program.fieldRefs_of_inherits ha.sound.hierarchy.acyclic hup
  have hlength : fields'.length ≤ fields.length := by
    rw [← h.fields.length_eq, ← h'.fields.length_eq]
    exact hrefs.length_le
  refine List.prefix_iff_getElem?.2 fun i hi => ?_
  obtain ⟨ref, href, hfor'⟩ := getElem?_of_forall₂ (R := flip (FieldFor p a s)) h'.fields.flip
    (List.getElem?_eq_getElem hi)
  obtain ⟨field, hfield, hfor⟩ := getElem?_of_forall₂ h.fields (getElem?_of_initial hrefs href)
  rw [hfield, hfor.unique ha.covers.table hfor']

/-- **An object starts like one of a class above.** -/
theorem Session.Complete.startsLike (hs : s.Complete p printName a) (ha : Supports p printName a)
    {above : ClassId} (hup : p.Inherits id above) (hid : id < p.classes.length)
    {layout upper : ClassLayout} (hlayout : s.classes[id]? = some layout)
    (hupper : s.classes[above]? = some upper) : StartsLike s.ir layout upper := by
  have habove : above < p.classes.length :=
    hs.ready.typed.size ▸ (List.getElem?_eq_some_iff.1 hupper).1
  obtain ⟨_, fields, _, h⟩ := hs.ready.laid id hid
  obtain ⟨_, fields', _, h'⟩ := hs.ready.laid above habove
  obtain ⟨_, -, hlayout'⟩ := h.layout
  obtain ⟨_, -, hupper'⟩ := h'.layout
  obtain rfl := Option.some.inj (hlayout'.symm.trans hlayout)
  obtain rfl := Option.some.inj (hupper'.symm.trans hupper)
  obtain ⟨_, hinstance⟩ := h.instance_
  obtain ⟨_, hinstance'⟩ := h'.instance_
  have hfields := h.fields_prefix ha h' hup
  refine ⟨_, _, hinstance, hinstance', rfl, rfl, fun i field hi hfield => ?_, fun i hi => ?_⟩
  · obtain ⟨i, rfl⟩ := Nat.exists_eq_add_one_of_ne_zero (Nat.ne_of_gt hi)
    have hfield : fields'[i]? = some field := hfield
    show fields[i]? = some field
    exact getElem?_of_initial hfields hfield
  · -- The headers point to different vtables, but they are pointers of one size.
    refine Ir.fieldOffset_congr hinstance hinstance' ?_ hi
    exact List.cons_prefix_cons.2 ⟨rfl, hfields.map _⟩

/-- **Every field keeps its slot**, in every class that inherits it. -/
theorem Session.Complete.keepsFields (hs : s.Complete p printName a) (ha : Supports p printName a)
    (hid : id < p.classes.length) {layout : ClassLayout} (hlayout : s.classes[id]? = some layout) :
    KeepsFields p a s id layout := by
  have hacyclic := ha.sound.hierarchy.acyclic
  obtain ⟨_, fields, _, h⟩ := hs.ready.laid id hid
  obtain ⟨_, -, hlayout'⟩ := h.layout
  obtain rfl := Option.some.inj (hlayout'.symm.trans hlayout)
  obtain ⟨_, hinstance⟩ := h.instance_
  have hplace {ref : MemberRef} {var : VarDecl} (hup : p.Inherits id ref.class_)
      (hvar : fieldDecl? p ref = some var) : ∃ i, (p.fieldRefs id)[i]? = some ref :=
    List.mem_iff_getElem?.1 ((Program.mem_fieldRefs hacyclic hid).2 ⟨hup, var, hvar⟩)
  refine ⟨⟨_, hinstance, fun ref var hup hvar => ?_⟩,
    fun ref ref' var var' slot hup hvar hup' hvar' hslot hslot' => ?_⟩
  · obtain ⟨i, hi⟩ := hplace hup hvar
    obtain ⟨field, hfield, hfor⟩ := getElem?_of_forall₂ h.fields hi
    obtain ⟨var', hvar', hty⟩ := hfor.decl
    obtain rfl := Option.some.inj (hvar.symm.trans hvar')
    exact ⟨i + 1, field, h.fieldSlots i ref hi, Nat.zero_lt_succ i, hfield, hfor.name var hvar, hty⟩
  · obtain ⟨i, hi⟩ := hplace hup hvar
    obtain ⟨j, hj⟩ := hplace hup' hvar'
    have hij : i + 1 = j + 1 := Option.some.inj <|
      ((h.fieldSlots i ref hi).symm.trans hslot).trans ((h.fieldSlots j ref' hj).symm.trans hslot').symm
    rw [Nat.succ.inj hij, hj] at hi
    exact (Option.some.inj hi).symm

end Complete

/-- **Objects of a subclass are objects of its superclasses, and more**: they
start like them, and every field declaration, hidden or not, has its own slot
in all of them. -/
theorem Accepted.lowered_objects {source printName : String} {p : Program}
    (h : Accepted source printName p) (options : Options) :
    ∃ s : Session, (buildProgram (Typing.analyze p ⟨printName⟩) p options).run .start = .ok ((), s) ∧
      lowerProgram (Typing.analyze p ⟨printName⟩) p options = .ok s.ir ∧
      ∀ id < p.classes.length, ∃ layout, s.classes[id]? = some layout ∧
        KeepsFields p (Typing.analyze p ⟨printName⟩) s id layout ∧
        ∀ above, p.Inherits id above → ∃ upper, s.classes[above]? = some upper ∧
          StartsLike s.ir layout upper := by
  obtain ⟨s, hrun, hs, hcomplete⟩ := h.complete options
  have hsize := hcomplete.ready.typed.size
  refine ⟨s, hrun, hs, fun id hid => ?_⟩
  have hlayout : s.classes[id]? = some _ := List.getElem?_eq_getElem (hsize ▸ hid)
  refine ⟨_, hlayout, hcomplete.keepsFields h.supports hid hlayout, fun above hup => ?_⟩
  have hupper : s.classes[above]? = some _ := List.getElem?_eq_getElem (hsize ▸ hup.lt hid)
  exact ⟨_, hupper, hcomplete.startsLike h.supports hup hid hlayout hupper⟩

/-- A class that hides a field of another. -/
def shadowing : String :=
  "class A { int x; } class B extends A { boolean x; B next; } int main() { return 0; }"

set_option maxRecDepth 100000 in
theorem accepted_shadowing : Accepted shadowing "print" (Source.parse shadowing).program := by
  have hrun : (Source.parse shadowing).error? = none ∧
      (Typing.analyze (Source.parse shadowing).program ⟨"print"⟩).ok = true := by
    rw [Source.parse_eq_of_chars shadowing String.toList_ofList]
    decide +kernel
  exact .of_parse hrun.1 (by decide) hrun.2

theorem lowered_objects_shadowing : ∃ s : Session, (buildProgram
    (Typing.analyze (Source.parse shadowing).program ⟨"print"⟩)
    (Source.parse shadowing).program ⟨false⟩).run .start = .ok ((), s) ∧
      lowerProgram (Typing.analyze (Source.parse shadowing).program ⟨"print"⟩)
        (Source.parse shadowing).program ⟨false⟩ = .ok s.ir ∧
      ∀ id < (Source.parse shadowing).program.classes.length, ∃ layout,
        s.classes[id]? = some layout ∧
        KeepsFields (Source.parse shadowing).program
          (Typing.analyze (Source.parse shadowing).program ⟨"print"⟩) s id layout ∧
        ∀ above, (Source.parse shadowing).program.Inherits id above →
          ∃ upper, s.classes[above]? = some upper ∧ StartsLike s.ir layout upper :=
  accepted_shadowing.lowered_objects ⟨false⟩

end Lowering

end ClassLang
