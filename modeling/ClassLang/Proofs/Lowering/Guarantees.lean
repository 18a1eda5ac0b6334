import ClassLang.Proofs.Ir.Ranges
import ClassLang.Proofs.Lowering.Acceptance
/-!
# Lowering — what holds of every lowered program

Lowered programs are typed, vtables included (`Accepted.lowered_typed`), and
formed: every procedure has its body, code leads to blocks that are there,
and every number names something (`Accepted.lowered_formed`). Vtables are
what the analysis says of methods, and a slot stays the same down the
hierarchy (`Accepted.lowered_vtables`).
-/


namespace ClassLang

open Source (Program FunctionDecl ClassDecl)
open Typing (Analysis)
open Ir (Proc ProcId)

/-- The constant of the global has for every field of its struct a procedure,
with the signature that the field says. -/
def Ir.Global.FillsSlots (p : Ir.Program) (g : Ir.Global) : Prop :=
  ∃ struct decl procs, g.ty = .struct struct ∧ p.structs[struct]? = some decl ∧
    g.init = .struct struct (procs.map .proc) ∧
      List.Forall₂ (fun id field => ∃ q, p.procs[id]? = some q ∧ field.ty = q.signature) procs
        decl.fields

namespace Lowering

section Complete

variable {p : Program} {printName : String} {a : Analysis} {s : Session}
variable {id : ClassId} {entries : List (String × ProcId)} {fields slots : List Ir.Field}

theorem LaidOut.fillsSlots (h : LaidOut p a s id entries fields slots) {g : Ir.Global}
    (hg : s.ir.globals[id]? = some g) : g.FillsSlots s.ir := by
  obtain ⟨name, hvtable⟩ := h.vtable
  obtain ⟨name', hglobal⟩ := h.vtableGlobal
  obtain rfl := Option.some.inj (hglobal.symm.trans hg)
  refine ⟨_, _, entries.map (·.2), rfl, hvtable, by simp [Function.comp_def], ?_⟩
  exact List.forall₂_map_left_iff.2 (h.slots.imp fun _ _ hslot => hslot.ty)

/-- Every global is the vtable of a class. -/
theorem Session.Complete.fillsSlots (hs : s.Complete p printName a) {g : Ir.Global}
    (hg : g ∈ s.ir.globals) : g.FillsSlots s.ir := by
  obtain ⟨id, hid⟩ := List.mem_iff_getElem?.1 hg
  have hlt : id < p.classes.length :=
    hs.ready.typed.globals ▸ (List.getElem?_eq_some_iff.1 hid).1
  obtain ⟨entries, fields, slots, hlaid⟩ := hs.ready.laid id hlt
  exact hlaid.fillsSlots hid

/-- **Every procedure has its body**, whatever it was declared for. -/
theorem Session.Complete.formed (hs : s.Complete p printName a) {q : Proc} (hq : q ∈ s.ir.procs) :
    q.Formed ∧ q.Single := by
  obtain ⟨proc, hproc⟩ := List.mem_iff_getElem?.1 hq
  cases hs.ready.apart.known proc (List.getElem?_eq_some_iff.1 hproc).1 with
  | function hf hget =>
    obtain ⟨_, hget', q', hq', hformed, hsingle, -⟩ := hs.functions _ _ hf
    obtain rfl := Option.some.inj (hget.symm.trans hget')
    obtain rfl := Option.some.inj (hproc.symm.trans hq')
    exact ⟨hformed, hsingle⟩
  | method hm hget =>
    obtain ⟨c, hc, hm⟩ := Option.bind_eq_some_iff.1 hm
    obtain ⟨_, hget', q', hq', hformed, hsingle, -⟩ := hs.methods _ _ hc _ _ hm
    obtain rfl := Option.some.inj (hget.symm.trans hget')
    obtain rfl := Option.some.inj (hproc.symm.trans hq')
    exact ⟨hformed, hsingle⟩
  | object hget =>
    obtain ⟨-, -, q', _, hq', -, -, hformed, hsingle, -⟩ := hs.ready.objects _ _ hget
    obtain rfl := Option.some.inj (hproc.symm.trans hq')
    exact ⟨hformed, hsingle⟩
  | array hget =>
    obtain ⟨-, q', _, _, hq', -, -, -, -, hformed, hsingle, -⟩ := hs.ready.arrays _ _ hget
    obtain rfl := Option.some.inj (hproc.symm.trans hq')
    exact ⟨hformed, hsingle⟩

/-! ## Slots -/

/-- The method of a name that the analysis knows of a class. -/
def methodOf (a : Analysis) (id : ClassId) (name : String) : Option MemberRef :=
  (a.classes.info id).bind (·.method? name)

/-- **The vtable of a class is what the analysis says of its methods**: a name
has a slot if there is a method of the name, and the vtable has its
procedure in the slot. The slots are the numbers below that of the
procedures. -/
structure SlotsAgree (a : Analysis) (s : Session) (id : ClassId) (layout : ClassLayout)
    (procs : List ProcId) : Prop where
  vtable : ∃ g, s.ir.globals[layout.vtableGlobal]? = some g ∧
    g.init = .struct layout.vtable (procs.map .proc)
  slot : ∀ name, (layout.slot? name).isSome ↔ (methodOf a id name).isSome
  entry : ∀ name slot ref, layout.slot? name = some slot → methodOf a id name = some ref →
    ∃ proc, procs[slot]? = some proc ∧ s.methodProcs.get? ref = some proc
  below : ∀ slot, slot < procs.length ↔ ∃ name, layout.slot? name = some slot
  distinct : ∀ name name' slot, layout.slot? name = some slot → layout.slot? name' = some slot →
    name = name'

theorem ClassLayout.slot?_eq_some {layout : ClassLayout} (hnodup : (layout.entries.map (·.1)).Nodup)
    {name : String} {slot : Nat} :
    layout.slot? name = some slot ↔ (layout.entries.map (·.1))[slot]? = some name := by
  refine ⟨fun h => ?_, idxOf?_eq_of_nodup hnodup⟩
  obtain ⟨hlt, hname, -⟩ := List.idxOf?_eq_some_iff.1 h
  rw [List.getElem?_eq_getElem hlt, ← hname]

/-- **Slots agree** with the methods of a class that is laid out. -/
theorem LaidOut.slotsAgree (h : LaidOut p a s id entries fields slots)
    (hclasses : a.classes.Describes p) {layout : ClassLayout} (hlayout : s.classes[id]? = some layout) :
    SlotsAgree a s id layout (entries.map (·.2)) := by
  obtain ⟨c, -, hlayout'⟩ := h.layout
  obtain rfl := Option.some.inj (hlayout'.symm.trans hlayout)
  obtain ⟨name, hglobal⟩ := h.vtableGlobal
  have hnodup : (entries.map (·.1)).Nodup := h.names ▸ Program.nodup_slotNames id
  have hslots {name : String} {slot : Nat} :
      (⟨c.name, 2 * id, 2 * id + 1, id, entries⟩ : ClassLayout).slot? name = some slot ↔
        (entries.map (·.1))[slot]? = some name := ClassLayout.slot?_eq_some hnodup
  have hmethod (name : String) : methodOf a id name = p.methodRef? id name := hclasses.method id name
  refine ⟨⟨_, hglobal, by simp [Function.comp_def]⟩, fun name => ?_, fun name slot ref hslot href => ?_,
    fun slot => ?_, fun name name' slot hslot hslot' => ?_⟩
  · rw [hmethod, ← Program.mem_slotNames, ← h.names, ClassLayout.slot?, List.isSome_idxOf?]
  · have hname := hslots.1 hslot
    rw [List.getElem?_map, Option.map_eq_some_iff] at hname
    obtain ⟨e, he, rfl⟩ := hname
    obtain ⟨ref', href', hproc⟩ := h.procs e (List.mem_of_getElem? he)
    obtain rfl := Option.some.inj (href.symm.trans ((hmethod _).trans href'))
    exact ⟨e.2, by rw [List.getElem?_map, he, Option.map_some], hproc⟩
  · simp only [hslots, ← Option.isSome_iff_exists]
    simp
  · exact Option.some.inj ((hslots.1 hslot).symm.trans (hslots.1 hslot'))

/-- **The slots of a class start with those of the classes above it.** -/
theorem Session.Complete.slots_of_inherits (hs : s.Complete p printName a) (hacyclic : p.Acyclic)
    {above : ClassId} (hup : p.Inherits id above) (hid : id < p.classes.length)
    {layout upper : ClassLayout} (hlayout : s.classes[id]? = some layout)
    (hupper : s.classes[above]? = some upper) :
    upper.entries.map (·.1) <+: layout.entries.map (·.1) := by
  have habove : above < p.classes.length :=
    hs.ready.typed.size ▸ (List.getElem?_eq_some_iff.1 hupper).1
  obtain ⟨_, _, _, h⟩ := hs.ready.laid id hid
  obtain ⟨_, _, _, h'⟩ := hs.ready.laid above habove
  obtain ⟨c, -, hlayout'⟩ := h.layout
  obtain ⟨c', -, hupper'⟩ := h'.layout
  obtain rfl := Option.some.inj (hlayout'.symm.trans hlayout)
  obtain rfl := Option.some.inj (hupper'.symm.trans hupper)
  rw [h.names, h'.names]
  exact Program.slotNames_of_inherits hacyclic hup

end Complete

/-! ## Accepted programs -/

namespace Accepted

variable {source printName : String} {p : Program}

/-- **Lowered programs are typed**, and every vtable has in every slot a
procedure of the signature of the slot. -/
theorem lowered_typed (h : Accepted source printName p) (options : Options) :
    ∃ ir, lowerProgram (Typing.analyze p ⟨printName⟩) p options = .ok ir ∧
      ir.Typed ∧ ∀ g ∈ ir.globals, g.FillsSlots ir := by
  obtain ⟨s, -, hs, hcomplete⟩ := h.complete options
  exact ⟨s.ir, hs, hcomplete.ready.typed.ir, fun g hg => hcomplete.fillsSlots hg⟩

/-- **Lowered programs are formed**: every procedure has its body, whose
blocks lead to blocks that are there, other than the entry, and have labels
of their own; and every number names something. -/
theorem lowered_formed (h : Accepted source printName p) (options : Options) :
    ∃ ir, lowerProgram (Typing.analyze p ⟨printName⟩) p options = .ok ir ∧
      (∀ q ∈ ir.procs, q.Formed) ∧ ir.InRange := by
  obtain ⟨s, -, hs, hcomplete⟩ := h.complete options
  exact ⟨s.ir, hs, fun q hq => (hcomplete.formed hq).1, hcomplete.ready.typed.ir.inRange⟩

/-- **Vtables agree with the analysis, and slots are stable**: those of a class
above another come first in the other. -/
theorem lowered_vtables (h : Accepted source printName p) (options : Options) :
    ∃ s : Session, (buildProgram (Typing.analyze p ⟨printName⟩) p options).run .start = .ok ((), s) ∧
      lowerProgram (Typing.analyze p ⟨printName⟩) p options = .ok s.ir ∧
      ∀ id < p.classes.length, ∃ layout procs, s.classes[id]? = some layout ∧
        SlotsAgree (Typing.analyze p ⟨printName⟩) s id layout procs ∧
        ∀ above upper, p.Inherits id above → s.classes[above]? = some upper →
          upper.entries.map (·.1) <+: layout.entries.map (·.1) ∧
          ∀ name slot, upper.slot? name = some slot → layout.slot? name = some slot := by
  obtain ⟨s, hrun, hs, hcomplete⟩ := h.complete options
  refine ⟨s, hrun, hs, fun id hid => ?_⟩
  obtain ⟨entries, fields, slots, hlaid⟩ := hcomplete.ready.laid id hid
  obtain ⟨c, -, hlayout⟩ := hlaid.layout
  refine ⟨_, _, hlayout, hlaid.slotsAgree h.supports.classes hlayout,
    fun above upper hup hupper => ?_⟩
  have hslots := hcomplete.slots_of_inherits h.supports.sound.hierarchy.acyclic hup hid hlayout hupper
  refine ⟨hslots, fun name slot hslot => ?_⟩
  have hnodup : (entries.map (·.1)).Nodup := hlaid.names ▸ Program.nodup_slotNames id
  have hupper : (upper.entries.map (·.1)).Nodup := hslots.sublist.nodup hnodup
  exact (ClassLayout.slot?_eq_some hnodup).2
    (getElem?_of_initial hslots ((ClassLayout.slot?_eq_some hupper).1 hslot))

end Accepted

theorem lowered_typed_overriding : ∃ ir, lowerProgram
    (Typing.analyze (Source.parse overriding).program ⟨"print"⟩)
    (Source.parse overriding).program ⟨false⟩ = .ok ir ∧
      ir.Typed ∧ ∀ g ∈ ir.globals, g.FillsSlots ir :=
  accepted_overriding.lowered_typed ⟨false⟩

theorem lowered_formed_overriding : ∃ ir, lowerProgram
    (Typing.analyze (Source.parse overriding).program ⟨"print"⟩)
    (Source.parse overriding).program ⟨true⟩ = .ok ir ∧
      (∀ q ∈ ir.procs, q.Formed) ∧ ir.InRange :=
  accepted_overriding.lowered_formed ⟨true⟩

theorem lowered_vtables_overriding : ∃ s : Session, (buildProgram
    (Typing.analyze (Source.parse overriding).program ⟨"print"⟩)
    (Source.parse overriding).program ⟨false⟩).run .start = .ok ((), s) ∧
      lowerProgram (Typing.analyze (Source.parse overriding).program ⟨"print"⟩)
        (Source.parse overriding).program ⟨false⟩ = .ok s.ir ∧
      ∀ id < (Source.parse overriding).program.classes.length, ∃ layout procs,
        s.classes[id]? = some layout ∧
        SlotsAgree (Typing.analyze (Source.parse overriding).program ⟨"print"⟩) s id layout procs ∧
        ∀ above upper, (Source.parse overriding).program.Inherits id above →
          s.classes[above]? = some upper →
          upper.entries.map (·.1) <+: layout.entries.map (·.1) ∧
          ∀ name slot, upper.slot? name = some slot → layout.slot? name = some slot :=
  accepted_overriding.lowered_vtables ⟨false⟩

end Lowering

end ClassLang
