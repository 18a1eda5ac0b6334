import ClassLang.Proofs.Lowering.Allocations
import ClassLang.Proofs.Lowering.Programs
/-!
# Lowering — the procedures of a program at run time

What is called in a lowered program and what it does: the procedure of a
function or a method has its code (`Session.Complete.callee`), the vtable of
an object leads to the method of its own class (`Session.Complete.entry`),
and allocators make what they should (`Holds.makesObject`,
`Holds.makesArray`). That the procedures do what the source does is a
property of the interpreter's calls, `Invokes`; calls and dispatches come to
what it says (`Holds.invokes`, `Holds.dispatches`).
-/


namespace ClassLang.Lowering

open Source (TypeExpr Program FunctionDecl)
open Semantics (request newArray)
open Typing (Analysis Denotes)
open Ir (Operand Point Proc ProcId)

variable {p : Program} {printName : String} {a : Analysis} {S : Session} {grant : Nat → Bool}
variable {origin : World} {n fuel : Nat} {W : World} {σ : Semantics.State} {m : Ir.State}

/-! ## What is called -/

variable (p printName a S) in
/-- **The procedure of a function**, or of a method if there is a receiver. -/
structure Callee (this? : Option (String × Semantics.Value)) (f : FunctionDecl) (q : Proc) : Prop where
  defined : q.isDefined
  single : q.Single
  name : q.name = Semantics.procName this? f
  arity : q.params.length = firstParam (this?.map (·.1)) + f.params.length
  code : FunctionCode p printName a S q (this?.map (·.1)) q.name f

/-- **Every function and every method has its procedure.** -/
theorem Session.Complete.callee (hS : S.Complete p printName a)
    {this? : Option (String × Semantics.Value)} {f : FunctionDecl} {proc : ProcId}
    (h : S.Owner p (this?.map (·.1)) f proc) :
    ∃ q, S.ir.procs[proc]? = some q ∧ Callee p printName a S this? f q := by
  have hlength {this fields : List Ir.Field} (h : List.Forall₂ (ParamFor p a S) f.params fields) :
      (this ++ fields).length = this.length + f.params.length := by
    rw [List.length_append, h.length_eq]
  generalize hclass : this?.map (·.1) = class? at h
  cases h with
  | @function index f proc hf hproc =>
    obtain ⟨_, hproc₁, q, hq, hformed, hsingle, hcode⟩ := hS.functions _ _ hf
    obtain rfl := Option.some.inj (hproc.symm.trans hproc₁)
    obtain ⟨_, hproc₂, q', hq', hfor⟩ := hS.ready.functions _ _ hf
    obtain rfl := Option.some.inj (hproc.symm.trans hproc₂)
    obtain rfl := Option.some.inj (hq.symm.trans hq')
    obtain ⟨fields, hparams, hfields⟩ := hfor.params
    obtain rfl := Option.map_eq_none_iff.1 hclass
    exact ⟨q, hq, hformed.defined, hsingle, hfor.name, by rw [hparams, hlength hfields]; rfl,
      hcode S (.refl S)⟩
  | @method id index c f proc hc hm hproc =>
    obtain ⟨_, hproc₁, q, hq, hformed, hsingle, hcode⟩ := hS.methods _ _ hc _ _ hm
    obtain rfl := Option.some.inj (hproc.symm.trans hproc₁)
    obtain ⟨_, hproc₂, q', hq', hfor⟩ := hS.ready.methods _ _ hc _ _ hm
    obtain rfl := Option.some.inj (hproc.symm.trans hproc₂)
    obtain rfl := Option.some.inj (hq.symm.trans hq')
    obtain ⟨fields, hparams, hfields⟩ := hfor.params
    obtain ⟨⟨_, value⟩, rfl, rfl⟩ := Option.map_eq_some_iff.1 hclass
    exact ⟨q, hq, hformed.defined, hsingle, hfor.name, by rw [hparams, hlength hfields]; rfl,
      hcode S (.refl S)⟩

/-- **The vtable of a class has the method that the class sees** under the name
of a slot. -/
theorem Session.Complete.entry (hS : S.Complete p printName a) {sub : ClassId}
    (hsub : sub < p.classes.length) {slot : Nat} {method : String}
    (hslot : (p.slotNames sub)[slot]? = some method) :
    ∃ ref f c proc, p.methodRef? sub method = some ref ∧ methodDecl? p ref = some f ∧
      p.classes[ref.class_]? = some c ∧ S.Owner p (some c.name) f proc ∧
      ∃ cell, S.ir.globalCells[sub]? = some cell ∧ cell.load? [slot] = some (.proc proc) := by
  obtain ⟨entries, fields, slots, hlaid⟩ := hS.ready.laid sub hsub
  rw [← hlaid.names, List.getElem?_map, Option.map_eq_some_iff] at hslot
  obtain ⟨e, he, rfl⟩ := hslot
  obtain ⟨ref, href, hproc⟩ := hlaid.procs e (List.mem_of_getElem? he)
  obtain ⟨f, hf, -⟩ := Source.Program.exists_methodDecl href
  obtain ⟨c, hc, hm⟩ := Option.bind_eq_some_iff.1 hf
  obtain ⟨name, hglobal⟩ := hlaid.vtableGlobal
  refine ⟨ref, f, c, e.2, href, hf, hc, .method hc hm hproc,
    .agg (Ir.constCells (entries.map fun e => .proc e.2)), ?_, ?_⟩
  · rw [Ir.Program.globalCells, List.getElem?_map, hglobal, Option.map_some, Ir.Const.cell]
  · rw [Ir.Cell.load?, Ir.Cell.part, Ir.constCells_eq, List.getElem?_map, he]
    rfl

/-! ## What calls do -/

variable (p) in
/-- **Arguments for parameters of these types**, behind the receiver if there
is one. -/
inductive Passes (W : World) : Option (String × Semantics.Value) → List TypeExpr →
    List Semantics.Value → List Ir.Value → Prop
  | function {tys values xs} : MatchesAll p W tys values xs → Passes W none tys values xs
  | method {class_ addr o tys values xs} :
      Matches p W (.class_ class_) (.ref addr) (.ptr ⟨o, []⟩) → MatchesAll p W tys values xs →
      Passes W (some (class_, .ref addr)) tys values (.ptr ⟨o, []⟩ :: xs)

theorem Passes.length_eq {this? : Option (String × Semantics.Value)} {tys : List TypeExpr}
    {values : List Semantics.Value} {xs : List Ir.Value} (h : Passes p W this? tys values xs) :
    values.length = tys.length ∧ xs.length = firstParam (this?.map (·.1)) + tys.length := by
  cases h with
  | function hall => exact ⟨hall.length_eq.1, by simp [firstParam, hall.length_eq.2]⟩
  | method _ hall =>
    exact ⟨hall.length_eq.1, by simp [firstParam, hall.length_eq.2, Nat.add_comm 1]⟩

/-- What the parameters get. -/
theorem Passes.params {this? : Option (String × Semantics.Value)} {tys : List TypeExpr}
    {values : List Semantics.Value} {xs : List Ir.Value} (h : Passes p W this? tys values xs) :
    ∃ ys, MatchesAll p W tys values ys ∧
      ∀ (i : Nat) x, ys[i]? = some x → xs[firstParam (this?.map (·.1)) + i]? = some x := by
  cases h with
  | function hall => exact ⟨xs, hall, fun i x hx => by rwa [Nat.add_comm]⟩
  | method _ hall => exact ⟨_, hall, fun i x hx => by rwa [Nat.add_comm]⟩

/-- What the receiver is. -/
theorem Passes.receiver {this? : Option (String × Semantics.Value)} {tys : List TypeExpr}
    {values : List Semantics.Value} {xs : List Ir.Value} (h : Passes p W this? tys values xs)
    {class_ : String} {value : Semantics.Value} (hthis : this? = some (class_, value)) :
    ∃ addr o, value = .ref addr ∧ xs[0]? = some (.ptr ⟨o, []⟩) ∧
      Matches p W (.class_ class_) value (.ptr ⟨o, []⟩) := by
  cases h with
  | function => cases hthis
  | method hmatch _ =>
    obtain ⟨rfl, rfl⟩ := Prod.mk.inj (Option.some.inj hthis)
    exact ⟨_, _, rfl, rfl, hmatch⟩

variable (p S grant origin) in
/-- **Every procedure does what the source does** when it is called, or runs for
so many steps. -/
def Invokes (n : Nat) (invoke : Option (String × Semantics.Value) → FunctionDecl →
    List Semantics.Value → Semantics.Run Semantics.Value) : Prop :=
  ∀ this? f proc values xs W σ m, S.Owner p (this?.map (·.1)) f proc →
    Passes p W this? (f.params.map (·.ty)) values xs → Agrees p S.ir origin W σ m →
    m.frame = .enter proc xs → Returns p S.ir grant origin n f.returnType W m (invoke this? f values σ)

namespace Call.Holds

variable {c : Call S.ir} {pt pt' : Point} {v : Operand} {args : List Operand} {xs : List Ir.Value}
variable {values : List Semantics.Value}
variable {invoke : Option (String × Semantics.Value) → FunctionDecl → List Semantics.Value →
  Semantics.Run Semantics.Value}

/-- **A function or a method is called.** -/
theorem invokes (h : c.Holds p origin pt W σ m) (hS : S.Complete p printName a)
    (hinvoke : Invokes p S grant origin n invoke) (this? : Option (String × Semantics.Value))
    {f : FunctionDecl} {proc : ProcId} (howner : S.Owner p (this?.map (·.1)) f proc)
    {callee : Operand} (hcall : c.body.Defines (.call · callee args) pt v pt')
    (hcallee : Has S.ir pt m callee (.proc proc)) (hargs : List.Forall₂ (Has S.ir pt m) args xs)
    (hpasses : Passes p W this? (f.params.map (·.ty)) values xs) :
    c.Outcome p grant origin pt.temps (n + 1) pt W m pt'
      (Given p S.ir pt' v (.written f.returnType)) (invoke this? f values σ) := by
  obtain ⟨q, hq, hfor⟩ := hS.callee howner
  refine h.calls hcall hcallee hargs hq hfor.defined ?_
    (hinvoke this? f proc values xs W σ _ howner hpasses (h.agrees.congr rfl rfl rfl) rfl)
  rw [hpasses.length_eq.2, hfor.arity, List.length_map]

/-- **A method is called through the vtable**: it is the one that the class of
the object sees, and has the signature of the one that the receiver's type
shows. -/
theorem dispatches (h : c.Holds p origin pt W σ m) (hS : S.Complete p printName a)
    (hsound : p.SoundClasses) (hinvoke : Invokes p S grant origin n invoke) {addr o : Nat}
    {sub id : ClassId} (hlink : W addr = some ⟨o, .object sub⟩) (hinherits : p.Inherits sub id)
    (hid : id < p.classes.length) {method : String} {slot : Nat}
    (hslot : (p.slotNames id)[slot]? = some method) (hsmall : slot < 2 ^ 31) {ref : MemberRef}
    (href : p.methodRef? id method = some ref) {g : FunctionDecl} (hg : methodDecl? p ref = some g)
    {object this : Operand} (hobject : Has S.ir pt m object (.ptr ⟨o, []⟩))
    (hthis : Has S.ir pt m this (.ptr ⟨o, []⟩)) (hargs : List.Forall₂ (Has S.ir pt m) args xs)
    (hmatch : MatchesAll p W (g.params.map (·.ty)) values xs)
    (hdispatch : c.body.Dispatch object slot (this :: args) pt v pt') :
    ∃ ref' f class_, p.methodRef? sub method = some ref' ∧ methodDecl? p ref' = some f ∧
      p.classes[ref'.class_]? = some class_ ∧
      c.Outcome p grant origin pt.temps (n + 1) pt W m pt'
        (Given p S.ir pt' v (.written g.returnType))
        (invoke (some (class_.name, .ref addr)) f values σ) := by
  have hacyclic := hsound.hierarchy.acyclic
  have hsub : sub < p.classes.length := hinherits.lt_below hid
  obtain ⟨ref', f, class_, proc, href', hf, hclass, howner, vtable, hvtable, hentry⟩ :=
    hS.entry hsub (getElem?_of_initial (Source.Program.slotNames_of_inherits hacyclic hinherits) hslot)
  -- Overriding keeps the signature, so the arguments suit the method that is found.
  obtain ⟨hret, hparams⟩ := hsound.hierarchy.signature hinherits href hg href' hf
  refine ⟨ref', f, class_, href', hf, hclass, ?_⟩
  have hthisMatch : Matches p W (.class_ class_.name) (.ref addr) (.ptr ⟨o, []⟩) :=
    .object (Source.Program.classId?_name hsound.names hclass)
      (Source.Program.memberRef?_eq_some href').1 hlink
  obtain ⟨cell, cell', -, hcell', hcells⟩ := h.cell hlink
  cases hdispatch with
  | mk hmember hload hslotAddr htarget hcall =>
    cases hcells with
    | object hheader _ =>
      obtain ⟨m₁, h₁⟩ := h.members grant hmember (by decide) hobject
        (List.getElem?_eq_some_iff.1 hcell').1
      obtain ⟨m₂, h₂⟩ := h₁.holds.loads grant hload h₁.toHas
        (getElem?_of_initial h₁.memory hcell') hheader
      -- Vtables stand in front of all other memory and never change.
      have hglobal := getElem?_of_initial h₂.holds.agrees.heap.globals hvtable
      obtain ⟨m₃, h₃⟩ := h₂.holds.members grant hslotAddr hsmall h₂.toHas
        (List.getElem?_eq_some_iff.1 hglobal).1
      obtain ⟨m₄, h₄⟩ := h₃.holds.loads grant htarget h₃.toHas
        (getElem?_of_initial h₃.memory hglobal) hentry
      have hquiet := ((h₁.toQuiet.trans h₂.toQuiet).trans h₃.toQuiet).trans h₄.toQuiet
      have hall : List.Forall₂ (Has S.ir _ m₄) (this :: args) (.ptr ⟨o, []⟩ :: xs) :=
        .cons (hquiet.has hthis) (hargs.imp fun _ _ hx => hquiet.has hx)
      rw [hret]
      exact Outcome.after hquiet.leads ((h₄.holds.invokes hS hinvoke
        (some (class_.name, .ref addr)) howner hcall h₄.toHas hall
        (.method hthisMatch (hparams ▸ hmatch))).mono hquiet.leads.temps
          fun _ _ _ _ _ hvalue => hvalue) (Nat.le_refl _)

/-- **An object is made.** -/
theorem makesObject (h : c.Holds p origin pt W σ m) (hS : S.Complete p printName a) {name : String}
    {id : ClassId} (hid : p.classId? name = some id) {proc : ProcId}
    (hproc : S.classAllocators.get? id = some proc)
    (hcall : c.body.Defines (.call · (.proc proc) []) pt v pt') :
    c.Outcome p grant origin pt.temps (fuel + 1) pt W m pt'
      (Given p S.ir pt' v (.written (.class_ name)))
      ((request grant >>= fun _ => Semantics.Run.create (.object id (Semantics.freshFields p id))) σ) := by
  obtain ⟨hlt, -, q, values, hq, hparams, hret, hformed, hsingle, hvalues, hcode, -⟩ :=
    hS.ready.objects id proc hproc
  rw [← hS.ready.sizeOf hlt] at hcode
  refine h.calls hcall (.proc _) .nil hq hformed.defined (by rw [hparams]; rfl) ?_
  exact hcode.returns (m := calling m proc [] pt.temps) hret hvalues
    (hS.ready.typed.globals ▸ hlt) hsingle hq rfl (h.agrees.congr rfl rfl rfl) hid

/-- **An array is made.** -/
theorem makesArray (h : c.Holds p origin pt W σ m) (hS : S.Complete p printName a) {ty : Ty}
    {elem : TypeExpr} (hd : Denotes p a.findings.table ty elem) {proc : ProcId}
    (hproc : S.arrayAllocators.get? ty = some proc) {w : Operand}
    (hcall : c.body.Defines (.call · (.proc proc) [w]) pt v pt') {size : Int32}
    (hw : Has S.ir pt m w (.int size)) :
    c.Outcome p grant origin pt.temps (fuel + 1) pt W m pt'
      (Given p S.ir pt' v (.written (.array elem))) (newArray grant elem size σ) := by
  obtain ⟨-, q, elem', struct, hq, hd', hstruct, hparams, hret, hformed, hsingle, hcode, -⟩ :=
    hS.ready.arrays ty proc hproc
  obtain rfl := hd.right_unique hd'
  obtain ⟨target, name, htarget, hdecl⟩ := hS.ready.typed.array hstruct hd
  refine h.calls hcall (.proc _) (.cons hw .nil) hq hformed.defined (by rw [hparams]; rfl) ?_
  exact hcode.returns (m := calling m proc [.int size] pt.temps) hret hdecl
    (elemLayout htarget hdecl) hsingle hq rfl (h.agrees.congr rfl rfl rfl)

end Call.Holds

end ClassLang.Lowering
