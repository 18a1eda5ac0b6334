import ClassLang.Proofs.Lowering.Execution
import ClassLang.Proofs.Typing.Programs
/-!
# Lowering — calls of functions at run time

A procedure that is entered makes a slot for every parameter and every local
variable, and copies its arguments (`Holds.copies`, `Holds.makesLocals`), so
its names are in memory when its body begins. What the body does then is
what the interpreter's call does, for as many rounds as the interpreter is
given (`Session.Complete.invokes`): by induction on the rounds, since a body
may call what it likes.
-/


namespace ClassLang.Lowering

open Source (NodeId TypeExpr Program VarDecl FunctionDecl)
open Semantics (Scope Vars invoke procName startLine)
open Typing (Analysis FunctionOk)
open Ir (Operand Point Proc ProcId TempId)

namespace Call

variable {p : Program} {a : Analysis} {S : Session} {grant : Nat → Bool} {origin : World}
variable {c : Call S.ir} {slots : Table NodeId Operand} {var : VarDecl} {vars vars' : List VarDecl}
variable {low index : Nat} {pt pt' pt₁ : Point} {slot : Operand} {W : World}
variable {σ : Semantics.State} {m m₁ : Ir.State} {values : List Semantics.Value}
variable {xs : List Ir.Value}

/-! ## Slots of variables -/

variable (c slots low) in
/-- **Variables have slots of their own**, made from a temporary on. -/
structure Slotted (vars : List VarDecl) (pt : Point) : Prop where
  slot : ∀ var ∈ vars, ∃ d, low ≤ d ∧ d < pt.temps ∧ slots.get? var.id = some (.temp d) ∧
    c.body.SlotBefore pt d
  own : ∀ var ∈ vars, ∀ var' ∈ vars, slots.get? var.id = slots.get? var'.id → var = var'

theorem Slotted.nil : c.Slotted slots low [] pt := ⟨nofun, nofun⟩

/-- Slots that are made later are others. -/
theorem Slotted.append (h : c.Slotted slots low vars pt₁) (h' : c.Slotted slots pt₁.temps vars' pt)
    (hlow : low ≤ pt₁.temps) (htemps : pt₁.temps ≤ pt.temps)
    (hslots : ∀ d, c.body.SlotBefore pt₁ d → c.body.SlotBefore pt d) :
    c.Slotted slots low (vars ++ vars') pt := by
  have hother {v v' : VarDecl} (hv : v ∈ vars) (hv' : v' ∈ vars') :
      slots.get? v.id ≠ slots.get? v'.id := by
    obtain ⟨d, -, hd, hslot, -⟩ := h.slot v hv
    obtain ⟨d', hd', -, hslot', -⟩ := h'.slot v' hv'
    rw [hslot, hslot']
    intro heq
    obtain rfl := Operand.temp.inj (Option.some.inj heq)
    exact Nat.lt_irrefl d (Nat.lt_of_lt_of_le hd hd')
  refine ⟨fun v hv => ?_, fun v hv v' hv' heq => ?_⟩
  · rcases List.mem_append.1 hv with hv | hv
    · obtain ⟨d, hle, hd, hslot, hbefore⟩ := h.slot v hv
      exact ⟨d, hle, Nat.lt_of_lt_of_le hd htemps, hslot, hslots d hbefore⟩
    · obtain ⟨d, hle, hd, hslot, hbefore⟩ := h'.slot v hv
      exact ⟨d, Nat.le_trans hlow hle, hd, hslot, hbefore⟩
  · rcases List.mem_append.1 hv with hv | hv <;> rcases List.mem_append.1 hv' with hv' | hv'
    · exact h.own v hv v' hv' heq
    · exact absurd heq (hother hv hv')
    · exact absurd heq.symm (hother hv' hv)
    · exact h'.own v hv v' hv' heq

variable (grant) in
/-- **A variable gets its slot.** -/
theorem Holds.makesVar (h : c.Holds p origin pt W σ m)
    (hvar : VarCode p a S c.body slots var pt slot pt') :
    ∃ m', c.Quiet p grant origin pt W σ m pt' m' ∧ slot = .temp pt.temps ∧
      c.body.SlotBefore pt' pt.temps ∧ c.Slotted slots pt.temps [var] pt' := by
  obtain ⟨⟨ty, -, hat, rfl, rfl⟩, hslot⟩ := hvar
  have hblock : pt.block = 0 := c.single.slots _ _ _ _ hat
  obtain ⟨o, m', h', -, hbefore, htemps⟩ := h.hasSlot grant (.inl ⟨hblock, hat, rfl⟩)
  refine ⟨m', h', rfl, hbefore, fun v hv => ?_, fun v hv v' hv' _ => ?_⟩
  · rw [List.mem_singleton.1 hv]
    exact ⟨pt.temps, Nat.le_refl _, Nat.lt_succ_self _, hslot, hbefore⟩
  · rw [List.mem_singleton.1 hv, List.mem_singleton.1 hv']

variable (p c slots) in
/-- The variable has the value in its slot. -/
def Copied (pt : Point) (W : World) (m : Ir.State) (e : VarDecl × Semantics.Value) : Prop :=
  ∃ d x, d < pt.temps ∧ slots.get? e.1.id = some (.temp d) ∧ c.Stored pt m d x ∧
    Matches p W e.1.ty e.2 x

theorem Leads.copied (h : c.Leads p grant origin pt.temps pt W m pt₁ W σ m₁)
    {e : VarDecl × Semantics.Value} (he : Copied p c slots pt W m e) :
    Copied p c slots pt₁ W m₁ e := by
  obtain ⟨d, x, hd, hslot, hstored, hmatch⟩ := he
  exact ⟨d, x, Nat.lt_of_lt_of_le hd h.temps, hslot, h.stored hd hstored, hmatch⟩

variable (grant) in
/-- **Parameters are private copies** of the arguments. -/
theorem Holds.copies {params : List VarDecl} (h : c.Holds p origin pt W σ m)
    (hparams : ParamsCode p a S c.body slots index params pt pt')
    (hmatch : MatchesAll p W (params.map (·.ty)) values xs)
    (hargs : ∀ (i : Nat) x, xs[i]? = some x → c.args[index + i]? = some x) :
    ∃ m', c.Leads p grant origin pt.temps pt W m pt' W σ m' ∧ c.Slotted slots pt.temps params pt' ∧
      ∀ e ∈ params.zip values, Copied p c slots pt' W m' e := by
  induction hparams generalizing m values xs with
  | nil => exact ⟨m, .refl h, .nil, by simp⟩
  | @cons index param rest slot pt pt₁ pt₂ pt₃ hvar hstore _ ih =>
    generalize htys : (param :: rest).map (·.ty) = tys at hmatch
    cases hmatch with
    | nil => cases htys
    | @cons ty tys value values x xs hfirst hrest =>
      obtain ⟨rfl, rfl⟩ := List.cons.inj htys
      obtain ⟨m₁, h₁, rfl, hbefore, hslotted⟩ := h.makesVar grant hvar
      obtain ⟨o, ho, -⟩ := h₁.holds.slots _ hbefore
      obtain ⟨h₂, hstored, -⟩ := h₁.holds.storesSlot grant hstore hbefore ho
        (h₁.holds.param (hargs 0 x rfl))
      obtain ⟨m₃, h₃, hslotted₃, hcopied⟩ := ih h₂.holds hrest fun i y hy => by
        rw [Nat.add_right_comm, Nat.add_assoc]
        exact hargs (i + 1) y hy
      obtain ⟨_, hle, hd, -⟩ := hslotted.slot param (List.mem_singleton_self _)
      have hlt := Nat.lt_of_lt_of_le (Nat.lt_of_le_of_lt hle hd) h₂.temps
      have hfirst : Copied p c slots pt₂ W _ (param, value) :=
        ⟨pt.temps, x, hlt, hvar.slot, hstored, hfirst⟩
      refine ⟨m₃, (h₁.leads.trans h₂ (Nat.le_refl _)).trans h₃ (Nat.le_of_lt hlt), ?_,
        List.forall_mem_cons.2 ⟨h₃.copied hfirst, hcopied⟩⟩
      have hsame : pt₂.temps = pt₁.temps := by rw [hstore.2]; rfl
      exact hslotted.append (hsame ▸ hslotted₃) h₁.leads.temps (hsame ▸ h₃.temps)
        fun d hd => h₃.slots d (h₂.slots d hd)

variable (grant) in
/-- **Local variables get their slots.** -/
theorem Holds.makesLocals (h : c.Holds p origin pt W σ m)
    (hlocals : LocalsCode p a S c.body slots vars pt pt') :
    ∃ m', c.Leads p grant origin pt.temps pt W m pt' W σ m' ∧ c.Slotted slots pt.temps vars pt' := by
  induction hlocals generalizing m with
  | nil => exact ⟨m, .refl h, .nil⟩
  | cons hvar _ ih =>
    obtain ⟨m₁, h₁, -, -, hslotted⟩ := h.makesVar grant hvar
    obtain ⟨m₂, h₂, hrest⟩ := ih h₁.holds
    exact ⟨m₂, h₁.leads.trans h₂ h₁.leads.temps,
      hslotted.append hrest h₁.leads.temps h₂.temps h₂.slots⟩

variable (grant) in
/-- **When the body begins**, all that has a name is in memory. -/
theorem Holds.begins {f : FunctionDecl} {this? : Option (String × Semantics.Value)}
    (h : c.Holds p origin ⟨0, 0, 0⟩ W σ m) (hargs : c.args = xs)
    (hpasses : Passes p W this? (f.params.map (·.ty)) values xs)
    (hnames : (f.params.map (·.name)).Nodup)
    (hparams : ParamsCode p a S c.body slots (firstParam (this?.map (·.1))) f.params ⟨0, 0, 0⟩ pt₁)
    (hlocals : LocalsCode p a S c.body slots f.body.varDecls pt₁ pt) :
    ∃ m', c.Leads p grant origin 0 ⟨0, 0, 0⟩ W m pt W σ m' ∧
      c.Scoped p slots (f.params ++ f.body.varDecls) pt.temps
        ⟨this?, (f.params.zip values).reverse⟩ pt W m' := by
  obtain ⟨ys, hmatch, hget⟩ := hpasses.params
  obtain ⟨m₁, h₁, hslotted, hcopied⟩ := h.copies grant hparams hmatch (hargs ▸ hget)
  obtain ⟨m₂, h₂, hslotted'⟩ := h₁.holds.makesLocals grant hlocals
  have hall := hslotted.append hslotted' h₁.temps h₂.temps h₂.slots
  have hvars : (Scope.mk this? (f.params.zip values).reverse).names.vars = f.params.reverse := by
    have hlength := hmatch.length_eq.1
    rw [List.length_map] at hlength
    rw [Scope.names, List.map_reverse, List.map_fst_zip (Nat.le_of_eq hlength.symm)]
  refine ⟨m₂, (h₁.trans h₂ h₁.temps).weaken (Nat.zero_le _), Nat.le_refl _, fun var hvar => ?_,
    hall.own, ?_, fun var hvar => ?_, fun e he => ?_,
    fun class_ value hthis => hargs ▸ hpasses.receiver hthis⟩
  · obtain ⟨d, -, hd⟩ := hall.slot var hvar
    exact ⟨d, hd⟩
  · rw [hvars, List.map_reverse, List.nodup_reverse]
    exact hnames
  · rw [hvars, List.mem_reverse] at hvar
    exact List.mem_append_left _ hvar
  · obtain ⟨d, x, -, hx⟩ := h₂.copied (hcopied e (List.mem_reverse.1 he))
    exact ⟨d, x, hx⟩

end Call

/-! ## Bodies and calls -/

section Invocations

open Call

variable {p : Program} {printName : String} {a : Analysis} {S : Session} {grant : Nat → Bool}
variable {origin : World} {n : Nat} {W : World} {σ : Semantics.State} {m : Ir.State}

/-- **A procedure does what its function does**, if the procedures that it calls
do. -/
theorem Callee.returns {this? : Option (String × Semantics.Value)} {f : FunctionDecl} {q : Proc}
    (hfor : Callee p printName a S this? f q) (hS : S.Complete p printName a)
    (hsound : p.SoundClasses) (hnames : (f.params.map (·.name)).Nodup)
    (hinvoke : Invokes p S grant origin n (invoke p printName grant n)) {proc : ProcId}
    (hq : S.ir.procs[proc]? = some q) {values : List Semantics.Value} {xs : List Ir.Value}
    (hpasses : Passes p W this? (f.params.map (·.ty)) values xs) (h : Agrees p S.ir origin W σ m)
    (hframe : m.frame = .enter proc xs) :
    Returns p S.ir grant origin (n + 1) f.returnType W m
      (invoke p printName grant (n + 1) this? f values σ) := by
  have hq : S.ir.procs[m.frame.proc]? = some q := by rw [hframe]; exact hq
  have h₀ := holds_entered (W := W) hframe hq hfor.single h
  have hlength := hpasses.length_eq.1
  rw [List.length_map] at hlength
  cases hfor.code with
  | @mk slots pt₁ pt₂ out hparams hlocals hbody hends =>
    obtain ⟨m₁, h₁, hs⟩ := h₀.begins grant (by show m.frame.args = xs; rw [hframe]; rfl) hpasses hnames
      hparams hlocals
    have hvars : (Scope.mk this? (f.params.zip values).reverse).names =
        ⟨this?.map (·.1), f.params.reverse⟩ := by
      rw [Scope.names, List.map_reverse, List.map_fst_zip (Nat.le_of_eq hlength.symm)]
    obtain ⟨behind, -, hbody⟩ := hbody.executes (c := entered hq hfor.single W) hS hsound hinvoke
      (List.subset_append_right _ _)
    have hrun := (hbody _ hvars W σ m₁ h₁.holds hs).after h₁
    rw [invoke, if_pos hlength]
    refine Follows.bind hrun fun e σ' hexit => ?_
    cases hexit with
    | leaves hout hlead _ _ =>
      -- A body that is left without a return ends the program, in both.
      have hhalt := hlead.holds.halts grant (hends _ hout)
      obtain ⟨k, hk⟩ := hlead.runs
      rw [hfor.name] at hhalt
      exact Halts.after hk hhalt
    | returns hlead hreturn hmatch =>
      exact ⟨_, _, _, hlead.holds.leaves hlead.runs, hreturn, hmatch⟩

/-- **Every procedure does what the source does**: by the number of rounds. -/
theorem Session.Complete.invokes (hS : S.Complete p printName a)
    (hp : Typing.WellTyped p printName) (n : Nat) :
    Invokes p S grant origin n (invoke p printName grant n) := by
  induction n with
  | zero => exact fun _ _ _ _ _ _ σ m _ _ h _ => ⟨0, m, Nat.le_refl 0, .refl m, h.output⟩
  | succ n ih =>
    -- What the body calls has a round less, whoever it is: recursion needs no measure.
    intro this? f proc values xs W σ m howner hpasses h hframe
    have hok : FunctionOk p printName (this?.map (·.1)) f := by
      generalize this?.map (·.1) = class? at howner
      cases howner with
      | function hf _ => exact hp.functions f (List.mem_of_getElem? hf)
      | method hc hm _ => exact hp.methods _ (List.mem_of_getElem? hc) f (List.mem_of_getElem? hm)
    obtain ⟨q, hq, hfor⟩ := hS.callee howner
    exact hfor.returns hS hp.classes hok.paramNames ih hq hpasses h hframe

end Invocations

end ClassLang.Lowering
