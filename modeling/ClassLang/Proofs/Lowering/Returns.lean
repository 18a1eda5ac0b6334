import ClassLang.Proofs.Lowering.Scopes
/-!
# Lowering — calls and their results

A procedure that is called `Returns` if the machine comes to the end of a
block that returns a value, as the source does, and has left alone what is
not its own: the older allocations that stand for nothing. So the caller
goes on behind the call (`Holds.calls`). `Holds.returns` is the end of a
call.
-/


namespace ClassLang.Lowering

open Source (TypeExpr Program)
open Ir (Operand Point Proc ProcId TempId)

section Returns

variable (p : Program) (ir : Ir.Program) (grant : Nat → Bool) (origin : World)

/-- **What a call leaves** of the state in which it was entered. -/
structure CallLeaves (W : World) (m : Ir.State) (W' : World) (σ' : Semantics.State) (m' : Ir.State) :
    Prop where
  runs : ∃ k, Ir.Runs ir grant (Regular p ir origin) k m m'
  agrees : Agrees p ir origin W' σ' m'
  callers : m'.callers = m.callers
  grows : W.Grows W'
  recent : ∀ addr l, W' addr = some l → W addr = some l ∨ m.memory.length ≤ l.object
  length : m.memory.length ≤ m'.memory.length
  frozen : ∀ o < m.memory.length, W.Free ir.globals.length o → m'.memory[o]? = m.memory[o]?

/-- **A call that was entered returns** a value of the type, as the source
does. -/
def Returns (fuel : Nat) (ty : TypeExpr) (W : World) (m : Ir.State) :
    Semantics.Result Semantics.Value → Prop :=
  Call.Follows p ir grant origin fuel m fun value σ' => ∃ W' m' x,
    CallLeaves p ir grant origin W m W' σ' m' ∧ Ir.step ir grant m' = m'.return_ x ∧
      Matches p W' ty value x

end Returns

namespace Call

variable {p : Program} {ir : Ir.Program} {grant : Nat → Bool} {origin : World} {c : Call ir}
variable {n fuel : Nat} {pt pt' : Point} {W W' : World} {σ σ' : Semantics.State} {m m' : Ir.State}
variable {v : Operand} {ty : TypeExpr}

/-! ## The front and the end -/

/-- The call that a state has entered. -/
def entered {q : Proc} {m : Ir.State} (hq : ir.procs[m.frame.proc]? = some q) (hs : q.Single)
    (W : World) : Call ir :=
  ⟨m.frame.proc, q, hq, hs, m.frame.args, m.callers, m.memory, W⟩

/-- **A call begins** at the first instruction. -/
theorem holds_entered {id : ProcId} {xs : List Ir.Value} (hframe : m.frame = .enter id xs) {q : Proc}
    (hq : ir.procs[m.frame.proc]? = some q) (hs : q.Single) (h : Agrees p ir origin W σ m) :
    (entered hq hs W).Holds p origin ⟨0, 0, 0⟩ W σ m := by
  have hnone (d : TempId) : ¬ q.SlotBefore ⟨0, 0, 0⟩ d := fun ⟨_, _, _, hbefore⟩ =>
    Nat.not_lt_zero _ (hbefore rfl)
  exact ⟨h, rfl, rfl, by rw [hframe]; rfl, by rw [hframe]; rfl, rfl, .refl W, fun _ _ => .inl,
    Nat.le_refl _, fun _ _ _ => rfl, fun d hd => absurd hd (hnone d),
    fun d _ _ hd => absurd hd (hnone d)⟩

/-- What a call leaves that is at some point of its code. -/
theorem Holds.leaves {q : Proc} {hq : ir.procs[m.frame.proc]? = some q} {hs : q.Single}
    (h : (entered hq hs W).Holds p origin pt' W' σ' m')
    (hruns : ∃ k, Ir.Runs ir grant (Regular p ir origin) k m m') :
    CallLeaves p ir grant origin W m W' σ' m' :=
  ⟨hruns, h.agrees, h.callers, h.world, h.recent, h.length, h.frozen⟩

variable (grant) in
/-- **A call ends** where its code returns. -/
theorem Holds.returns (h : c.Holds p origin pt W σ m) (hends : c.body.Ends pt (.ret v)) {x : Ir.Value}
    (hv : Has ir pt m v x) : ∃ pt' m', c.Quiet p grant origin pt W σ m pt' m' ∧
      Ir.step ir grant m' = m'.return_ x := by
  obtain ⟨o, m', ho, hterm, h'⟩ := h.toEnd grant hends
  refine ⟨_, m', h', ?_⟩
  rw [Ir.step_end h'.holds.at_ ho rfl, hterm, Ir.State.leave, (h'.has hv).value]

/-! ## The caller -/

/-- The state that enters a procedure. -/
def calling (m : Ir.State) (id : ProcId) (xs : List Ir.Value) (dst : TempId) : Ir.State :=
  { m with frame := .enter id xs, callers := (m.frame, dst) :: m.callers }

/-- Operands that have values. -/
theorem mapM_eval? {args : List Operand} {xs : List Ir.Value}
    (h : List.Forall₂ (Has ir pt m) args xs) : args.mapM (m.frame.eval? ir) = some xs := by
  induction h with
  | nil => rfl
  | cons hfirst _ ih => simp [hfirst.value, ih]

/-- What the caller knows stands behind the call. -/
theorem Holds.resumes (h : c.Holds p origin pt W σ m) {callee : Operand} {args : List Operand}
    (hcall : c.body.Defines (.call · callee args) pt v pt') {id : ProcId} {xs : List Ir.Value}
    (hl : CallLeaves p ir grant origin W (calling m id xs pt.temps) W' σ' m') (x : Ir.Value)
    (hruns : ∃ k, Ir.Runs ir grant (Regular p ir origin) k m
      { m' with frame := m.frame.give pt.temps x, callers := m.callers }) :
    c.Leads p grant origin pt.temps pt W m pt' W' σ'
      { m' with frame := m.frame.give pt.temps x, callers := m.callers } := by
  obtain ⟨hat, rfl, rfl⟩ := hcall
  have hgive := h.give hat rfl (fun _ _ => nofun) x (pt.temps + 1)
  have hkept {d o : Nat} (hd : c.body.SlotBefore pt d) (ho : m.SlotAt d o) :
      o < m.memory.length ∧ W.Free ir.globals.length o := by
    obtain ⟨o', ho', -, hlt, hfree⟩ := h.slots d hd
    exact ho'.unique ho ▸ ⟨hlt, hfree⟩
  refine ⟨hruns, ⟨hl.agrees.congr rfl rfl rfl, h.proc, h.args, h.block, congrArg (· + 1) h.index,
    h.callers, h.world.trans hl.grows, fun addr l hlink => ?_, Nat.le_trans h.length hl.length,
    fun o ho hfree => ?_, fun d hd => ?_, hgive.distinct⟩, hl.grows, Nat.le_succ _,
    fun d hd => hd.of_index rfl (Nat.le_succ _), hl.length,
    fun d _ hd _ => .inl (hd.of_step hat fun _ _ => nofun), rfl,
    fun t ht => if_neg (Nat.ne_of_lt ht),
    fun d hd => if_neg (c.single.slot_ne hd hat rfl fun _ => nofun), fun d _ hd o ho => ?_⟩
  · rcases hl.recent addr l hlink with hold | hnew
    · exact h.recent addr l hold
    · exact .inr (Nat.le_trans h.length hnew)
  · have hlt := Nat.lt_of_lt_of_le ho h.length
    refine (hl.frozen o hlt ⟨hfree.1, fun addr l hlink heq => ?_⟩).trans (h.frozen o ho hfree)
    rcases h.recent addr l hlink with hold | hnew
    · exact hfree.2 addr l hold heq
    · exact Nat.lt_irrefl o (Nat.lt_of_lt_of_le ho (heq ▸ hnew))
  · obtain ⟨o, ho, hold, hlt, hfree⟩ := hgive.slots d hd
    refine ⟨o, ho, hold, Nat.lt_of_lt_of_le hlt hl.length, hfree.1, fun addr l hlink heq => ?_⟩
    rcases hl.recent addr l hlink with hlink | hnew
    · exact hfree.2 addr l hlink heq
    · exact Nat.lt_irrefl o (Nat.lt_of_lt_of_le hlt (heq ▸ hnew))
  · obtain ⟨hlt, hfree⟩ := hkept hd ho
    exact hl.frozen o hlt hfree

/-- **A call**: what it returns is given behind it. -/
theorem Holds.calls (h : c.Holds p origin pt W σ m) {callee : Operand} {args : List Operand}
    (hcall : c.body.Defines (.call · callee args) pt v pt') {id : ProcId}
    (hcallee : Has ir pt m callee (.proc id)) {xs : List Ir.Value}
    (hargs : List.Forall₂ (Has ir pt m) args xs) {q : Proc} (hq : ir.procs[id]? = some q)
    (hdefined : q.isDefined) (harity : xs.length = q.params.length)
    {r : Semantics.Result Semantics.Value}
    (hr : Returns p ir grant origin fuel ty W (calling m id xs pt.temps) r) :
    c.Outcome p grant origin pt.temps (fuel + 1) pt W m pt' (Given p ir pt' v (.written ty)) r := by
  have hexec : m.exec? ir grant (.call pt.temps callee args) = some (calling m id xs pt.temps) := by
    simp [Ir.State.exec?, hcallee.value, mapM_eval? hargs, hq, hdefined, harity, calling]
  have hstep : Ir.Runs ir grant (Regular p ir origin) 1 m (calling m id xs pt.temps) :=
    h.runs hcall.1 hexec rfl
  refine Follows.after hstep hr (fun value σ' hreturns => ?_) (Nat.le_of_eq (Nat.add_comm _ _))
  obtain ⟨W', m', x, hl, hreturn, hmatch⟩ := hreturns
  have hreturn : Ir.step ir grant m' =
      .next { m' with frame := m.frame.give pt.temps x, callers := m.callers } := by
    rw [hreturn, Ir.State.return_, hl.callers, calling]
  obtain ⟨k, hk⟩ := hl.runs
  have hregular := hl.agrees.regular grant fun s hs => by
    rw [← Ir.Outcome.next.inj (hreturn.symm.trans hs)]
  have hruns := (hstep.trans hk).trans (.single hregular hreturn)
  refine ⟨W', _, h.resumes hcall hl x ⟨_, hruns⟩, x, ⟨?_, ?_⟩, .written hmatch⟩
  · rw [hcall.2.1]
    exact if_pos rfl
  · obtain ⟨-, rfl, rfl⟩ := hcall
    intro t ht
    exact Operand.temp.inj ht ▸ Nat.lt_succ_self _

end Call

end ClassLang.Lowering
