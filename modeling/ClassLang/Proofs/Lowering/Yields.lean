import ClassLang.Lowering.Program
/-!
# Lowering — computations that succeed

Lowering works in three monads with a state and errors. `Yields x s P`
says of all of them that `x`, started in `s`, succeeds with a result and a
state as `P` says. `Yields.bind` puts computations in turn, and
`Yields.session` and `Yields.emit` lift what is proved of the session and
of the body that is built to the lowering of a body.
-/


namespace ClassLang

/-- The computation succeeds, with a result and a state as `P` says. -/
def Yields {σ ε α : Type} (x : StateT σ (Except ε) α) (s : σ) (P : α → σ → Prop) : Prop :=
  ∃ a s', x.run s = .ok (a, s') ∧ P a s'

namespace Yields

variable {σ ε α β : Type} {x : StateT σ (Except ε) α} {s : σ} {P P' : α → σ → Prop}

theorem pure {a : α} (h : P a s) : Yields (Pure.pure a : StateT σ (Except ε) α) s P :=
  ⟨a, s, rfl, h⟩

/-- A property that is weaker. -/
theorem mono (h : Yields x s P) (hP : ∀ a s', P a s' → P' a s') : Yields x s P' := by
  obtain ⟨a, s', hrun, ha⟩ := h
  exact ⟨a, s', hrun, hP a s' ha⟩

/-- **Computations in turn.** -/
theorem bind {k : α → StateT σ (Except ε) β} {Q : β → σ → Prop} (h : Yields x s P)
    (hk : ∀ a s', P a s' → Yields (k a) s' Q) : Yields (x >>= k) s Q := by
  obtain ⟨a, s', hrun, ha⟩ := h
  obtain ⟨b, s'', hrun', hb⟩ := hk a s' ha
  refine ⟨b, s'', ?_, hb⟩
  show (x.run s >>= fun p => (k p.1).run p.2) = _
  rw [hrun]
  exact hrun'

/-- What reads the state goes on with it. -/
theorem get_bind {k : σ → StateT σ (Except ε) β} {P : β → σ → Prop} (h : Yields (k s) s P) :
    Yields (MonadState.get >>= k) s P := h

theorem modify_bind {f : σ → σ} {k : PUnit → StateT σ (Except ε) β} {P : β → σ → Prop}
    (h : Yields (k ⟨⟩) (f s) P) : Yields (modify f >>= k) s P := h

theorem set {s' : σ} {P : PUnit → σ → Prop} (h : P ⟨⟩ s') :
    Yields (MonadStateOf.set s' : StateT σ (Except ε) PUnit) s P := ⟨⟨⟩, s', rfl, h⟩

theorem modify_last {f : σ → σ} {P : PUnit → σ → Prop} (h : P ⟨⟩ (f s)) :
    Yields (modify f : StateT σ (Except ε) PUnit) s P := ⟨⟨⟩, f s, rfl, h⟩

/-- What succeeds without the state. -/
theorem lift {r : Except ε α} {a : α} (hr : r = .ok a) (h : P a s) :
    Yields (liftM r : StateT σ (Except ε) α) s P := by
  subst hr
  exact ⟨a, s, rfl, h⟩

/-- A look-up that finds something goes on with it. -/
theorem lift_bind {r : Except ε α} {a : α} (hr : r = .ok a) {k : α → StateT σ (Except ε) β}
    {P : β → σ → Prop} (h : Yields (k a) s P) : Yields (liftM r >>= k) s P := by
  subst hr
  exact h

/-- A computation that is known to run, and what else is known of it. -/
theorem of_run {a : α} {s' : σ} (h : Yields x s P) (hrun : x.run s = .ok (a, s')) :
    P a s' := by
  obtain ⟨b, s'', hrun', hb⟩ := h
  rw [hrun] at hrun'
  obtain ⟨rfl, rfl⟩ := Prod.mk.inj (Except.ok.inj hrun')
  exact hb

/-- Two properties of one run. -/
theorem and (h : Yields x s P) (h' : Yields x s P') :
    Yields x s fun a s' => P a s' ∧ P' a s' := by
  obtain ⟨a, s', hrun, ha⟩ := h
  exact ⟨a, s', hrun, ha, h'.of_run hrun⟩

end Yields

namespace Lowering

variable {α : Type}

theorem ofIr_ok {r : Except Ir.Error α} {a : α} (h : r = .ok a) : ofIr r = .ok a := by
  subst h
  rfl

theorem orFault_ok {fault : Error} {o : Option α} {a : α} (h : o = some a) :
    orFault fault o = .ok a := by
  subst h
  rfl

/-- What is there is found. -/
theorem find_ok {what : Ir.Entity} {xs : List α} {id : Nat} {x : α} (h : xs[id]? = some x) :
    Ir.Program.find what xs id = .ok x := by
  rw [Ir.Program.find, h]

/-- A change of the program that can be made. -/
theorem yields_modifyIr {change : Ir.Program → Except Ir.Error Ir.Program} {s : Session}
    {ir : Ir.Program} {P : PUnit → Session → Prop} (hir : change s.ir = .ok ir)
    (h : P ⟨⟩ { s with ir := ir }) : Yields (modifyIr change) s P :=
  .get_bind (.lift_bind (ofIr_ok hir) (.set h))

theorem yields_procDecl {id : Ir.ProcId} {s : Session} {decl : Ir.Proc}
    {P : Ir.Proc → Session → Prop} (hdecl : s.ir.procs[id]? = some decl) (h : P decl s) :
    Yields (procDecl id) s P :=
  .get_bind (.lift (ofIr_ok (find_ok hdecl)) h)

theorem yields_addStruct_bind {β : Type} {name : String} {s : Session} {k : Ir.StructId → Build β}
    {P : β → Session → Prop}
    (h : Yields (k s.ir.structs.length)
      { s with ir := { s.ir with structs := s.ir.structs ++ [⟨name, []⟩] } } P) :
    Yields (addStruct name >>= k) s P := h

theorem yields_addGlobal_bind {β : Type} {g : Ir.Global} {s : Session} {k : Ir.GlobalId → Build β}
    {P : β → Session → Prop}
    (h : Yields (k s.ir.globals.length)
      { s with ir := { s.ir with globals := s.ir.globals ++ [g] } } P) :
    Yields (addGlobal g >>= k) s P := h

/-- A procedure that is declared has the next number and no body. -/
theorem yields_declareProc_bind {β : Type} {name : String} {ret : Ir.Ty} {params : List Ir.Field}
    {s : Session} {k : Ir.ProcId → Build β} {P : β → Session → Prop}
    (h : Yields (k s.ir.procs.length)
      { s with ir := { s.ir with procs := s.ir.procs ++ [⟨name, ret, params, [], []⟩] } } P) :
    Yields (declareProc name ret params >>= k) s P := h

/-- The fields of a struct can be set if the struct is there. -/
theorem setFields_ok {p : Ir.Program} {id : Ir.StructId} {decl : Ir.StructDef}
    (h : p.structs[id]? = some decl) (fields : List Ir.Field) : p.setFields id fields =
      .ok { p with structs := p.structs.set id { decl with fields := fields } } := by
  unfold Ir.Program.setFields Ir.Program.struct
  rw [find_ok h]
  rfl

theorem setInit_ok {p : Ir.Program} {id : Ir.GlobalId} {g : Ir.Global}
    (h : p.globals[id]? = some g) (init : Ir.Const) :
    p.setInit id init = .ok { p with globals := p.globals.set id { g with init := init } } := by
  unfold Ir.Program.setInit Ir.Program.global
  rw [find_ok h]
  rfl

/-- So can the body of a procedure. -/
theorem setBody_ok {p : Ir.Program} {id : Ir.ProcId} {decl : Ir.Proc}
    (h : p.procs[id]? = some decl) (temps : List Ir.Field) (blocks : List Ir.Block) :
    p.setBody id temps blocks =
      .ok { p with procs := p.procs.set id { decl with temps := temps, blocks := blocks } } := by
  unfold Ir.Program.setBody Ir.Program.proc
  rw [find_ok h]
  rfl

namespace Lower

/-- What the session yields. -/
theorem yields_session {x : Build α} {s : Body} {P : α → Body → Prop}
    (h : Yields x s.session fun a session => P a { s with session := session }) :
    Yields (session x) s P := by
  obtain ⟨a, s', hrun, ha⟩ := h
  refine ⟨a, _, ?_, ha⟩
  show (x.run s.session >>= fun p => .ok (p.1, { s with session := p.2 })) = _
  rw [hrun]
  rfl

/-- What the body that is built yields. -/
theorem yields_emit {x : Ir.Program → Emit α} {s : Body} {P : α → Body → Prop}
    (h : Yields (x s.session.ir) s.builder fun a builder => P a { s with builder := builder }) :
    Yields (emit x) s P := by
  obtain ⟨a, b', hrun, ha⟩ := h
  refine ⟨a, _, ?_, ha⟩
  show (ofIr ((x s.session.ir).run s.builder) >>= fun p => .ok (p.1, { s with builder := p.2 })) = _
  rw [hrun]
  rfl

end Lower

end Lowering

end ClassLang
