import ClassLang.Proofs.Lowering.Crossings
/-!
# Lowering — passing code

`Passes` is a run from a state to a point of the procedure, inside of one call,
that keeps some of the temporaries: what it does to memory, and nothing else, is
in its log. There is one lemma for each piece of code that a passage leads
through; most of them say less of what was said of crossings, since it does not
matter here what is read.
-/


namespace ClassLang.Ir

section Passages

variable {p : Program} {grant : Nat → Bool} {q : Proc} {K K' : TempId → Prop}
variable {log log' : List Access} {m m' m'' : State} {pt pt' pt'' : Point}

/-! ## Passages -/

variable (p grant q K) in
/-- **The machine passes to a point** of the procedure, in the same call. What
the temporaries hold that are to be kept stays. -/
structure Passes (log : List Access) (m : State) (pt : Point) (m' : State) : Prop where
  logs : Logs p grant (State.Within p m.callers) log m m'
  at_ : m'.At p q pt
  args : m'.frame.args = m.frame.args
  temps : ∀ t, K t → m'.frame.temps t = m.frame.temps t
  callers : m'.callers = m.callers
  output : m'.output = m.output

namespace Passes

theorem trans (h : Passes p grant q K log m pt m') (h' : Passes p grant q K log' m' pt' m'') :
    Passes p grant q K (log ++ log') m pt' m'' :=
  ⟨h.logs.trans (h.callers ▸ h'.logs), h'.at_, h'.args.trans h.args,
    fun t ht => (h'.temps t ht).trans (h.temps t ht), h'.callers.trans h.callers,
    h'.output.trans h.output⟩

theorem mono (h : Passes p grant q K log m pt m') (hK : ∀ t, K' t → K t) :
    Passes p grant q K' log m pt m' :=
  ⟨h.logs, h.at_, h.args, fun t ht => h.temps t (hK t ht), h.callers, h.output⟩

/-- **Passages in turn** that keep what is older than the points they start at. -/
theorem then_ (h : Passes p grant q (· < pt.temps) log m pt' m')
    (h' : Passes p grant q (· < pt'.temps) log' m' pt'' m'') (hle : pt.temps ≤ pt'.temps) :
    Passes p grant q (· < pt.temps) (log ++ log') m pt'' m'' :=
  h.trans (h'.mono fun _ ht => Nat.lt_of_lt_of_le ht hle)

/-- How many temporaries there are before the point does not matter. -/
theorem at_temps (h : Passes p grant q K log m pt m') (n : Nat) :
    Passes p grant q K log m ⟨n, pt.block, pt.index⟩ m' :=
  ⟨h.logs, ⟨h.at_.proc, h.at_.block, h.at_.index⟩, h.args, h.temps, h.callers, h.output⟩

/-- An operand has its value as long as its temporary is kept. -/
theorem eval? (h : Passes p grant q K log m pt m') {v : Operand} (hv : ∀ t, v = .temp t → K t) :
    m'.frame.eval? p v = m.frame.eval? p v := by
  cases v with
  | temp t => exact h.temps t (hv t rfl)
  | param i => rw [Frame.eval?, Frame.eval?, h.args]
  | int | bool | null | global | proc => rfl

/-- What the passage does not write to is kept. -/
theorem held (h : Passes p grant q K log m pt m') {o : Nat} {cell : Cell}
    (hcell : m.memory[o]? = some cell) (hlog : ∀ path value, .write ⟨o, path⟩ value ∉ log) :
    m'.memory[o]? = some cell :=
  (h.logs.accounts.kept o (List.getElem?_eq_some_iff.1 hcell).1 hlog).trans hcell

theorem halts (h : Passes p grant q K log m pt m') {message : String}
    (h' : HaltsAfter p grant (State.Within p m'.callers) log' m' message) :
    HaltsAfter p grant (State.Within p m.callers) (log ++ log') m message :=
  HaltsAfter.after h.logs (h.callers ▸ h')

theorem returns (h : Passes p grant q K log m pt m') {value : Value}
    (h' : ReturnsAfter p grant (State.Within p m'.callers) log' m' value m'') :
    ReturnsAfter p grant (State.Within p m.callers) (log ++ log') m value m'' := by
  rw [h.callers] at h'
  exact ⟨h.logs.trans h'.logs, h'.last, h'.returns⟩

end Passes

theorem Crosses.passes {S : Addr → Prop} (h : Crosses p grant q K S log m pt m') :
    Passes p grant q K log m pt m' :=
  ⟨h.logs.mono fun _ hs => hs.toWithin, h.at_, h.args, h.temps, h.callers, h.output⟩

theorem exists_passes {P : State → Prop} {S : Addr → Prop}
    (h : ∃ m', Crosses p grant q K S log m pt m' ∧ P m') :
    ∃ m', Passes p grant q K log m pt m' ∧ P m' :=
  h.imp fun _ h => h.imp_left Crosses.passes

/-! ## Instructions -/

section Instructions

variable (grant) {i : Instr} {v w : Operand} {x y z : Value} {a : Addr} {cell : Cell}

/-- A step inside of the call. -/
theorem Passes.single (hs : m.At p q pt) (hat : q.At pt i) (hexact : m.Exact p)
    (hexec : m.exec? p grant i = some m') (hnext : m'.At p q pt')
    (hargs : m'.frame.args = m.frame.args)
    (htemps : ∀ t, K t → m'.frame.temps t = m.frame.temps t) (hcallers : m'.callers = m.callers)
    (houtput : m'.output = m.output) : Passes p grant q K (m.accesses p i) m pt' m' := by
  have hstep : step p grant m = .next m' := by rw [step_at hs hat, hexec]; rfl
  have hlogs := Logs.step ⟨rfl, hexact⟩ hstep (.refl (I := State.Within p m.callers) m')
  rw [List.append_nil, hs.access hat] at hlogs
  exact ⟨hlogs, hnext, hargs, htemps, hcallers, houtput⟩

/-- The result of an operation. -/
theorem State.At.operates {op : BinOp} {lhs rhs : Operand} (hs : m.At p q pt)
    (hdef : q.Defines (.binary · op lhs rhs) pt v pt') (hlhs : m.frame.eval? p lhs = some x)
    (hrhs : m.frame.eval? p rhs = some y) (hop : op.eval? x y = some z)
    (hexact : ∀ a b, x = .int a → y = .int b → op.Exact a b) (hK : ¬ K pt.temps) :
    ∃ m', Passes p grant q K [] m pt' m' ∧ m'.frame.eval? p v = some z :=
  exists_passes (hs.crosses_operation grant (S := fun _ => True) hdef hlhs hrhs hop hexact hK)

theorem State.At.loads (hs : m.At p q pt) (hdef : q.Defines (.load · w) pt v pt')
    (hw : m.frame.eval? p w = some (.ptr a)) (hcell : m.memory[a.object]? = some cell)
    (hload : cell.load? a.path = some x) (hK : ¬ K pt.temps) :
    ∃ m', Passes p grant q K [] m pt' m' ∧ m'.frame.eval? p v = some x :=
  exists_passes (hs.crosses_load grant (S := fun _ => True) hdef hw trivial hcell hload hK)

theorem State.At.recasts (hs : m.At p q pt) (hdef : q.Defines (.bitcast · w) pt v pt')
    (hw : m.frame.eval? p w = some x) (hK : ¬ K pt.temps) :
    ∃ m', Passes p grant q K [] m pt' m' ∧ m'.frame.eval? p v = some x :=
  exists_passes (hs.crosses_bitcast grant (S := fun _ => True) hdef hw hK)

/-- The address of a part. -/
theorem State.At.selects {indices : List Operand} {path : List Nat} (hs : m.At p q pt)
    (hdef : q.Defines (.elementPtr · w (.int 0 :: indices)) pt v pt')
    (hw : m.frame.eval? p w = some (.ptr a)) (hpath : indices.mapM (m.frame.part? p) = some path)
    (hcell : m.memory[a.object]? = some cell) (hhas : cell.Has (a.path ++ path))
    (hK : ¬ K pt.temps) : ∃ m', Passes p grant q K [] m pt' m' ∧
      m'.frame.eval? p v = some (.ptr ⟨a.object, a.path ++ path⟩) :=
  exists_passes (hs.crosses_select grant (S := fun _ => True) hdef hw hpath hcell hhas hK)

/-- **A value is written.** -/
theorem State.At.writes (hs : m.At p q pt) (hstore : q.Stores w v pt pt')
    (hw : m.frame.eval? p w = some (.ptr a)) (hv : m.frame.eval? p v = some x)
    (hcell : m.memory[a.object]? = some cell) : ∃ m', Passes p grant q K [.write a x] m pt' m' ∧
      m'.memory[a.object]? = some (cell.store a.path x) := by
  obtain ⟨hat, rfl⟩ := hstore
  have hlog : m.accesses p (.store w v) = [.write a x] := by
    simp [State.accesses, Frame.addr?, hw, hv]
  refine ⟨{ m.advance with memory := m.memory.set a.object (cell.store a.path x) },
    hlog ▸ .single grant hs hat (hs.exact_of_ne hat (by simp)) ?_
      ⟨hs.proc, hs.block, congrArg (· + 1) hs.index⟩ rfl (fun _ _ => rfl) rfl rfl,
    List.getElem?_set_self (List.getElem?_eq_some_iff.1 hcell).1⟩
  simp [State.exec?, Frame.addr?, hw, hv, hcell]

/-- **Memory is asked for.** If there is some, the allocation is new. -/
theorem State.At.asks {bytes : Int32} (hs : m.At p q pt)
    (hdef : q.Defines (.alloc · w) pt v pt') (hw : m.frame.eval? p w = some (.int bytes))
    (hK : ¬ K pt.temps) : ∃ m', Passes p grant q K [.request bytes] m pt' m' ∧
      (grant m.requests = false → m'.frame.eval? p v = some .null) ∧
      (grant m.requests = true → m'.frame.eval? p v = some (.ptr ⟨m.memory.length, []⟩) ∧
        m'.memory[m.memory.length]? = some .uninit) := by
  obtain ⟨hat, rfl, rfl⟩ := hdef
  have hlog : m.accesses p (.alloc pt.temps w) = [.request bytes] := by
    simp [State.accesses, Frame.int?, hw]
  have hkept {x : Value} (t : TempId) (ht : K t) :
      (m.give pt.temps x).frame.temps t = m.frame.temps t := if_neg (by rintro rfl; exact hK ht)
  have hsingle {x : Value} {m' : State} (hframe : m'.frame = (m.give pt.temps x).frame)
      (hcallers : m'.callers = m.callers) (houtput : m'.output = m.output)
      (hexec : m.exec? p grant (.alloc pt.temps w) = some m') :
      Passes p grant q K [.request bytes] m pt.define m' :=
    hlog ▸ .single grant hs hat (hs.exact_of_ne hat (by simp)) hexec
      ⟨hframe ▸ hs.proc, hframe ▸ hs.block, hframe ▸ congrArg (· + 1) hs.index⟩ (hframe ▸ rfl)
      (fun t ht => hframe ▸ hkept t ht) hcallers houtput
  cases hgrant : grant m.requests with
  | true =>
    refine ⟨{ m.create pt.temps with requests := m.requests + 1 }, hsingle rfl rfl rfl ?_, by simp,
      fun _ => ⟨if_pos rfl, List.getElem?_concat_length⟩⟩
    simp [State.exec?, Frame.int?, hw, hgrant]
  | false =>
    refine ⟨{ m.give pt.temps .null with requests := m.requests + 1 }, hsingle rfl rfl rfl ?_,
      fun _ => if_pos rfl, by simp⟩
    simp [State.exec?, Frame.int?, hw, hgrant]

end Instructions

/-! ## Ends of blocks -/

section Ends

variable (grant) {t : Terminator} {cond v : Operand} {message : String} {x : Value} {yes no : BlockId}

/-- **A jump.** -/
theorem State.At.jumps {k : BlockId} (hs : m.At p q pt) (hends : q.Ends pt (.jump k))
    (hK : q.Spares pt K) : ∃ m', Passes p grant q K [] m (pt.enter k) m' ∧ m.Makes q pt m' :=
  exists_passes (hs.crosses_jump grant (S := fun _ => True) hends hK)

/-- **A branch.** -/
theorem State.At.branches {b : Bool} (hs : m.At p q pt) (hends : q.Ends pt (.branch cond yes no))
    (hcond : m.frame.eval? p cond = some (.bool b)) (hbefore : cond.Before pt.temps)
    (hK : q.Spares pt K) : ∃ m', Passes p grant q K [] m (pt.enter (if b then yes else no)) m' ∧
      m.Makes q pt m' :=
  exists_passes (hs.crosses_branch grant (S := fun _ => True) hends hcond hbefore hK)

/-- **The call returns.** -/
theorem State.At.returns (hs : m.At p q pt) (hends : q.Ends pt (.ret v))
    (hv : m.frame.eval? p v = some x) (hbefore : v.Before pt.temps) :
    ∃ m', ReturnsAfter p grant (State.Within p m.callers) [] m x m' := by
  obtain ⟨o, m', ho, hterm, hcross, -⟩ :=
    hs.crosses_toEnd grant (S := fun _ => True) hends hends.spares
  have hpass := hcross.passes
  refine ⟨m', hpass.logs, ⟨hpass.callers, hpass.at_.exact_end ho rfl⟩, ?_⟩
  have hv' : m'.frame.eval? p v = some x := (hpass.eval? hbefore).trans hv
  simp only [step_end hpass.at_ ho rfl, hterm, State.leave, hv']

/-! ## Checks -/

/-- A check that holds halts. -/
theorem State.At.fails (hs : m.At p q pt) (hcheck : q.HaltsIf cond message pt pt')
    (hcond : m.frame.eval? p cond = some (.bool true)) (hbefore : cond.Before pt.temps) :
    HaltsAfter p grant (State.Within p m.callers) [] m message :=
  (hs.crosses_fail grant (S := fun _ => True) hcheck hcond hbefore).mono fun _ hs => hs.toWithin

/-- **A comparison and the check of it.** The slots behind it are made where the
check is passed. -/
theorem State.At.checks {op : BinOp} {lhs rhs : Operand} {y : Value} {fails : Bool}
    (hs : m.At p q pt) (htest : q.Defines (.binary · op lhs rhs) pt cond pt')
    (hcheck : q.HaltsIf cond message pt' pt'') (hlhs : m.frame.eval? p lhs = some x)
    (hrhs : m.frame.eval? p rhs = some y) (hop : op.eval? x y = some (.bool fails))
    (hexact : ∀ a b, x = .int a → y = .int b → op.Exact a b) (hnew : ¬ K pt.temps)
    (hK : q.Spares pt' K) :
    if fails = true then HaltsAfter p grant (State.Within p m.callers) [] m message
    else ∃ m', Passes p grant q K [] m pt'' m' ∧ m.Makes q pt m' := by
  have h := hs.crosses_check grant (S := fun _ => True) htest hcheck hlhs hrhs hop hexact hnew hK
  cases fails with
  | true => exact h.mono fun _ hs => hs.toWithin
  | false => exact exists_passes h

end Ends

end Passages

end ClassLang.Ir
