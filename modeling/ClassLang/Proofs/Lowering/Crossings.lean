import ClassLang.Proofs.Ir.Traces
import ClassLang.Proofs.Lowering.Code
/-!
# Lowering — crossing code

`Crosses` is a run from a state to a point of the procedure, inside of one call,
that keeps some of the temporaries: what it does to memory, and nothing else, is
in its log, its arithmetic is exact, and it reads and writes at some addresses
only (`State.Confined`). There is one lemma for each piece of code that reads at
most one value. The end of a block may stand behind slots, which are made on the
way; `Proc.Spares` says that their temporaries are not among those to be kept.
-/


namespace ClassLang.Ir

section Confined

variable (p : Program)

/-- The operand whose address is read or written. -/
def Instr.address? : Instr → Option Operand
  | .load _ addr => some addr
  | .store addr _ => some addr
  | _ => none

/-- The address that the next step reads or writes, if it does. -/
def State.touched? (s : State) : Option Addr :=
  (s.instr? p).bind fun i => i.address?.bind (s.frame.addr? p)

/-- The state is one of a call, its arithmetic is exact, and it reads and writes at
such addresses only. -/
structure State.Confined (S : Addr → Prop) (callers : List (Frame × TempId)) (s : State) :
    Prop extends s.Within p callers where
  touched : ∀ x, s.touched? p = some x → S x

end Confined

section Crossings

variable {p : Program} {grant : Nat → Bool} {q : Proc} {K K' : TempId → Prop} {S : Addr → Prop}
variable {log log' : List Access} {m m' m'' : State} {pt pt' pt'' : Point}

/-! ## Where a state is -/

namespace State.At

theorem instr? (hs : m.At p q pt) : m.instr? p = q.instr? pt.block pt.index := by
  rw [State.instr?, hs.proc, Option.bind_some, hs.block, hs.index]

theorem access {i : Instr} (hs : m.At p q pt) (hat : q.At pt i) : m.access p = m.accesses p i := by
  rw [State.access, hs.instr?, show q.instr? pt.block pt.index = some i from hat]
  rfl

/-- Only operations can fail to be exact. -/
theorem exact_ (hs : m.At p q pt) (h : ∀ dst op lhs rhs a b,
    q.At pt (.binary dst op lhs rhs) → m.frame.eval? p lhs = some (.int a) →
      m.frame.eval? p rhs = some (.int b) → op.Exact a b) : m.Exact p := by
  intro dst op lhs rhs a b hi
  rw [hs.instr?] at hi
  exact h dst op lhs rhs a b hi

theorem exact_of_ne {i : Instr} (hs : m.At p q pt) (hat : q.At pt i)
    (hi : ∀ dst op lhs rhs, i ≠ .binary dst op lhs rhs) : m.Exact p :=
  hs.exact_ fun dst op lhs rhs _ _ hat' =>
    absurd (Option.some.inj (hat.symm.trans hat')) (hi dst op lhs rhs)

/-- There is nothing at the end of a block. -/
theorem instr?_end {o : Block} (hs : m.At p q pt) (ho : q.blocks[pt.block]? = some o)
    (hindex : pt.index = o.instrs.length) : m.instr? p = none := by
  rw [hs.instr?, Proc.instr?, ho, Option.bind_some]
  exact List.getElem?_eq_none (Nat.le_of_eq hindex.symm)

theorem exact_end {o : Block} (hs : m.At p q pt) (ho : q.blocks[pt.block]? = some o)
    (hindex : pt.index = o.instrs.length) : m.Exact p := by
  intro dst op lhs rhs a b hi
  rw [hs.instr?_end ho hindex] at hi
  cases hi

/-- What stands at the point decides what is read or written. -/
theorem touched? {i : Instr} (hs : m.At p q pt) (hat : q.At pt i) :
    m.touched? p = i.address?.bind (m.frame.addr? p) := by
  rw [State.touched?, hs.instr?, show q.instr? pt.block pt.index = some i from hat, Option.bind_some]

theorem confined {i : Instr} (hs : m.At p q pt) (hat : q.At pt i) (hexact : m.Exact p)
    (hi : ∀ addr x, i.address? = some addr → m.frame.addr? p addr = some x → S x) :
    m.Confined p S m.callers := by
  refine ⟨⟨rfl, hexact⟩, fun x hx => ?_⟩
  rw [hs.touched? hat] at hx
  obtain ⟨addr, haddr, hx⟩ := Option.bind_eq_some_iff.1 hx
  exact hi addr x haddr hx

/-- Nothing is read nor written at the end of a block. -/
theorem confined_end {o : Block} (hs : m.At p q pt) (ho : q.blocks[pt.block]? = some o)
    (hindex : pt.index = o.instrs.length) : m.Confined p S m.callers := by
  refine ⟨⟨rfl, hs.exact_end ho hindex⟩, fun x hx => ?_⟩
  rw [State.touched?, hs.instr?_end ho hindex] at hx
  cases hx

end State.At

/-! ## Crossings -/

variable (p grant q K S) in
/-- **The machine crosses to a point** of the procedure, in the same call, reading
and writing at such addresses only. What the temporaries hold that are to be kept
stays. -/
structure Crosses (log : List Access) (m : State) (pt : Point) (m' : State) : Prop where
  logs : Logs p grant (State.Confined p S m.callers) log m m'
  at_ : m'.At p q pt
  args : m'.frame.args = m.frame.args
  temps : ∀ t, K t → m'.frame.temps t = m.frame.temps t
  callers : m'.callers = m.callers
  output : m'.output = m.output

namespace Crosses

theorem refl (hs : m.At p q pt) : Crosses p grant q K S [] m pt m :=
  ⟨.refl m, hs, rfl, fun _ _ => rfl, rfl, rfl⟩

theorem trans (h : Crosses p grant q K S log m pt m')
    (h' : Crosses p grant q K S log' m' pt' m'') : Crosses p grant q K S (log ++ log') m pt' m'' :=
  ⟨h.logs.trans (h.callers ▸ h'.logs), h'.at_, h'.args.trans h.args,
    fun t ht => (h'.temps t ht).trans (h.temps t ht), h'.callers.trans h.callers,
    h'.output.trans h.output⟩

theorem mono (h : Crosses p grant q K S log m pt m') (hK : ∀ t, K' t → K t) :
    Crosses p grant q K' S log m pt m' :=
  ⟨h.logs, h.at_, h.args, fun t ht => h.temps t (hK t ht), h.callers, h.output⟩

/-- **Crossings in turn** that keep what is older than the points they start at. -/
theorem then_ (h : Crosses p grant q (· < pt.temps) S log m pt' m')
    (h' : Crosses p grant q (· < pt'.temps) S log' m' pt'' m'') (hle : pt.temps ≤ pt'.temps) :
    Crosses p grant q (· < pt.temps) S (log ++ log') m pt'' m'' :=
  h.trans (h'.mono fun _ ht => Nat.lt_of_lt_of_le ht hle)

/-- An operand has its value as long as its temporary is kept. -/
theorem eval? (h : Crosses p grant q K S log m pt m') {v : Operand} (hv : ∀ t, v = .temp t → K t) :
    m'.frame.eval? p v = m.frame.eval? p v := by
  cases v with
  | temp t => exact h.temps t (hv t rfl)
  | param i => rw [Frame.eval?, Frame.eval?, h.args]
  | int | bool | null | global | proc => rfl

theorem halts (h : Crosses p grant q K S log m pt m') {message : String}
    (h' : HaltsAfter p grant (State.Confined p S m'.callers) log' m' message) :
    HaltsAfter p grant (State.Confined p S m.callers) (log ++ log') m message :=
  HaltsAfter.after h.logs (h.callers ▸ h')

end Crosses

/-! ## Instructions -/

section Instructions

variable (grant) {i : Instr} {v w : Operand} {x y z : Value} {a : Addr} {cell : Cell}

/-- A step inside of the call. -/
theorem Crosses.single (hs : m.At p q pt) (hat : q.At pt i) (hexact : m.Exact p)
    (hi : ∀ addr x, i.address? = some addr → m.frame.addr? p addr = some x → S x)
    (hexec : m.exec? p grant i = some m') (hnext : m'.At p q pt')
    (hargs : m'.frame.args = m.frame.args)
    (htemps : ∀ t, K t → m'.frame.temps t = m.frame.temps t) (hcallers : m'.callers = m.callers)
    (houtput : m'.output = m.output) : Crosses p grant q K S (m.accesses p i) m pt' m' := by
  have hstep : step p grant m = .next m' := by rw [step_at hs hat, hexec]; rfl
  have hlogs := Logs.step (hs.confined hat hexact hi) hstep
    (.refl (I := State.Confined p S m.callers) m')
  rw [List.append_nil, hs.access hat] at hlogs
  exact ⟨hlogs, hnext, hargs, htemps, hcallers, houtput⟩

/-- **An instruction gives the next temporary its value.** -/
theorem State.At.crosses_give {f : TempId → Instr} (hs : m.At p q pt)
    (hdef : q.Defines f pt v pt') (hexact : m.Exact p)
    (hi : ∀ addr x, (f pt.temps).address? = some addr → m.frame.addr? p addr = some x → S x)
    (hexec : m.exec? p grant (f pt.temps) = some (m.give pt.temps x))
    (hlog : m.accesses p (f pt.temps) = []) (hK : ¬ K pt.temps) :
    ∃ m', Crosses p grant q K S [] m pt' m' ∧ m'.frame.eval? p v = some x := by
  obtain ⟨hat, rfl, rfl⟩ := hdef
  refine ⟨m.give pt.temps x, hlog ▸ .single grant hs hat hexact hi hexec
    ⟨hs.proc, hs.block, congrArg (· + 1) hs.index⟩ rfl (fun t ht => if_neg ?_) rfl rfl, if_pos rfl⟩
  rintro rfl
  exact hK ht

/-- The result of an operation. -/
theorem State.At.crosses_operation {op : BinOp} {lhs rhs : Operand} (hs : m.At p q pt)
    (hdef : q.Defines (.binary · op lhs rhs) pt v pt') (hlhs : m.frame.eval? p lhs = some x)
    (hrhs : m.frame.eval? p rhs = some y) (hop : op.eval? x y = some z)
    (hexact : ∀ a b, x = .int a → y = .int b → op.Exact a b) (hK : ¬ K pt.temps) :
    ∃ m', Crosses p grant q K S [] m pt' m' ∧ m'.frame.eval? p v = some z := by
  refine hs.crosses_give grant hdef (hs.exact_ fun dst op' lhs' rhs' a b hat ha hb => ?_) nofun ?_
    rfl hK
  · obtain ⟨-, rfl, rfl, rfl⟩ := Instr.binary.inj (Option.some.inj (hat.symm.trans hdef.1))
    exact hexact a b (Option.some.inj (hlhs.symm.trans ha)) (Option.some.inj (hrhs.symm.trans hb))
  · simp [State.exec?, hlhs, hrhs, hop]

/-- A value is read, from an address where that is allowed. -/
theorem State.At.crosses_load (hs : m.At p q pt) (hdef : q.Defines (.load · w) pt v pt')
    (hw : m.frame.eval? p w = some (.ptr a)) (ha : S a) (hcell : m.memory[a.object]? = some cell)
    (hload : cell.load? a.path = some x) (hK : ¬ K pt.temps) :
    ∃ m', Crosses p grant q K S [] m pt' m' ∧ m'.frame.eval? p v = some x := by
  have haddr : m.frame.addr? p w = some a := by simp [Frame.addr?, hw]
  refine hs.crosses_give grant hdef (hs.exact_of_ne hdef.1 (by simp)) (fun addr x h hx => ?_) ?_ rfl hK
  · obtain rfl := Option.some.inj h
    exact Option.some.inj (haddr.symm.trans hx) ▸ ha
  · simp [State.exec?, haddr, hcell, hload]

theorem State.At.crosses_bitcast (hs : m.At p q pt) (hdef : q.Defines (.bitcast · w) pt v pt')
    (hw : m.frame.eval? p w = some x) (hK : ¬ K pt.temps) :
    ∃ m', Crosses p grant q K S [] m pt' m' ∧ m'.frame.eval? p v = some x :=
  hs.crosses_give grant hdef (hs.exact_of_ne hdef.1 (by simp)) nofun (by simp [State.exec?, hw]) rfl hK

/-- The address of a part. -/
theorem State.At.crosses_select {indices : List Operand} {path : List Nat} (hs : m.At p q pt)
    (hdef : q.Defines (.elementPtr · w (.int 0 :: indices)) pt v pt')
    (hw : m.frame.eval? p w = some (.ptr a)) (hpath : indices.mapM (m.frame.part? p) = some path)
    (hcell : m.memory[a.object]? = some cell) (hhas : cell.Has (a.path ++ path))
    (hK : ¬ K pt.temps) : ∃ m', Crosses p grant q K S [] m pt' m' ∧
      m'.frame.eval? p v = some (.ptr ⟨a.object, a.path ++ path⟩) := by
  have hzero : m.frame.eval? p (.int 0) = some (.int 0) := rfl
  refine hs.crosses_give grant hdef (hs.exact_of_ne hdef.1 (by simp)) nofun ?_ rfl hK
  simp [State.exec?, Frame.addr?, Frame.int?, hw, hzero, hpath, hcell, hhas]

end Instructions

/-! ## Ends of blocks -/

/-- A slot is made between the point and the end of its block. -/
def Proc.SlotBehind (q : Proc) (pt : Point) (d : TempId) : Prop :=
  ∃ j ty, pt.index ≤ j ∧ q.instr? pt.block j = some (.alloca d ty)

/-- No slot that is made behind the point is among the temporaries. -/
def Proc.Spares (q : Proc) (pt : Point) (K : TempId → Prop) : Prop :=
  ∀ d, q.SlotBehind pt d → ¬ K d

/-- The slots behind the point have got allocations of their own. -/
def State.Makes (q : Proc) (pt : Point) (m m' : State) : Prop :=
  ∀ d, q.SlotBehind pt d → ∃ c, m.memory.length ≤ c ∧ c < m'.memory.length ∧ m'.SlotAt d c

namespace Proc

/-- Before the end of a block there are newer slots only. -/
theorem Ends.spares {t : Terminator} (h : q.Ends pt t) : q.Spares pt (· < pt.temps) := by
  obtain ⟨o, ho, -, -, hslots⟩ := h
  rintro d ⟨j, ty, hj, hi⟩
  rw [instr?, ho, Option.bind_some] at hi
  have hmem : Instr.alloca d ty ∈ o.instrs.drop pt.index := by
    refine List.mem_iff_getElem?.2 ⟨j - pt.index, ?_⟩
    rw [List.getElem?_drop, Nat.add_sub_cancel' hj, hi]
  obtain ⟨_, _, heq, hle⟩ := hslots _ hmem
  obtain ⟨rfl, -⟩ := Instr.alloca.inj heq
  exact Nat.not_lt.2 hle

/-- Slots are made in the entry block. -/
theorem Single.spares (h : q.Single) (hblock : pt.block ≠ 0) : q.Spares pt K :=
  fun _ ⟨_, _, _, hi⟩ => absurd (h.slots _ _ _ _ hi) hblock

theorem Spares.mono (h : q.Spares pt K) (hK : ∀ t, K' t → K t) : q.Spares pt K' :=
  fun d hd hd' => h d hd (hK d hd')

theorem Spares.or (h : q.Spares pt K) (h' : q.Spares pt K') :
    q.Spares pt fun t => K t ∨ K' t :=
  fun d hd hK => hK.elim (h d hd) (h' d hd)

/-- A check makes no temporary, and is the last of its block. -/
theorem HaltsIf.leaves {cond : Operand} {message : String} (h : q.HaltsIf cond message pt pt') :
    pt'.temps = pt.temps ∧ pt'.block ≠ 0 := by
  cases h with
  | mk _ _ _ hok => exact ⟨rfl, hok⟩

theorem HaltsIf.spares {cond : Operand} {message : String} (h : q.HaltsIf cond message pt pt') :
    q.Spares pt (· < pt.temps) := by
  cases h with
  | mk hbranch _ _ _ => exact hbranch.spares

end Proc

section Ends

variable (grant) {t : Terminator} {cond v : Operand} {message : String} {x : Value} {yes no : BlockId}

theorem State.At.crosses_slot {d : TempId} {ty : Ty} (hs : m.At p q pt)
    (hat : q.At pt (.alloca d ty)) (hK : ¬ K d) : Crosses p grant q K S [] m pt.next (m.create d) := by
  refine .single grant hs hat (hs.exact_of_ne hat (by simp)) nofun rfl
    ⟨hs.proc, hs.block, congrArg (· + 1) hs.index⟩ rfl (fun t ht => if_neg ?_) rfl rfl
  rintro rfl
  exact hK ht

/-- **The machine passes to the end of a block**, and makes the slots before it. -/
theorem State.At.crosses_toEnd (hs : m.At p q pt) (hends : q.Ends pt t) (hK : q.Spares pt K) :
    ∃ o m', q.blocks[pt.block]? = some o ∧ o.terminator = t ∧
      Crosses p grant q K S [] m ⟨pt.temps, pt.block, o.instrs.length⟩ m' ∧ m.Makes q pt m' := by
  obtain ⟨o, ho, hterm, hle, hslots⟩ := hends
  refine ⟨o, ?_⟩
  -- By the number of slots before the end.
  induction hd : o.instrs.length - pt.index generalizing pt m K with
  | zero =>
    have hindex : pt.index = o.instrs.length := by omega
    refine ⟨m, ho, hterm, by rw [← hindex]; exact .refl hs, fun d ⟨j, ty, hj, hi⟩ => ?_⟩
    rw [Proc.instr?, ho, Option.bind_some, List.getElem?_eq_none (by omega)] at hi
    cases hi
  | succ n ih =>
    have hlt : pt.index < o.instrs.length := by omega
    have hat : q.At pt o.instrs[pt.index] := by
      rw [Proc.At, Proc.instr?, ho, Option.bind_some, List.getElem?_eq_getElem hlt]
    rw [List.drop_eq_getElem_cons hlt, List.forall_mem_cons] at hslots
    obtain ⟨d, ty, hslot, -⟩ := hslots.1
    rw [hslot] at hat
    have hmakes := hs.crosses_slot grant (S := S) hat (hK d ⟨pt.index, ty, Nat.le_refl _, hat⟩)
    -- The temporary of the slot stays, unless it is that of another one.
    have hspares : q.Spares pt.next fun t => K t ∨ (t = d ∧ ¬ q.SlotBehind pt.next d) := by
      rintro e ⟨j, ty', hj, hi⟩ (he | ⟨rfl, he⟩)
      · exact hK e ⟨j, ty', Nat.le_of_succ_le hj, hi⟩ he
      · exact he ⟨j, ty', hj, hi⟩
    obtain ⟨m', -, -, hrest, hnew⟩ :=
      ih hmakes.at_ hspares ho hlt hslots.2 (by show _ - (_ + 1) = n; omega)
    refine ⟨m', ho, hterm, hmakes.trans (hrest.mono fun _ => .inl), fun e ⟨j, ty', hj, hi⟩ => ?_⟩
    have hlength : m.memory.length < (m.create d).memory.length := by
      simp [State.create]
    by_cases he : q.SlotBehind pt.next e
    · obtain ⟨c, hc, hc', hat'⟩ := hnew e he
      exact ⟨c, by omega, hc', hat'⟩
    · obtain rfl : j = pt.index := by
        by_contra hne
        exact he ⟨j, ty', by show _ + 1 ≤ j; omega, hi⟩
      obtain ⟨rfl, -⟩ := Instr.alloca.inj (Option.some.inj (hat.symm.trans hi))
      refine ⟨m.memory.length, Nat.le_refl _,
        Nat.lt_of_lt_of_le hlength hrest.logs.accounts.length, ?_⟩
      exact (hrest.temps d (.inr ⟨rfl, he⟩)).trans (if_pos rfl)

/-- The end of a block leads to another one. -/
theorem Crosses.enters {o : Block} {k : BlockId} {n : Nat} (hs : m.At p q pt)
    (ho : q.blocks[pt.block]? = some o) (hindex : pt.index = o.instrs.length)
    (hleave : m.leave p o.terminator = .next (m.withFrame (m.frame.goto k))) :
    Crosses p grant q K S [] m ⟨n, k, 0⟩ (m.withFrame (m.frame.goto k)) := by
  have hstep : step p grant m = .next (m.withFrame (m.frame.goto k)) := by
    rw [step_end hs ho hindex, hleave]
  have hlogs := Logs.step (hs.confined_end ho hindex) hstep
    (.refl (I := State.Confined p S m.callers) (m.withFrame (m.frame.goto k)))
  rw [List.append_nil, State.access, hs.instr?_end ho hindex] at hlogs
  exact ⟨hlogs, ⟨hs.proc, rfl, rfl⟩, rfl, fun _ _ => rfl, rfl, rfl⟩

theorem State.Makes.withFrame (h : m.Makes q pt m') (f : Frame)
    (hf : f.temps = m'.frame.temps) : m.Makes q pt (m'.withFrame f) := fun d hd => by
  obtain ⟨c, hc, hc', hat⟩ := h d hd
  exact ⟨c, hc, hc', (congrFun hf d).trans hat⟩

/-- **A jump.** -/
theorem State.At.crosses_jump {k : BlockId} (hs : m.At p q pt) (hends : q.Ends pt (.jump k))
    (hK : q.Spares pt K) : ∃ m', Crosses p grant q K S [] m (pt.enter k) m' ∧ m.Makes q pt m' := by
  obtain ⟨o, m', ho, hterm, hcross, hnew⟩ := hs.crosses_toEnd grant hends hK
  exact ⟨_, hcross.trans (.enters grant hcross.at_ ho rfl (by rw [hterm]; rfl)), hnew.withFrame _ rfl⟩

/-- **A branch.** -/
theorem State.At.crosses_branch {b : Bool} (hs : m.At p q pt)
    (hends : q.Ends pt (.branch cond yes no))
    (hcond : m.frame.eval? p cond = some (.bool b)) (hbefore : cond.Before pt.temps)
    (hK : q.Spares pt K) : ∃ m', Crosses p grant q K S [] m (pt.enter (if b then yes else no)) m' ∧
      m.Makes q pt m' := by
  obtain ⟨o, m', ho, hterm, hcross, hnew⟩ :=
    hs.crosses_toEnd grant (S := S) hends (hends.spares.or hK)
  have hcond' : m'.frame.eval? p cond = some (.bool b) :=
    (hcross.eval? fun t ht => .inl (hbefore t ht)).trans hcond
  have hleave : m'.leave p o.terminator =
      .next (m'.withFrame (m'.frame.goto (if b then yes else no))) := by
    simp only [hterm, State.leave, hcond']
  exact ⟨_, (hcross.mono fun _ => .inr).trans (.enters grant hcross.at_ ho rfl hleave),
    hnew.withFrame _ rfl⟩

/-- The end of a run. -/
theorem State.At.crosses_halt (hs : m.At p q pt) (hends : q.Ends pt (.halt message)) :
    HaltsAfter p grant (State.Confined p S m.callers) [] m message := by
  obtain ⟨o, m', ho, hterm, hcross, -⟩ := hs.crosses_toEnd grant (S := S) hends hends.spares
  have hhalt : step p grant m' = .halted message := by
    rw [step_end hcross.at_ ho rfl, hterm]
    rfl
  have hend : HaltsAfter p grant (State.Confined p S m'.callers) [] m' message :=
    ⟨m', .refl m', hcross.at_.confined_end ho rfl, hhalt⟩
  exact hcross.halts hend

/-! ## Checks -/

/-- A check that holds halts. -/
theorem State.At.crosses_fail (hs : m.At p q pt) (hcheck : q.HaltsIf cond message pt pt')
    (hcond : m.frame.eval? p cond = some (.bool true)) (hbefore : cond.Before pt.temps) :
    HaltsAfter p grant (State.Confined p S m.callers) [] m message := by
  cases hcheck with
  | mk hbranch hhalt _ _ =>
    obtain ⟨m', hcross, -⟩ := hs.crosses_branch grant (S := S) hbranch hcond hbefore hbranch.spares
    exact hcross.halts (hcross.at_.crosses_halt grant hhalt)

/-- A check that does not hold is passed. -/
theorem State.At.crosses_pass (hs : m.At p q pt) (hcheck : q.HaltsIf cond message pt pt')
    (hcond : m.frame.eval? p cond = some (.bool false)) (hbefore : cond.Before pt.temps)
    (hK : q.Spares pt K) : ∃ m', Crosses p grant q K S [] m pt' m' ∧ m.Makes q pt m' := by
  cases hcheck with
  | mk hbranch _ _ _ => exact hs.crosses_branch grant hbranch hcond hbefore hK

/-- **A comparison and the check of it.** The slots behind it are made where the
check is passed. -/
theorem State.At.crosses_check {op : BinOp} {lhs rhs : Operand} {y : Value} {fails : Bool}
    (hs : m.At p q pt) (htest : q.Defines (.binary · op lhs rhs) pt cond pt')
    (hcheck : q.HaltsIf cond message pt' pt'') (hlhs : m.frame.eval? p lhs = some x)
    (hrhs : m.frame.eval? p rhs = some y) (hop : op.eval? x y = some (.bool fails))
    (hexact : ∀ a b, x = .int a → y = .int b → op.Exact a b) (hnew : ¬ K pt.temps)
    (hK : q.Spares pt' K) :
    if fails = true then HaltsAfter p grant (State.Confined p S m.callers) [] m message
    else ∃ m', Crosses p grant q K S [] m pt'' m' ∧ m.Makes q pt m' := by
  obtain ⟨m₁, h₁, hcond⟩ := hs.crosses_operation grant (K := K) (S := S) htest hlhs hrhs hop hexact hnew
  have hat := htest.1
  obtain ⟨-, rfl, rfl⟩ := htest
  have hbefore : (Operand.temp pt.temps).Before pt.define.temps := by
    rintro _ ⟨⟩
    exact Nat.lt_succ_self _
  cases fails with
  | true =>
    rw [if_pos rfl]
    exact h₁.halts (h₁.at_.crosses_fail grant hcheck hcond hbefore)
  | false =>
    rw [if_neg Bool.false_ne_true]
    obtain ⟨m₂, h₂, hmade⟩ := h₁.at_.crosses_pass grant hcheck hcond hbefore hK
    refine ⟨m₂, h₁.trans h₂, fun d ⟨j, ty, hj, hslot⟩ => ?_⟩
    have hne : j ≠ pt.index := by
      rintro rfl
      cases hat.symm.trans hslot
    obtain ⟨c, hc, hc', hkept⟩ := hmade d ⟨j, ty, by show _ + 1 ≤ j; omega, hslot⟩
    exact ⟨c, Nat.le_trans h₁.logs.accounts.length hc, hc', hkept⟩

end Ends

end Crossings

end ClassLang.Ir
