import ClassLang.Proofs.Ir.Traces
/-!
# Intermediate form — slots are there

In a program whose procedures make every slot in their entry block, and give
every temporary at one place, a run from a call never comes to a point without
the slots that were made before it: each has an allocation of its own
(`Reaches.slotted`). This holds of the call that is run and of those that wait
for it, so also behind a call.
-/


namespace ClassLang.Ir

variable {p : Program} {grant : Nat → Bool} {s s' : State} {f f' : Frame} {q : Proc} {bound : Nat}
variable {i : Instr} {d : TempId} {n : Nat}

/-- Where a call is. -/
def Frame.point (f : Frame) : Point := ⟨0, f.block, f.index⟩

/-- **The slots of a call are there**: each that was made before the point has an
allocation, and no two have the same. -/
structure Frame.Slotted (q : Proc) (f : Frame) (bound : Nat) : Prop where
  made : ∀ d, q.SlotBefore f.point d → ∃ o < bound, f.temps d = some (.ptr ⟨o, []⟩)
  apart : ∀ d d' o, q.SlotBefore f.point d → q.SlotBefore f.point d' →
    f.temps d = some (.ptr ⟨o, []⟩) → f.temps d' = some (.ptr ⟨o, []⟩) → d = d'

namespace Frame.Slotted

theorem mono (h : f.Slotted q bound) {bound' : Nat} (hle : bound ≤ bound') : f.Slotted q bound' :=
  ⟨fun d hd => by
    obtain ⟨o, ho, hat⟩ := h.made d hd
    exact ⟨o, Nat.lt_of_lt_of_le ho hle, hat⟩, h.apart⟩

/-- At another point, where no other slots were made before, with the same slots. -/
theorem congr (h : f.Slotted q bound)
    (hbefore : ∀ d, q.SlotBefore f'.point d → q.SlotBefore f.point d ∧ f'.temps d = f.temps d) :
    f'.Slotted q bound := by
  refine ⟨fun d hd => ?_, fun d d' o hd hd' ho ho' => ?_⟩
  · rw [(hbefore d hd).2]
    exact h.made d (hbefore d hd).1
  · rw [(hbefore d hd).2] at ho
    rw [(hbefore d' hd').2] at ho'
    exact h.apart d d' o (hbefore d hd).1 (hbefore d' hd').1 ho ho'

/-- No slots were made before the first instruction. -/
theorem enter (q : Proc) (proc : ProcId) (args : List Value) :
    (Frame.enter proc args).Slotted q bound := by
  have hnone (d : TempId) : ¬ q.SlotBefore (Frame.enter proc args).point d :=
    fun ⟨j, _, _, hj⟩ => Nat.not_lt_zero j (hj rfl)
  exact ⟨fun d hd => absurd hd (hnone d), fun d _ _ hd => absurd hd (hnone d)⟩

theorem advance (h : f.Slotted q bound) (hat : q.At f.point i)
    (hslot : ∀ d ty, i ≠ .alloca d ty) : f.advance.Slotted q bound :=
  h.congr fun _ hd => ⟨hd.of_step hat hslot, rfl⟩

/-- Another instruction gives no temporary of a slot. -/
theorem give (h : f.Slotted q bound) (hq : q.Single) (hat : q.At f.point i)
    (hslot : ∀ d ty, i ≠ .alloca d ty) {t : TempId} (hdst : i.dst? = some t) (x : Value) :
    (f.give t x).Slotted q bound :=
  h.congr fun _ hd => ⟨hd.of_step hat hslot, if_neg (hq.slot_ne hd hat hdst (hslot t))⟩

/-- A slot is made. -/
theorem make (h : f.Slotted q bound) {ty : Ty} (hat : q.At f.point (.alloca d ty)) :
    (f.give d (.ptr ⟨bound, []⟩)).Slotted q (bound + 1) := by
  have hold {e : TempId} (he : q.SlotBefore (f.give d (.ptr ⟨bound, []⟩)).point e) (hne : e ≠ d) :
      q.SlotBefore f.point e := by
    refine (he.of_next hat rfl rfl).resolve_right ?_
    rintro ⟨_, _, heq⟩
    exact hne (Instr.alloca.inj heq).1.symm
  have hself : (f.give d (.ptr ⟨bound, []⟩)).temps d = some (.ptr ⟨bound, []⟩) := if_pos rfl
  have hother {e : TempId} (hne : e ≠ d) : (f.give d (.ptr ⟨bound, []⟩)).temps e = f.temps e :=
    if_neg hne
  -- The new allocation is behind those of the other slots.
  have hnew {e : TempId} (he : q.SlotBefore (f.give d (.ptr ⟨bound, []⟩)).point e) (hne : e ≠ d) :
      f.temps e ≠ some (.ptr ⟨bound, []⟩) := by
    obtain ⟨o, ho, hat⟩ := h.made e (hold he hne)
    rw [hat]
    rintro ⟨⟩
    exact Nat.lt_irrefl _ ho
  refine ⟨fun e he => ?_, fun e e' o he he' ho ho' => ?_⟩
  · by_cases hne : e = d
    · exact ⟨bound, Nat.lt_succ_self _, hne ▸ hself⟩
    · obtain ⟨o, ho, hat⟩ := h.made e (hold he hne)
      exact ⟨o, Nat.lt_succ_of_lt ho, (hother hne).trans hat⟩
  · by_cases hne : e = d <;> by_cases hne' : e' = d
    · rw [hne, hne']
    · rw [hne, hself] at ho
      cases ho
      exact absurd ((hother hne').symm.trans ho') (hnew he' hne')
    · rw [hne', hself] at ho'
      cases ho'
      exact absurd ((hother hne).symm.trans ho) (hnew he hne)
    · exact h.apart e e' o (hold he hne) (hold he' hne') ((hother hne).symm.trans ho)
        ((hother hne').symm.trans ho')

/-- At the end of a block all slots of the entry were made. -/
theorem goto (h : f.Slotted q bound) {o : Block} (ho : q.blocks[f.block]? = some o)
    (hindex : o.instrs[f.index]? = none) (k : BlockId) : (f.goto k).Slotted q bound := by
  refine h.congr fun d ⟨j, ty, hj, hbefore⟩ => ⟨⟨j, ty, hj, fun h0 => ?_⟩, rfl⟩
  have h0 : f.block = 0 := h0
  rw [Proc.instr?, ← h0, ho, Option.bind_some] at hj
  exact Nat.lt_of_lt_of_le (List.getElem?_eq_some_iff.1 hj).1 (List.getElem?_eq_none_iff.1 hindex)

end Frame.Slotted

/-! ## States -/

/-- A call that waits, at an instruction that calls. -/
structure Frame.Waits (p : Program) (f : Frame) (dst : TempId) (bound : Nat) : Prop where
  slotted : ∀ q, p.procs[f.proc]? = some q → f.Slotted q bound
  at_ : ∀ q, p.procs[f.proc]? = some q → ∃ callee args, q.At f.point (.call dst callee args)

/-- The slots of all calls are there. -/
structure State.Slotted (p : Program) (s : State) : Prop where
  frame : ∀ q, p.procs[s.frame.proc]? = some q → s.frame.Slotted q s.memory.length
  callers : ∀ c ∈ s.callers, c.1.Waits p c.2 s.memory.length

theorem Frame.Waits.mono {dst : TempId} (h : f.Waits p dst bound) {bound' : Nat}
    (hle : bound ≤ bound') : f.Waits p dst bound' :=
  ⟨fun q hq => (h.slotted q hq).mono hle, h.at_⟩

namespace State.Slotted

theorem call (memory : List Cell) (id : ProcId) (args : List Value) :
    (State.call memory id args).Slotted p :=
  ⟨fun q _ => .enter q id args, List.forall_mem_nil _⟩

/-- The call that is run comes to another point. -/
theorem moved (h : s.Slotted p) (hproc : s'.frame.proc = s.frame.proc)
    (hcallers : s'.callers = s.callers) (hmemory : s.memory.length ≤ s'.memory.length)
    (hframe : ∀ q, p.procs[s.frame.proc]? = some q → s.frame.Slotted q s.memory.length →
      s'.frame.Slotted q s'.memory.length) : s'.Slotted p := by
  refine ⟨fun q hq => ?_, fun c hc => ?_⟩
  · rw [hproc] at hq
    exact hframe q hq (h.frame q hq)
  · rw [hcallers] at hc
    exact (h.callers c hc).mono hmemory

section Step

variable (hp : ∀ q ∈ p.procs, q.Single)

/-- Where the call that is run is. -/
theorem at_point {o : Block} (hblock : p.procs[s.frame.proc]?.bind (·.blocks[s.frame.block]?) = some o)
    (hi : o.instrs[s.frame.index]? = some i) (hq : p.procs[s.frame.proc]? = some q) :
    q.At s.frame.point i := by
  rw [hq, Option.bind_some] at hblock
  rw [Proc.At, Proc.instr?]
  show q.blocks[s.frame.block]?.bind (·.instrs[s.frame.index]?) = _
  rw [hblock, Option.bind_some, hi]

theorem advanced (h : s.Slotted p) (hat : ∀ q, p.procs[s.frame.proc]? = some q → q.At s.frame.point i)
    (hslot : ∀ d ty, i ≠ .alloca d ty) (hframe : s'.frame = s.frame.advance)
    (hcallers : s'.callers = s.callers) (hmemory : s.memory.length ≤ s'.memory.length) :
    s'.Slotted p :=
  h.moved (by rw [hframe]; rfl) hcallers hmemory fun q hq hs => by
    rw [hframe]
    exact (hs.mono hmemory).advance (hat q hq) hslot

include hp in
theorem given (h : s.Slotted p) (hat : ∀ q, p.procs[s.frame.proc]? = some q → q.At s.frame.point i)
    (hslot : ∀ d ty, i ≠ .alloca d ty) {t : TempId} {x : Value} (hdst : i.dst? = some t)
    (hframe : s'.frame = s.frame.give t x) (hcallers : s'.callers = s.callers)
    (hmemory : s.memory.length ≤ s'.memory.length) : s'.Slotted p :=
  h.moved (by rw [hframe]; rfl) hcallers hmemory fun q hq hs => by
    rw [hframe]
    exact (hs.mono hmemory).give (hp q (List.mem_of_getElem? hq)) (hat q hq) hslot hdst x

include hp in
/-- **An instruction leaves the slots there.** -/
theorem exec? (h : s.Slotted p)
    (hat : ∀ q, p.procs[s.frame.proc]? = some q → q.At s.frame.point i)
    (hexec : s.exec? p grant i = some s') : s'.Slotted p := by
  -- Memory never shrinks, so a slot that has its object keeps it. Only `alloca` makes one.
  have hmemory := (State.accounts_exec? hexec).length
  cases i with
  | alloca dst ty =>
    obtain rfl := Option.some.inj hexec
    have hlength : (s.create dst).memory.length = s.memory.length + 1 := List.length_append
    exact h.moved rfl rfl hmemory fun q hq hs => hlength ▸ hs.make (hat q hq)
  | comment text =>
    obtain rfl := Option.some.inj hexec
    exact h.advanced hat nofun rfl rfl hmemory
  | load dst addr =>
    obtain ⟨_, -, hexec⟩ := Option.bind_eq_some_iff.1 hexec
    obtain ⟨_, -, hexec⟩ := Option.bind_eq_some_iff.1 hexec
    obtain ⟨_, -, hexec⟩ := Option.bind_eq_some_iff.1 hexec
    obtain rfl := Option.some.inj hexec
    exact h.given hp hat nofun rfl rfl rfl hmemory
  | binary dst op lhs rhs =>
    obtain ⟨_, -, hexec⟩ := Option.bind_eq_some_iff.1 hexec
    obtain ⟨_, -, hexec⟩ := Option.bind_eq_some_iff.1 hexec
    obtain ⟨_, -, hexec⟩ := Option.bind_eq_some_iff.1 hexec
    obtain rfl := Option.some.inj hexec
    exact h.given hp hat nofun rfl rfl rfl hmemory
  | bitcast dst value =>
    obtain ⟨_, -, hexec⟩ := Option.bind_eq_some_iff.1 hexec
    obtain rfl := Option.some.inj hexec
    exact h.given hp hat nofun rfl rfl rfl hmemory
  | print value =>
    obtain ⟨_, -, hexec⟩ := Option.bind_eq_some_iff.1 hexec
    obtain rfl := Option.some.inj hexec
    exact h.advanced hat nofun rfl rfl hmemory
  | store addr value =>
    obtain ⟨_, -, hexec⟩ := Option.bind_eq_some_iff.1 hexec
    obtain ⟨_, -, hexec⟩ := Option.bind_eq_some_iff.1 hexec
    obtain ⟨_, -, hexec⟩ := Option.bind_eq_some_iff.1 hexec
    obtain rfl := Option.some.inj hexec
    exact h.advanced hat nofun rfl rfl hmemory
  | elementPtr dst base indices =>
    obtain ⟨_, -, hexec⟩ := Option.bind_eq_some_iff.1 hexec
    cases indices with
    | nil => cases hexec
    | cons =>
      obtain ⟨_, -, hexec⟩ := Option.bind_eq_some_iff.1 hexec
      split at hexec
      · obtain ⟨_, -, hexec⟩ := Option.bind_eq_some_iff.1 hexec
        obtain ⟨_, -, hexec⟩ := Option.bind_eq_some_iff.1 hexec
        split at hexec
        · obtain rfl := Option.some.inj hexec
          exact h.given hp hat nofun rfl rfl rfl hmemory
        · cases hexec
      · cases hexec
  | alloc dst size =>
    obtain ⟨_, -, hexec⟩ := Option.bind_eq_some_iff.1 hexec
    dsimp only at hexec
    split at hexec
    · obtain rfl := Option.some.inj hexec
      exact h.given hp hat nofun rfl rfl rfl hmemory
    · obtain rfl := Option.some.inj hexec
      exact h.given hp hat nofun rfl rfl rfl hmemory
  | call dst callee args =>
    obtain ⟨value, -, hexec⟩ := Option.bind_eq_some_iff.1 hexec
    cases value with
    | proc id =>
      obtain ⟨_, -, hexec⟩ := Option.bind_eq_some_iff.1 hexec
      obtain ⟨_, -, hexec⟩ := Option.bind_eq_some_iff.1 hexec
      split at hexec
      · obtain rfl := Option.some.inj hexec
        exact ⟨fun q _ => .enter q id _, List.forall_mem_cons.2
          ⟨⟨h.frame, fun q hq => ⟨_, _, hat q hq⟩⟩, h.callers⟩⟩
      · cases hexec
    | _ => cases hexec

include hp in
/-- The call returns to the one that waits for it. -/
theorem return_ (h : s.Slotted p) {value : Value} (hreturn : s.return_ value = .next s') :
    s'.Slotted p := by
  unfold State.return_ at hreturn
  split at hreturn
  · cases hreturn
  next caller dst rest hcallers =>
    obtain rfl := Outcome.next.inj hreturn
    have hall := h.callers
    rw [hcallers, List.forall_mem_cons] at hall
    obtain ⟨⟨hslotted, hwaits⟩, hrest⟩ := hall
    refine ⟨fun q hq => ?_, hrest⟩
    obtain ⟨_, _, hat⟩ := hwaits q hq
    exact (hslotted q hq).give (hp q (List.mem_of_getElem? hq)) hat nofun rfl value

theorem enters (h : s.Slotted p) {o : Block}
    (hblock : p.procs[s.frame.proc]?.bind (·.blocks[s.frame.block]?) = some o)
    (hi : o.instrs[s.frame.index]? = none) (k : BlockId) :
    (s.withFrame (s.frame.goto k)).Slotted p :=
  h.moved rfl rfl (Nat.le_refl _) fun q hq hs => by
    rw [hq, Option.bind_some] at hblock
    exact hs.goto hblock hi k

include hp in
/-- **A step leaves the slots there.** -/
theorem step (h : s.Slotted p) (hstep : Ir.step p grant s = .next s') : s'.Slotted p := by
  unfold Ir.step at hstep
  split at hstep
  · cases hstep
  next o ho =>
    cases hi : o.instrs[s.frame.index]? with
    | some i =>
      rw [hi] at hstep
      dsimp only at hstep
      cases hexec : s.exec? p grant i with
      | none => rw [hexec] at hstep; cases hstep
      | some next =>
        rw [hexec] at hstep
        obtain rfl := Outcome.next.inj hstep
        exact h.exec? hp (fun q hq => at_point ho hi hq) hexec
    | none =>
      rw [hi] at hstep
      dsimp only at hstep
      unfold State.leave at hstep
      split at hstep
      · split at hstep
        · obtain rfl := Outcome.next.inj hstep
          exact h.enters ho hi _
        · cases hstep
      · obtain rfl := Outcome.next.inj hstep
        exact h.enters ho hi _
      · split at hstep
        · exact h.return_ hp hstep
        · cases hstep
      · cases hstep

end Step

end State.Slotted

/-- **Slots are there in all that a run from a call reaches.** -/
theorem Reaches.slotted (hp : ∀ q ∈ p.procs, q.Single) (h : Reaches p grant n s s')
    (hs : s.Slotted p) : s'.Slotted p := by
  induction h with
  | refl => exact hs
  | step hstep _ ih => exact ih (hs.step hp hstep)

/-- The slot of the temporary is there, if it was made before the point. -/
def State.HasSlot (q : Proc) (pt : Point) (s : State) (d : TempId) : Prop :=
  q.SlotBefore pt d → ∃ o < s.memory.length, s.SlotAt d o

theorem State.Slotted.hasSlot {pt : Point} (h : s.Slotted p) (hat : s.At p q pt) (d : TempId) :
    s.HasSlot q pt d := fun ⟨j, ty, hj, hbefore⟩ =>
  (h.frame q hat.proc).made d ⟨j, ty, hj, fun h0 => by
    show j < s.frame.index
    rw [hat.index]
    exact hbefore (hat.block.symm.trans h0)⟩

end ClassLang.Ir
