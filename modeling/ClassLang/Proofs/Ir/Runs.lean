import ClassLang.Proofs.Ir.Bodies
import ClassLang.Proofs.Ir.Machine
/-!
# Intermediate form — runs

`Runs` leads from one state of the machine to another, where something holds
of every state that is left. The machine leaves nothing open, so what a run
has passed is all that there is to see on the way (`Runs.of_reaches`), and it
takes nothing back that it has printed (`Reaches.output`). The steps at a
point of a procedure are those of its instruction or of the end of its block
(`step_at`, `step_end`).
-/


namespace ClassLang.Ir

section Runs

variable {p : Program} {grant : Nat → Bool} {I : State → Prop}

variable (p grant I) in
/-- So many steps lead from one state to another, and the property holds of
every state that is left. -/
inductive Runs : Nat → State → State → Prop
  | refl (s) : Runs 0 s s
  | step {n s s' s''} : I s → step p grant s = .next s' → Runs n s' s'' → Runs (n + 1) s s''

namespace Runs

variable {n m : Nat} {s s' s'' : State}

theorem trans (h : Runs p grant I n s s') (h' : Runs p grant I m s' s'') :
    Runs p grant I (n + m) s s'' := by
  induction h with
  | refl => rwa [Nat.zero_add]
  | step hI hstep _ ih =>
    rw [Nat.succ_add]
    exact .step hI hstep (ih h')

theorem single (hI : I s) (h : Ir.step p grant s = .next s') : Runs p grant I 1 s s' :=
  .step hI h (.refl s')

theorem reaches (h : Runs p grant I n s s') : Reaches p grant n s s' := by
  induction h with
  | refl => exact .refl _
  | step _ hstep _ ih => exact .step hstep ih

/-- **Whatever is reached lies on the run**, or behind it. -/
theorem of_reaches (h : Runs p grant I n s s') (h' : Reaches p grant m s s'') :
    (m < n ∧ I s'' ∧ ∃ next, Ir.step p grant s'' = .next next) ∨
      ∃ k, m = n + k ∧ Reaches p grant k s' s'' := by
  induction h generalizing m with
  | refl => exact .inr ⟨m, (Nat.zero_add m).symm, h'⟩
  | step hI hstep _ ih =>
    cases h' with
    | refl => exact .inl ⟨Nat.succ_pos _, hI, _, hstep⟩
    | step hstep' hrest =>
      obtain rfl := Outcome.next.inj (hstep.symm.trans hstep')
      rcases ih hrest with ⟨hlt, hpassed⟩ | ⟨k, rfl, hbehind⟩
      · exact .inl ⟨Nat.succ_lt_succ hlt, hpassed⟩
      · exact .inr ⟨k, (Nat.succ_add _ _).symm, hbehind⟩

end Runs

end Runs

/-! ## Output -/

section Output

variable {p : Program} {grant : Nat → Bool} {s s' s'' : State} {n m : Nat}

/-- What comes next, if anything, has printed all that the state has. -/
def State.PrintsOn (s : State) (next : Option State) : Prop :=
  ∀ s', next = some s' → s.output <+: s'.output

theorem State.PrintsOn.bind {α : Type} {o : Option α} {f : α → Option State}
    (h : ∀ a, s.PrintsOn (f a)) : s.PrintsOn (o >>= f) := fun s' hs' => by
  obtain ⟨a, -, ha⟩ := Option.bind_eq_some_iff.1 hs'
  exact h a s' ha

theorem State.PrintsOn.of_eq (h : s'.output = s.output) : s.PrintsOn (some s') := fun s'' hs => by
  obtain rfl := Option.some.inj hs
  exact h ▸ List.prefix_rfl

theorem State.PrintsOn.none : s.PrintsOn none := nofun

open State.PrintsOn in
/-- **Instructions print, and never take back.** -/
theorem State.printsOn_exec? (s : State) (i : Instr) : s.PrintsOn (s.exec? p grant i) := by
  cases i with
  | alloca | comment => exact of_eq rfl
  | load => exact bind fun _ => bind fun _ => bind fun _ => of_eq rfl
  | store => exact bind fun _ => bind fun _ => bind fun _ => of_eq rfl
  | binary => exact bind fun _ => bind fun _ => bind fun _ => of_eq rfl
  | bitcast => exact bind fun _ => of_eq rfl
  | print value =>
    refine bind fun _ s' hs' => ?_
    obtain rfl := Option.some.inj hs'
    exact List.prefix_append _ _
  | elementPtr dst base indices =>
    refine bind fun _ => ?_
    cases indices with
    | nil => exact none
    | cons =>
      refine bind fun _ => ?_
      split
      · refine bind fun _ => bind fun _ => ?_
        split
        · exact of_eq rfl
        · exact none
      · exact none
  | alloc =>
    refine bind fun _ => ?_
    dsimp only
    split <;> exact of_eq rfl
  | call =>
    refine bind fun value => ?_
    cases value with
    | proc =>
      refine bind fun _ => bind fun _ => ?_
      split
      · exact of_eq rfl
      · exact none
    | _ => exact none

/-- **A step prints, and never takes back.** -/
theorem output_of_step (h : step p grant s = .next s') : s.output <+: s'.output := by
  unfold step at h
  split at h
  · cases h
  · next block _ =>
    cases hi : block.instrs[s.frame.index]? with
    | some i =>
      rw [hi] at h
      dsimp only at h
      cases hexec : s.exec? p grant i with
      | none => rw [hexec] at h; cases h
      | some next =>
        rw [hexec] at h
        obtain rfl := Outcome.next.inj h
        exact s.printsOn_exec? i _ hexec
    | none =>
      rw [hi] at h
      -- Terminators print nothing.
      cases ht : block.terminator with
      | branch cond yes no =>
        simp only [ht, State.leave] at h
        split at h
        · obtain rfl := Outcome.next.inj h
          exact List.prefix_rfl
        · cases h
      | jump target =>
        simp only [ht, State.leave] at h
        obtain rfl := Outcome.next.inj h
        exact List.prefix_rfl
      | ret value =>
        simp only [ht, State.leave, State.return_] at h
        split at h
        · split at h
          · cases h
          · obtain rfl := Outcome.next.inj h
            exact List.prefix_rfl
        · cases h
      | halt message =>
        simp only [ht, State.leave] at h
        cases h

theorem Reaches.output (h : Reaches p grant n s s') : s.output <+: s'.output := by
  induction h with
  | refl => exact List.prefix_rfl
  | step hstep _ ih => exact (output_of_step hstep).trans ih

/-- **The machine leaves nothing open**: what is reached first leads to what is
reached later. -/
theorem Reaches.rest (h : Reaches p grant n s s') (h' : Reaches p grant (n + m) s s'') :
    Reaches p grant m s' s'' := by
  induction h with
  | refl => rwa [Nat.zero_add] at h'
  | step hstep _ ih =>
    rw [Nat.succ_add] at h'
    cases h' with
    | step hstep' hrest =>
      obtain rfl := Outcome.next.inj (hstep.symm.trans hstep')
      exact ih hrest

/-- From a state where a run ends there is nothing to reach. -/
theorem Reaches.eq_of_final (h : Reaches p grant n s s') (hs : ∀ next, Ir.step p grant s ≠ .next next) :
    s' = s := by
  cases h with
  | refl => rfl
  | step hstep _ => exact absurd hstep (hs _)

end Output

/-! ## Requests -/

section Requests

variable {p : Program} {grant : Nat → Bool} {s : State}

variable (grant) in
/-- Where memory is asked for the machine goes on, with one more request. -/
theorem step_of_asks? {size : Int32} (h : s.asks? p = some size) :
    ∃ s', step p grant s = .next s' ∧ s'.requests = s.requests + 1 := by
  unfold State.asks? at h
  split at h
  next dst operand hinstr =>
    obtain ⟨block, hblock, hi⟩ := Option.bind_eq_some_iff.1 hinstr
    simp only [step, hblock, hi, State.exec?, h, Option.bind_eq_bind, Option.bind_some]
    split
    · exact ⟨_, rfl, rfl⟩
    · exact ⟨_, rfl, rfl⟩
  next => cases h

variable (grant) in
/-- **A step that adds no request asks for nothing.** -/
theorem asks?_eq_none (h : ∀ s', step p grant s = .next s' → s'.requests = s.requests) :
    s.asks? p = none := by
  cases hasks : s.asks? p with
  | none => rfl
  | some size =>
    obtain ⟨s', hstep, hrequests⟩ := step_of_asks? grant hasks
    exact absurd ((h s' hstep).symm.trans hrequests) (Nat.ne_of_lt (Nat.lt_succ_self _))

end Requests

/-! ## Operands -/

/-- The operand is no temporary but an older one. -/
def Operand.Before (v : Operand) (n : Nat) : Prop := ∀ t, v = .temp t → t < n

theorem Operand.Before.mono {v : Operand} {n m : Nat} (h : v.Before n) (hle : n ≤ m) : v.Before m :=
  fun t ht => Nat.lt_of_lt_of_le (h t ht) hle

/-- An operand has its value as long as what it refers to is kept. -/
theorem Frame.eval?_congr {p : Program} {f f' : Frame} {v : Operand} {n : Nat} (hv : v.Before n)
    (hargs : f'.args = f.args) (htemps : ∀ t < n, f'.temps t = f.temps t) :
    f'.eval? p v = f.eval? p v := by
  cases v with
  | temp t => exact htemps t (hv t rfl)
  | param i => rw [eval?, eval?, hargs]
  | int | bool | null | global | proc => rfl

/-! ## Slots -/

/-- The entry block has made the slot of the temporary before the point. -/
def Proc.SlotBefore (q : Proc) (pt : Point) (d : TempId) : Prop :=
  ∃ j ty, q.instr? 0 j = some (.alloca d ty) ∧ (pt.block = 0 → j < pt.index)

/-- The temporary has the pointer to an allocation. -/
def State.SlotAt (s : State) (d : TempId) (object : Nat) : Prop :=
  s.frame.temps d = some (.ptr ⟨object, []⟩)

section Slots

variable {q : Proc} {pt pt' : Point} {d : TempId} {i : Instr}

theorem State.SlotAt.unique {s : State} {o o' : Nat} (h : s.SlotAt d o) (h' : s.SlotAt d o') :
    o = o' :=
  congrArg Addr.object (Value.ptr.inj (Option.some.inj (h.symm.trans h')))

/-- All slots were made once the entry block was left. -/
theorem Proc.SlotBefore.of_block (h : q.SlotBefore pt d) (hblock : pt'.block ≠ 0) :
    q.SlotBefore pt' d := by
  obtain ⟨j, ty, hj, -⟩ := h
  exact ⟨j, ty, hj, fun h0 => absurd h0 hblock⟩

theorem Proc.SlotBefore.of_index (h : q.SlotBefore pt d) (hblock : pt'.block = pt.block)
    (hindex : pt.index ≤ pt'.index) : q.SlotBefore pt' d := by
  obtain ⟨j, ty, hj, hbefore⟩ := h
  exact ⟨j, ty, hj, fun h0 => Nat.lt_of_lt_of_le (hbefore (hblock ▸ h0)) hindex⟩

/-- An instruction makes no slot but its own. -/
theorem Proc.SlotBefore.of_next (h : q.SlotBefore pt' d) (hat : q.At pt i)
    (hblock : pt'.block = pt.block) (hindex : pt'.index = pt.index + 1) :
    q.SlotBefore pt d ∨ ∃ ty, pt.block = 0 ∧ i = .alloca d ty := by
  obtain ⟨j, ty, hj, hbefore⟩ := h
  by_cases heq : pt.block = 0 ∧ j = pt.index
  · obtain ⟨h0, rfl⟩ := heq
    rw [Proc.At, h0] at hat
    exact .inr ⟨ty, h0, Option.some.inj (hat.symm.trans hj)⟩
  · refine .inl ⟨j, ty, hj, fun h0 => ?_⟩
    have hlt := hbefore (hblock.trans h0)
    have hne : j ≠ pt.index := fun hj => heq ⟨h0, hj⟩
    omega

theorem Proc.SlotBefore.of_step {temps : Nat} (h : q.SlotBefore ⟨temps, pt.block, pt.index + 1⟩ d)
    (hat : q.At pt i) (hslot : ∀ d ty, i ≠ .alloca d ty) : q.SlotBefore pt d :=
  (h.of_next hat rfl rfl).resolve_right fun ⟨ty, _, heq⟩ => hslot d ty heq

/-- The temporary of a slot is given by no other instruction. -/
theorem Proc.Single.slot_ne (hq : q.Single) (h : q.SlotBefore pt' d) (hat : q.At pt i) {t : TempId}
    (hdst : i.dst? = some t) (hslot : ∀ ty, i ≠ .alloca t ty) : d ≠ t := by
  rintro rfl
  obtain ⟨j, ty, hj, -⟩ := h
  obtain ⟨h0, rfl⟩ := hq.once 0 j pt.block pt.index _ _ d hj hat rfl hdst
  rw [Proc.At, ← h0, hj] at hat
  exact hslot ty (Option.some.inj hat).symm

end Slots

/-! ## Steps at a point -/

section Steps

variable {p : Program} {grant : Nat → Bool} {q : Proc} {s : State}

/-- The state is at a point of a procedure. -/
structure State.At (p : Program) (s : State) (q : Proc) (pt : Point) : Prop where
  proc : p.procs[s.frame.proc]? = some q
  block : s.frame.block = pt.block
  index : s.frame.index = pt.index

/-- **The step at an instruction.** -/
theorem step_at {pt : Point} (hs : s.At p q pt) {i : Instr} (hat : q.At pt i) :
    step p grant s = .ofOption (s.exec? p grant i) := by
  obtain ⟨o, ho, hi⟩ := Option.bind_eq_some_iff.1 hat
  simp only [step, hs.proc, hs.block, hs.index, Option.bind_some, ho, hi]

/-- **The step at the end of a block.** -/
theorem step_end {pt : Point} (hs : s.At p q pt) {o : Block} (ho : q.blocks[pt.block]? = some o)
    (hindex : pt.index = o.instrs.length) : step p grant s = s.leave p o.terminator := by
  have hnone : o.instrs[pt.index]? = none := List.getElem?_eq_none (Nat.le_of_eq hindex.symm)
  simp only [step, hs.proc, hs.block, hs.index, Option.bind_some, ho, hnone]

/-- At an instruction that asks for memory, its operand says for how much. -/
theorem asks?_at {pt : Point} (hs : s.At p q pt) {dst : TempId} {operand : Operand}
    (hat : q.At pt (.alloc dst operand)) {size : Int32}
    (hsize : s.frame.eval? p operand = some (.int size)) : s.asks? p = some size := by
  obtain ⟨o, ho, hi⟩ := Option.bind_eq_some_iff.1 hat
  simp only [State.asks?, hs.proc, hs.block, hs.index, Option.bind_some, ho, hi, Frame.int?, hsize,
    Option.bind_eq_bind]

end Steps

end ClassLang.Ir
