import ClassLang.Proofs.Ir.Runs
/-!
# Intermediate form — what runs do to memory

`Logs` is a run together with what its steps do to memory, in order: requests
and writes. Nothing else changes memory (`Logs.accounts`), and a run that ends
has but one log (`Logs.unique`). `State.Within` holds of the states of one call
whose arithmetic is exact: no sum, difference or product leaves the 32-bit
integers, and no division overflows or has divisor zero.
-/


namespace ClassLang.Ir

/-- What a step does to memory. -/
inductive Access
  /-- So many bytes are asked for. -/
  | request (bytes : Int32)
  | write (addr : Addr) (value : Value)
deriving DecidableEq, Repr

/-- Is memory asked for? -/
def Access.isRequest : Access → Bool
  | request _ => true
  | write _ _ => false

/-- The result of the operation is that on the integers; where that is no
integer, there is no operation. -/
def BinOp.Exact : BinOp → Int32 → Int32 → Prop
  | .add, a, b => (a + b).toInt = a.toInt + b.toInt
  | .sub, a, b => (a - b).toInt = a.toInt - b.toInt
  | .mul, a, b => (a * b).toInt = a.toInt * b.toInt
  | .div, a, b => b ≠ 0 ∧ ¬ (a = Int32.minValue ∧ b = -1)
  | _, _, _ => True

section Accesses

variable (p : Program)

/-- The instruction that comes next, if one does. -/
def State.instr? (s : State) : Option Instr :=
  p.procs[s.frame.proc]?.bind (·.instr? s.frame.block s.frame.index)

/-- What an instruction does to memory. -/
def State.accesses (s : State) : Instr → List Access
  | .alloc _ size => ((s.frame.int? p size).map .request).toList
  | .store addr value =>
    match s.frame.addr? p addr, s.frame.eval? p value with
    | some addr, some value => [.write addr value]
    | _, _ => []
  | _ => []

/-- What the next step does to memory. -/
def State.access (s : State) : List Access := ((s.instr? p).map (s.accesses p)).getD []

/-- The arithmetic of the next step, if it does any, is exact. -/
def State.Exact (s : State) : Prop :=
  ∀ dst op lhs rhs a b, s.instr? p = some (.binary dst op lhs rhs) →
    s.frame.eval? p lhs = some (.int a) → s.frame.eval? p rhs = some (.int b) → op.Exact a b

/-- The state is one of a call, which these wait for. -/
def State.Inside (callers : List (Frame × TempId)) (s : State) : Prop := s.callers = callers

/-- The state is one of a call, which these wait for, and its arithmetic is
exact. -/
structure State.Within (callers : List (Frame × TempId)) (s : State) : Prop where
  callers : s.callers = callers
  exact_ : s.Exact p

end Accesses

/-! ## Logs -/

section Logs

variable {p : Program} {grant : Nat → Bool} {I J : State → Prop}

variable (p grant I) in
/-- A run, and what it does to memory in turn. The property holds of every
state that is left. -/
inductive Logs : List Access → State → State → Prop
  | refl (s) : Logs [] s s
  | step {log s s' s''} : I s → step p grant s = .next s' → Logs log s' s'' →
      Logs (s.access p ++ log) s s''

variable (p grant I) in
/-- The run halts with a message. -/
def HaltsAfter (log : List Access) (s : State) (message : String) : Prop :=
  ∃ s', Logs p grant I log s s' ∧ I s' ∧ step p grant s' = .halted message

variable (p grant I) in
/-- The run comes to a state where its call returns a value. -/
structure ReturnsAfter (log : List Access) (s : State) (value : Value) (s' : State) : Prop where
  logs : Logs p grant I log s s'
  last : I s'
  returns : step p grant s' = s'.return_ value

variable {log log' : List Access} {s s' s'' : State} {message : String} {value : Value}

namespace Logs

theorem trans (h : Logs p grant I log s s') (h' : Logs p grant I log' s' s'') :
    Logs p grant I (log ++ log') s s'' := by
  induction h with
  | refl => exact h'
  | step hI hstep _ ih =>
    rw [List.append_assoc]
    exact .step hI hstep (ih h')

theorem mono (h : Logs p grant I log s s') (hJ : ∀ s, I s → J s) : Logs p grant J log s s' := by
  induction h with
  | refl s => exact .refl s
  | step hI hstep _ ih => exact .step (hJ _ hI) hstep ih

/-- The property holds of the first state, if it does of the last. -/
theorem first (h : Logs p grant I log s s') (hlast : I s') : I s := by
  cases h with
  | refl => exact hlast
  | step hI => exact hI

/-- **A run that ends has one log**: where the property holds of a state from
which the run does not go on with it, every run of states with the property ends
there. -/
theorem unique (h : Logs p grant I log s s') (hlast : I s')
    (hend : ∀ next, Ir.step p grant s' = .next next → ¬ I next) (h' : Logs p grant I log' s s'')
    (hlast' : I s'') (hend' : ∀ next, Ir.step p grant s'' = .next next → ¬ I next) :
    log = log' ∧ s' = s'' := by
  induction h generalizing log' with
  | refl =>
    cases h' with
    | refl => exact ⟨rfl, rfl⟩
    | step _ hstep hrest => exact absurd (hrest.first hlast') (hend _ hstep)
  | step _ hstep hrest ih =>
    cases h' with
    | refl => exact absurd (hrest.first hlast) (hend' _ hstep)
    | step _ hstep' hrest' =>
      obtain rfl := Outcome.next.inj (hstep.symm.trans hstep')
      obtain ⟨rfl, rfl⟩ := ih hlast hend hrest'
      exact ⟨rfl, rfl⟩

end Logs

theorem HaltsAfter.after (h : Logs p grant I log s s') (h' : HaltsAfter p grant I log' s' message) :
    HaltsAfter p grant I (log ++ log') s message := by
  obtain ⟨s'', hlogs, hrest⟩ := h'
  exact ⟨s'', h.trans hlogs, hrest⟩

/-- A run halts with one message, behind one log. -/
theorem HaltsAfter.unique {message' : String} (h : HaltsAfter p grant I log s message)
    (h' : HaltsAfter p grant I log' s message') : log = log' ∧ message = message' := by
  obtain ⟨s', hlogs, hlast, hhalt⟩ := h
  obtain ⟨s'', hlogs', hlast', hhalt'⟩ := h'
  obtain ⟨rfl, rfl⟩ := hlogs.unique hlast (fun _ h => by rw [hhalt] at h; cases h) hlogs' hlast'
    fun _ h => by rw [hhalt'] at h; cases h
  exact ⟨rfl, Outcome.halted.inj (hhalt.symm.trans hhalt')⟩

theorem HaltsAfter.mono (h : HaltsAfter p grant I log s message) (hJ : ∀ s, I s → J s) :
    HaltsAfter p grant J log s message := by
  obtain ⟨s', hlogs, hlast, hhalt⟩ := h
  exact ⟨s', hlogs.mono hJ, hJ _ hlast, hhalt⟩

theorem ReturnsAfter.mono (h : ReturnsAfter p grant I log s value s') (hJ : ∀ s, I s → J s) :
    ReturnsAfter p grant J log s value s' :=
  ⟨h.logs.mono hJ, hJ _ h.last, h.returns⟩

/-! ## Inside of a call -/

section Inside

variable {callers : List (Frame × TempId)}

/-- A return leaves the call. -/
theorem State.Inside.not_return {next : State} (hs : s.Inside callers)
    (h : s.return_ value = .next next) : ¬ next.Inside callers := by
  unfold State.return_ at h
  split at h
  · cases h
  next caller dst rest hcallers =>
    obtain rfl := Outcome.next.inj h
    intro heq
    rw [Inside, hcallers] at hs
    exact absurd (congrArg List.length (hs.trans heq.symm)) (Nat.succ_ne_self _)

/-- A call that returns does not halt. -/
theorem ReturnsAfter.not_halts (h : ReturnsAfter p grant (State.Inside callers) log s value s') :
    ¬ HaltsAfter p grant (State.Inside callers) log' s message := by
  rintro ⟨s'', hlogs, hlast, hhalt⟩
  obtain ⟨rfl, rfl⟩ := h.logs.unique h.last
    (fun _ hnext => h.last.not_return (h.returns.symm.trans hnext)) hlogs hlast
    fun _ h => by rw [hhalt] at h; cases h
  have hreturn : s'.return_ value = .halted message := h.returns.symm.trans hhalt
  unfold State.return_ at hreturn
  split at hreturn <;> cases hreturn

/-- **All of a call is exact** if one run through it, to its end, is. -/
theorem Logs.exact_of_end (h : Logs p grant (State.Within p callers) log s s')
    (hlast : s'.Within p callers)
    (hend : ∀ next, Ir.step p grant s' = .next next → ¬ next.Inside callers)
    (h' : Logs p grant (State.Inside callers) log' s s'') (hlast' : s''.Inside callers) :
    s''.Exact p := by
  induction h generalizing log' with
  | refl =>
    cases h' with
    | refl => exact hlast.exact_
    | step _ hstep hrest => exact absurd (hrest.first hlast') (hend _ hstep)
  | step hI hstep _ ih =>
    cases h' with
    | refl => exact hI.exact_
    | step _ hstep' hrest' =>
      obtain rfl := Outcome.next.inj (hstep.symm.trans hstep')
      exact ih hlast hend hrest'

theorem HaltsAfter.exact_ (h : HaltsAfter p grant (State.Within p callers) log s message)
    (h' : Logs p grant (State.Inside callers) log' s s') (hlast : s'.Inside callers) : s'.Exact p := by
  obtain ⟨_, hlogs, hend, hhalt⟩ := h
  exact hlogs.exact_of_end hend (fun _ h => by rw [hhalt] at h; cases h) h' hlast

theorem ReturnsAfter.exact_ (h : ReturnsAfter p grant (State.Within p callers) log s value s')
    (h' : Logs p grant (State.Inside callers) log' s s'') (hlast : s''.Inside callers) :
    s''.Exact p :=
  h.logs.exact_of_end h.last
    (fun _ hnext => State.Inside.not_return h.last.callers (h.returns.symm.trans hnext)) h' hlast

end Inside

/-! ## Nothing else changes memory -/

/-- The log accounts for what became of memory: it only grows, what is not
written is kept, and every request is counted. -/
structure State.Accounts (s : State) (log : List Access) (s' : State) : Prop where
  length : s.memory.length ≤ s'.memory.length
  requests : s'.requests = s.requests + log.countP Access.isRequest
  kept : ∀ o < s.memory.length, (∀ path value, .write ⟨o, path⟩ value ∉ log) →
    s'.memory[o]? = s.memory[o]?

namespace State.Accounts

theorem of_same (hmemory : s'.memory = s.memory) (hrequests : s'.requests = s.requests) :
    s.Accounts [] s' :=
  ⟨Nat.le_of_eq (congrArg List.length hmemory.symm), hrequests, fun o _ _ => by rw [hmemory]⟩

theorem trans (h : s.Accounts log s') (h' : s'.Accounts log' s'') :
    s.Accounts (log ++ log') s'' := by
  refine ⟨Nat.le_trans h.length h'.length, ?_, fun o ho hlog => ?_⟩
  · rw [h'.requests, h.requests, List.countP_append, Nat.add_assoc]
  · rw [h'.kept o (Nat.lt_of_lt_of_le ho h.length) fun path value hmem =>
      hlog path value (List.mem_append_right _ hmem)]
    exact h.kept o ho fun path value hmem => hlog path value (List.mem_append_left _ hmem)

/-- A new allocation. -/
theorem create (s : State) (dst : TempId) : s.Accounts [] (s.create dst) :=
  ⟨(List.prefix_append _ _).length_le, rfl, fun _ ho _ => List.getElem?_append_left ho⟩

end State.Accounts

/-- **An instruction does to memory what it says.** -/
theorem State.accounts_exec? {i : Instr} (h : s.exec? p grant i = some s') :
    s.Accounts (s.accesses p i) s' := by
  cases i with
  | alloca dst ty =>
    obtain rfl := Option.some.inj h
    exact .create s dst
  | comment text =>
    obtain rfl := Option.some.inj h
    exact .of_same rfl rfl
  | load dst addr =>
    obtain ⟨_, -, h⟩ := Option.bind_eq_some_iff.1 h
    obtain ⟨_, -, h⟩ := Option.bind_eq_some_iff.1 h
    obtain ⟨_, -, h⟩ := Option.bind_eq_some_iff.1 h
    obtain rfl := Option.some.inj h
    exact .of_same rfl rfl
  | binary dst op lhs rhs =>
    obtain ⟨_, -, h⟩ := Option.bind_eq_some_iff.1 h
    obtain ⟨_, -, h⟩ := Option.bind_eq_some_iff.1 h
    obtain ⟨_, -, h⟩ := Option.bind_eq_some_iff.1 h
    obtain rfl := Option.some.inj h
    exact .of_same rfl rfl
  | bitcast dst value =>
    obtain ⟨_, -, h⟩ := Option.bind_eq_some_iff.1 h
    obtain rfl := Option.some.inj h
    exact .of_same rfl rfl
  | print value =>
    obtain ⟨_, -, h⟩ := Option.bind_eq_some_iff.1 h
    obtain rfl := Option.some.inj h
    exact .of_same rfl rfl
  | store addr value =>
    obtain ⟨a, ha, h⟩ := Option.bind_eq_some_iff.1 h
    obtain ⟨x, hx, h⟩ := Option.bind_eq_some_iff.1 h
    obtain ⟨cell, hcell, h⟩ := Option.bind_eq_some_iff.1 h
    obtain rfl := Option.some.inj h
    refine ⟨Nat.le_of_eq List.length_set.symm, ?_, fun o _ hlog => ?_⟩
    · simp [accesses, ha, hx, Access.isRequest, State.advance, State.withFrame]
    · refine List.getElem?_set_ne fun (heq : a.object = o) => hlog a.path x ?_
      simp [accesses, ha, hx, ← heq]
  | elementPtr dst base indices =>
    obtain ⟨_, -, h⟩ := Option.bind_eq_some_iff.1 h
    cases indices with
    | nil => cases h
    | cons =>
      obtain ⟨_, -, h⟩ := Option.bind_eq_some_iff.1 h
      split at h
      · obtain ⟨_, -, h⟩ := Option.bind_eq_some_iff.1 h
        obtain ⟨_, -, h⟩ := Option.bind_eq_some_iff.1 h
        split at h
        · obtain rfl := Option.some.inj h
          exact .of_same rfl rfl
        · cases h
      · cases h
  | alloc dst size =>
    obtain ⟨n, hn, h⟩ := Option.bind_eq_some_iff.1 h
    have hlog : s.accesses p (.alloc dst size) = [.request n] := by simp [accesses, hn]
    rw [hlog]
    dsimp only at h
    split at h
    · obtain rfl := Option.some.inj h
      exact ⟨(List.prefix_append _ _).length_le, rfl, fun _ ho _ => List.getElem?_append_left ho⟩
    · obtain rfl := Option.some.inj h
      exact ⟨Nat.le_refl _, rfl, fun _ _ _ => rfl⟩
  | call dst callee args =>
    obtain ⟨value, -, h⟩ := Option.bind_eq_some_iff.1 h
    cases value with
    | proc =>
      obtain ⟨_, -, h⟩ := Option.bind_eq_some_iff.1 h
      obtain ⟨_, -, h⟩ := Option.bind_eq_some_iff.1 h
      split at h
      · obtain rfl := Option.some.inj h
        exact .of_same rfl rfl
      · cases h
    | _ => cases h

/-- **A step does to memory what it says.** -/
theorem State.accounts_step (h : step p grant s = .next s') : s.Accounts (s.access p) s' := by
  unfold step at h
  split at h
  · cases h
  next o ho =>
    have hinstr : s.instr? p = o.instrs[s.frame.index]? := by
      obtain ⟨q, hq, hblock⟩ := Option.bind_eq_some_iff.1 ho
      rw [instr?, hq, Option.bind_some, Proc.instr?, hblock, Option.bind_some]
    rw [access, hinstr]
    cases hi : o.instrs[s.frame.index]? with
    | some i =>
      rw [hi] at h
      dsimp only at h
      cases hexec : s.exec? p grant i with
      | none => rw [hexec] at h; cases h
      | some next =>
        rw [hexec] at h
        obtain rfl := Outcome.next.inj h
        exact accounts_exec? hexec
    | none =>
      rw [hi] at h
      dsimp only at h
      unfold State.leave at h
      split at h
      · split at h
        · obtain rfl := Outcome.next.inj h
          exact .of_same rfl rfl
        · cases h
      · obtain rfl := Outcome.next.inj h
        exact .of_same rfl rfl
      · split at h
        · unfold State.return_ at h
          split at h
          · cases h
          · obtain rfl := Outcome.next.inj h
            exact .of_same rfl rfl
        · cases h
      · cases h

/-- **The log of a run accounts for what became of memory.** -/
theorem Logs.accounts (h : Logs p grant I log s s') : s.Accounts log s' := by
  induction h with
  | refl => exact .of_same rfl rfl
  | step _ hstep _ ih => exact (State.accounts_step hstep).trans ih

end Logs

end ClassLang.Ir
