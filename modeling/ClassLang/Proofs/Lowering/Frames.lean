import ClassLang.Proofs.Ir.Runs
import ClassLang.Proofs.Lowering.Worlds
/-!
# Lowering — the machine at a point of the code

`Agrees` relates the states of source and machine. `Call.Holds` says that
the machine runs a call and is at a point of its code: the slots that were
made have allocations of their own, and whatever was there before the call
and stands for nothing is as it was. `Call.Leads` says that a run leads on
to another point, and what it keeps: the temporaries and the slots that are
older than those of the code that was run.
-/


namespace ClassLang.Lowering

open Source (Program)
open Ir (Operand Point Proc TempId Frame Instr)

/-! ## States that agree -/

section Agrees

variable (p : Program) (ir : Ir.Program) (origin : World)

/-- **The machine agrees with the source**; what stood for something at the
origin still does. -/
structure Agrees (W : World) (σ : Semantics.State) (m : Ir.State) : Prop where
  heap : HeapMatches p ir W σ.heap m.memory
  above : origin.Grows W
  fresh : ∀ addr, σ.next ≤ addr → W addr = none
  output : m.output = σ.output
  requests : m.requests = σ.requests

/-- The memory is that of a heap. -/
def Filled (m : Ir.State) : Prop :=
  ∃ W heap, origin.Grows W ∧ HeapMatches p ir W heap m.memory

/-- **What is asked for** in a state: as many bytes as are taken by what its
procedure makes, an object of a class or an array of the length that was passed. -/
inductive AsksFor (m : Ir.State) : Int32 → Prop
  | object {q id} : ir.procs[m.frame.proc]? = some q → q.ret = .ptr (.struct (2 * id)) →
      id < p.classes.length → AsksFor m (.ofNat (ir.sizeOf (.struct (2 * id))))
  | array {q struct name target n size} : ir.procs[m.frame.proc]? = some q →
      q.ret = .ptr (.struct struct) → ir.structs[struct]? = some ⟨name, arrayFields target⟩ →
      m.frame.args = [.int n] → 0 ≤ n.toInt →
      size.toInt = n.toInt * ir.sizeOf target + ir.fieldOffset struct 1 → AsksFor m size

/-- **A state of a run**: its memory is that of a heap, and if it asks for memory,
then for what its procedure makes. -/
structure Regular (m : Ir.State) : Prop where
  filled : Filled p ir origin m
  asks : ∀ size, m.asks? ir = some size → AsksFor p ir m size

/-- A run of one step at least. -/
def Moves (grant : Nat → Bool) (m m' : Ir.State) : Prop :=
  ∃ k, Ir.Runs ir grant (Regular p ir origin) (k + 1) m m'

variable {p ir origin} {W : World} {σ : Semantics.State} {m m' : Ir.State}

/-- A state that agrees with the source is one of a run, if it asks for nothing. -/
theorem Agrees.regular (h : Agrees p ir origin W σ m) (grant : Nat → Bool)
    (hstep : ∀ m', Ir.step ir grant m = .next m' → m'.requests = m.requests) :
    Regular p ir origin m := by
  refine ⟨⟨W, σ.heap, h.above, h.heap⟩, fun size hasks => ?_⟩
  rw [Ir.asks?_eq_none grant hstep] at hasks
  cases hasks

/-- Only the memory, the output and the requests matter. -/
theorem Agrees.congr (h : Agrees p ir origin W σ m) (hmemory : m'.memory = m.memory)
    (houtput : m'.output = m.output) (hrequests : m'.requests = m.requests) :
    Agrees p ir origin W σ m' :=
  ⟨hmemory ▸ h.heap, h.above, h.fresh, houtput.trans h.output, hrequests.trans h.requests⟩

end Agrees

/-! ## Calls -/

/-- A call that is being run: its procedure, its arguments, who waits for it,
and what there was when it began. -/
structure Call (ir : Ir.Program) where
  proc : Ir.ProcId
  body : Proc
  found : ir.procs[proc]? = some body
  single : body.Single
  args : List Ir.Value
  callers : List (Frame × TempId)
  memory : List Ir.Cell
  world : World

/-- **The operand has the value** at a point. -/
structure Has (ir : Ir.Program) (pt : Point) (m : Ir.State) (v : Operand) (x : Ir.Value) : Prop where
  value : m.frame.eval? ir v = some x
  before : v.Before pt.temps

namespace Has

variable {ir : Ir.Program} {pt : Point} {m : Ir.State}

theorem int (value : Int32) : Has ir pt m (.int value) (.int value) := ⟨rfl, nofun⟩

theorem bool (value : Bool) : Has ir pt m (.bool value) (.bool value) := ⟨rfl, nofun⟩

theorem null : Has ir pt m .null .null := ⟨rfl, nofun⟩

theorem proc (id : Ir.ProcId) : Has ir pt m (.proc id) (.proc id) := ⟨rfl, nofun⟩

theorem global {id : Ir.GlobalId} (h : id < ir.globals.length) :
    Has ir pt m (.global id) (.ptr ⟨id, []⟩) := ⟨if_pos h, nofun⟩

/-- The first value of a variable. -/
theorem default (p : Program) (W : World) (ty : Source.TypeExpr) : ∃ x,
    Has ir pt m (defaultOperand ty) x ∧ Matches p W ty (Semantics.default ty) x := by
  obtain ⟨x, hx, hmatch⟩ := matches_default (p := p) (W := W) ty m.frame ir
  exact ⟨x, ⟨hx, fun t ht => by cases ty <;> cases ht⟩, hmatch⟩

/-- What an operand has stays when something is stored. -/
theorem stores {v : Operand} {x : Ir.Value} (h : Has ir pt m v x) {q : Proc} {addr value : Operand}
    {pt' : Point} (hstore : q.Stores addr value pt pt') (memory : List Ir.Cell) :
    Has ir pt' { m.advance with memory := memory } v x := by
  obtain ⟨-, rfl⟩ := hstore
  exact ⟨(Frame.eval?_congr h.before rfl fun _ _ => rfl).trans h.value, h.before⟩

end Has

namespace Call

section Defs

variable (p : Program) {ir : Ir.Program} (grant : Nat → Bool) (origin : World) (c : Call ir)

/-- **The machine is at a point of the call.** -/
structure Holds (pt : Point) (W : World) (σ : Semantics.State) (m : Ir.State) : Prop where
  agrees : Agrees p ir origin W σ m
  proc : m.frame.proc = c.proc
  args : m.frame.args = c.args
  block : m.frame.block = pt.block
  index : m.frame.index = pt.index
  callers : m.callers = c.callers
  world : c.world.Grows W
  recent : ∀ addr l, W addr = some l → c.world addr = some l ∨ c.memory.length ≤ l.object
  length : c.memory.length ≤ m.memory.length
  frozen : ∀ o < c.memory.length, c.world.Free ir.globals.length o → m.memory[o]? = c.memory[o]?
  slots : ∀ d, c.body.SlotBefore pt d → ∃ o, m.SlotAt d o ∧ c.memory.length ≤ o ∧
    o < m.memory.length ∧ W.Free ir.globals.length o
  distinct : ∀ d d' o, c.body.SlotBefore pt d → c.body.SlotBefore pt d' → m.SlotAt d o →
    m.SlotAt d' o → d = d'

/-- **What a run keeps**: older temporaries, the slots that were made, and what
is in older slots. -/
structure Keeps (n : Nat) (pt : Point) (m m' : Ir.State) : Prop where
  args : m'.frame.args = m.frame.args
  temps : ∀ t < n, m'.frame.temps t = m.frame.temps t
  made : ∀ d, c.body.SlotBefore pt d → m'.frame.temps d = m.frame.temps d
  slots : ∀ d < n, c.body.SlotBefore pt d → ∀ o, m.SlotAt d o → m'.memory[o]? = m.memory[o]?

/-- **A run leads on** to another point of the call. -/
structure Leads (n : Nat) (pt : Point) (W : World) (m : Ir.State) (pt' : Point) (W' : World)
    (σ' : Semantics.State) (m' : Ir.State) : Prop where
  runs : ∃ k, Ir.Runs ir grant (Regular p ir origin) k m m'
  holds : c.Holds p origin pt' W' σ' m'
  grows : W.Grows W'
  temps : pt.temps ≤ pt'.temps
  slots : ∀ d, c.body.SlotBefore pt d → c.body.SlotBefore pt' d
  length : m.memory.length ≤ m'.memory.length
  newer : ∀ d o, c.body.SlotBefore pt' d → m'.SlotAt d o → c.body.SlotBefore pt d ∨
    m.memory.length ≤ o
  keeps : c.Keeps n pt m m'

/-- **A slot has the value.** -/
def Stored (pt : Point) (m : Ir.State) (d : TempId) (x : Ir.Value) : Prop :=
  c.body.SlotBefore pt d ∧ ∃ o, m.SlotAt d o ∧ m.memory[o]? = some (.scalar x)

/-- **A run changes nothing** that was in memory. -/
structure Quiet (pt : Point) (W : World) (σ : Semantics.State) (m : Ir.State) (pt' : Point)
    (m' : Ir.State) : Prop where
  leads : c.Leads p grant origin pt.temps pt W m pt' W σ m'
  memory : m.memory <+: m'.memory

/-- Such a run, behind which the operand has the value. -/
structure Computes (pt : Point) (W : World) (σ : Semantics.State) (m : Ir.State) (pt' : Point)
    (v : Operand) (x : Ir.Value) (m' : Ir.State) : Prop extends
    c.Quiet p grant origin pt W σ m pt' m', Has ir pt' m' v x

end Defs

variable {p : Program} {ir : Ir.Program} {grant : Nat → Bool} {origin : World} {c : Call ir}
variable {n n' : Nat} {pt pt₁ pt₂ : Point} {W W₁ W₂ : World} {σ σ₁ σ₂ : Semantics.State}
variable {m m₁ m₂ : Ir.State} {v : Operand}

theorem Keeps.refl (m : Ir.State) : c.Keeps n pt m m :=
  ⟨rfl, fun _ _ => rfl, fun _ _ => rfl, fun _ _ _ _ _ => rfl⟩

namespace Leads

theorem refl (h : c.Holds p origin pt W σ m) : c.Leads p grant origin n pt W m pt W σ m :=
  ⟨⟨0, .refl m⟩, h, .refl W, Nat.le_refl _, fun _ h => h, Nat.le_refl _, fun _ _ hd _ => .inl hd,
    .refl m⟩

theorem trans (h : c.Leads p grant origin n pt W m pt₁ W₁ σ₁ m₁)
    (h' : c.Leads p grant origin n' pt₁ W₁ m₁ pt₂ W₂ σ₂ m₂) (hn : n ≤ n') :
    c.Leads p grant origin n pt W m pt₂ W₂ σ₂ m₂ := by
  obtain ⟨k, hk⟩ := h.runs
  obtain ⟨k', hk'⟩ := h'.runs
  refine ⟨⟨k + k', hk.trans hk'⟩, h'.holds, h.grows.trans h'.grows, Nat.le_trans h.temps h'.temps,
    fun d hd => h'.slots d (h.slots d hd), Nat.le_trans h.length h'.length, fun d o hd ho => ?_,
    h'.keeps.args.trans h.keeps.args, fun t ht => ?_,
    fun d hd => (h'.keeps.made d (h.slots d hd)).trans (h.keeps.made d hd),
    fun d hd hbefore o ho => ?_⟩
  · rcases h'.newer d o hd ho with hold | hnew
    · exact h.newer d o hold ((h'.keeps.made d hold).symm.trans ho)
    · exact .inr (Nat.le_trans h.length hnew)
  · exact (h'.keeps.temps t (Nat.lt_of_lt_of_le ht hn)).trans (h.keeps.temps t ht)
  · have ho₁ : m₁.SlotAt d o := (h.keeps.temps d hd).trans ho
    exact (h'.keeps.slots d (Nat.lt_of_lt_of_le hd hn) (h.slots d hbefore) o ho₁).trans
      (h.keeps.slots d hd hbefore o ho)

/-- Less is kept. -/
theorem weaken (h : c.Leads p grant origin n' pt W m pt₁ W₁ σ₁ m₁) (hn : n ≤ n') :
    c.Leads p grant origin n pt W m pt₁ W₁ σ₁ m₁ :=
  ⟨h.runs, h.holds, h.grows, h.temps, h.slots, h.length, h.newer, h.keeps.args,
    fun t ht => h.keeps.temps t (Nat.lt_of_lt_of_le ht hn), h.keeps.made,
    fun d hd => h.keeps.slots d (Nat.lt_of_lt_of_le hd hn)⟩

/-- **Older operands have their values.** -/
theorem hasOlder (h : c.Leads p grant origin n pt W m pt₁ W₁ σ₁ m₁) (hn : v.Before n)
    {x : Ir.Value} (hv : Has ir pt m v x) : Has ir pt₁ m₁ v x :=
  ⟨(Frame.eval?_congr hn h.keeps.args h.keeps.temps).trans hv.value, hv.before.mono h.temps⟩

theorem has (h : c.Leads p grant origin n pt W m pt₁ W₁ σ₁ m₁) (hn : pt.temps ≤ n) {x : Ir.Value}
    (hv : Has ir pt m v x) : Has ir pt₁ m₁ v x :=
  h.hasOlder (hv.before.mono hn) hv

/-- How many temporaries there are before the point does not matter. -/
theorem at_temps (h : c.Leads p grant origin n pt W m pt₁ W₁ σ₁ m₁) {t : Nat}
    (hle : pt.temps ≤ t) :
    c.Leads p grant origin n pt W m ⟨t, pt₁.block, pt₁.index⟩ W₁ σ₁ m₁ :=
  ⟨h.runs, ⟨h.holds.agrees, h.holds.proc, h.holds.args, h.holds.block, h.holds.index,
    h.holds.callers, h.holds.world, h.holds.recent, h.holds.length, h.holds.frozen, h.holds.slots,
    h.holds.distinct⟩, h.grows, hle, h.slots, h.length, h.newer, h.keeps⟩

/-- **Older slots have their values.** -/
theorem stored (h : c.Leads p grant origin n pt W m pt₁ W₁ σ₁ m₁) {d : TempId} (hd : d < n)
    {x : Ir.Value} (hs : c.Stored pt m d x) : c.Stored pt₁ m₁ d x := by
  obtain ⟨hbefore, o, ho, hx⟩ := hs
  exact ⟨h.slots d hbefore, o, (h.keeps.temps d hd).trans ho,
    (h.keeps.slots d hd hbefore o ho).trans hx⟩

end Leads

namespace Quiet

theorem refl (h : c.Holds p origin pt W σ m) : c.Quiet p grant origin pt W σ m pt m :=
  ⟨.refl h, List.prefix_rfl⟩

theorem trans (h : c.Quiet p grant origin pt W σ m pt₁ m₁)
    (h' : c.Quiet p grant origin pt₁ W σ m₁ pt₂ m₂) : c.Quiet p grant origin pt W σ m pt₂ m₂ :=
  ⟨h.leads.trans h'.leads h.leads.temps, h.memory.trans h'.memory⟩

theorem holds (h : c.Quiet p grant origin pt W σ m pt₁ m₁) : c.Holds p origin pt₁ W σ m₁ :=
  h.leads.holds

theorem has (h : c.Quiet p grant origin pt W σ m pt₁ m₁) {x : Ir.Value} (hv : Has ir pt m v x) :
    Has ir pt₁ m₁ v x :=
  h.leads.has (Nat.le_refl _) hv

end Quiet

/-! ## Steps -/

namespace Holds

/-- The frame moves on; nothing else happens. -/
theorem moved (h : c.Holds p origin pt W σ m) {m' : Ir.State} (hproc : m'.frame.proc = m.frame.proc)
    (hargs : m'.frame.args = m.frame.args) (hblock : m'.frame.block = pt₁.block)
    (hindex : m'.frame.index = pt₁.index) (hcallers : m'.callers = m.callers)
    (hmemory : m'.memory = m.memory) (houtput : m'.output = m.output)
    (hrequests : m'.requests = m.requests)
    (hslots : ∀ d, c.body.SlotBefore pt₁ d → c.body.SlotBefore pt d ∧
      m'.frame.temps d = m.frame.temps d) : c.Holds p origin pt₁ W σ m' := by
  have hat {d o : Nat} (hd : c.body.SlotBefore pt₁ d) : m'.SlotAt d o ↔ m.SlotAt d o := by
    rw [Ir.State.SlotAt, Ir.State.SlotAt, (hslots d hd).2]
  refine ⟨h.agrees.congr hmemory houtput hrequests, hproc.trans h.proc, hargs.trans h.args, hblock,
    hindex, hcallers.trans h.callers, h.world, h.recent, hmemory ▸ h.length, hmemory ▸ h.frozen,
    fun d hd => ?_, fun d d' o hd hd' ho ho' => ?_⟩
  · obtain ⟨o, ho, hold, hlt, hfree⟩ := h.slots d (hslots d hd).1
    exact ⟨o, (hat hd).2 ho, hold, hmemory ▸ hlt, hfree⟩
  · exact h.distinct d d' o (hslots d hd).1 (hslots d' hd').1 ((hat hd).1 ho) ((hat hd').1 ho')

/-- What is in memory changes, but not in what was there before the call and
stands for nothing. -/
theorem changed (h : c.Holds p origin pt W σ m) (m' : Ir.State) (hframe : m'.frame = m.frame)
    (hcallers : m'.callers = m.callers) (hagrees : Agrees p ir origin W σ₁ m')
    (hlength : m'.memory.length = m.memory.length)
    (hfrozen : ∀ o < c.memory.length, c.world.Free ir.globals.length o →
      m'.memory[o]? = m.memory[o]?) : c.Holds p origin pt W σ₁ m' := by
  have hat {d o : Nat} : m'.SlotAt d o ↔ m.SlotAt d o := by
    rw [Ir.State.SlotAt, Ir.State.SlotAt, hframe]
  refine ⟨hagrees, hframe ▸ h.proc, hframe ▸ h.args, hframe ▸ h.block, hframe ▸ h.index,
    hcallers.trans h.callers, h.world, h.recent, hlength ▸ h.length,
    fun o ho hfree => (hfrozen o ho hfree).trans (h.frozen o ho hfree), fun d hd => ?_,
    fun d d' o hd hd' ho ho' => ?_⟩
  · obtain ⟨o, ho, hold, hlt, hfree⟩ := h.slots d hd
    exact ⟨o, hat.2 ho, hold, hlength ▸ hlt, hfree⟩
  · exact h.distinct d d' o hd hd' (hat.1 ho) (hat.1 ho')

theorem at_ (h : c.Holds p origin pt W σ m) : m.At ir c.body pt :=
  ⟨h.proc ▸ c.found, h.block, h.index⟩

/-- An argument. -/
theorem param (h : c.Holds p origin pt W σ m) {index : Nat} {x : Ir.Value}
    (hx : c.args[index]? = some x) : Has ir pt m (.param index) x :=
  ⟨by rw [Frame.eval?, h.args, hx], nofun⟩

/-- A step at an instruction that does not ask for memory. -/
theorem runs (h : c.Holds p origin pt W σ m) {i : Instr} (hat : c.body.At pt i) {m' : Ir.State}
    (hexec : m.exec? ir grant i = some m') (hrequests : m'.requests = m.requests) :
    Ir.Runs ir grant (Regular p ir origin) 1 m m' := by
  have hstep : Ir.step ir grant m = .next m' := by
    rw [Ir.step_at h.at_ hat, hexec, Ir.Outcome.ofOption]
  refine .single (h.agrees.regular grant fun s hs => ?_) hstep
  rw [← Ir.Outcome.next.inj (hstep.symm.trans hs), hrequests]

/-- Behind an instruction that gives a value. -/
theorem give (h : c.Holds p origin pt W σ m) {i : Instr} (hat : c.body.At pt i) {d : TempId}
    (hdst : i.dst? = some d) (hslot : ∀ d ty, i ≠ .alloca d ty) (value : Ir.Value) (temps : Nat) :
    c.Holds p origin ⟨temps, pt.block, pt.index + 1⟩ W σ (m.give d value) := by
  refine h.moved rfl rfl h.block (congrArg (· + 1) h.index) rfl rfl rfl rfl fun t ht => ?_
  have hbefore : c.body.SlotBefore pt t := ht.of_step hat hslot
  exact ⟨hbefore, if_neg (c.single.slot_ne hbefore hat hdst (hslot d))⟩

/-- Behind an instruction that gives none. -/
theorem advance (h : c.Holds p origin pt W σ m) {i : Instr} (hat : c.body.At pt i)
    (hslot : ∀ d ty, i ≠ .alloca d ty) : c.Holds p origin pt.next W σ m.advance := by
  refine h.moved rfl rfl h.block (congrArg (· + 1) h.index) rfl rfl rfl rfl fun t ht => ?_
  exact ⟨ht.of_step hat hslot, rfl⟩

/-- **An instruction that gives a value.** -/
theorem defines (h : c.Holds p origin pt W σ m) {i : TempId → Instr}
    (hdef : c.body.Defines i pt v pt₁) (hdst : ∀ d, (i d).dst? = some d)
    (hslot : ∀ d d' ty, i d ≠ .alloca d' ty) {value : Ir.Value}
    (hexec : m.exec? ir grant (i pt.temps) = some (m.give pt.temps value)) :
    c.Computes p grant origin pt W σ m pt₁ v value (m.give pt.temps value) := by
  obtain ⟨hat, rfl, rfl⟩ := hdef
  refine ⟨⟨⟨⟨1, h.runs hat hexec rfl⟩, h.give hat (hdst _) (hslot _) value _, .refl W, Nat.le_succ _,
    fun d hd => hd.of_index rfl (Nat.le_succ _), Nat.le_refl _,
    fun d _ hd _ => .inl (hd.of_step hat (hslot _)), rfl, fun t ht => if_neg (Nat.ne_of_lt ht),
    fun d hd => if_neg (c.single.slot_ne hd hat (hdst _) (hslot _ _)), fun _ _ _ _ _ => rfl⟩,
    List.prefix_rfl⟩, ⟨?_, ?_⟩⟩
  · exact if_pos rfl
  · intro t ht
    obtain rfl := Operand.temp.inj ht
    exact Nat.lt_succ_self _

/-- The step at a store. -/
theorem exec?_store {addr value : Operand} {a : Ir.Addr} {x : Ir.Value} {cell : Ir.Cell}
    (haddr : m.frame.eval? ir addr = some (.ptr a)) (hvalue : m.frame.eval? ir value = some x)
    (hcell : m.memory[a.object]? = some cell) : m.exec? ir grant (.store addr value) =
      some { m.advance with memory := m.memory.set a.object (cell.store a.path x) } := by
  simp [Ir.State.exec?, Frame.addr?, haddr, hvalue, hcell]

variable (grant) in
/-- **A value is written to a slot.** Other slots keep theirs. -/
theorem storesSlot (h : c.Holds p origin pt W σ m) {d o : Nat} {value : Operand}
    (hstore : c.body.Stores (.temp d) value pt pt₁) (hd : c.body.SlotBefore pt d)
    (ho : m.SlotAt d o) {x : Ir.Value} (hvalue : Has ir pt m value x) :
    c.Leads p grant origin d pt W m pt₁ W σ
      { m.advance with memory := m.memory.set o (.scalar x) } ∧
      c.Stored pt₁ { m.advance with memory := m.memory.set o (.scalar x) } d x ∧
      ∀ t y, t ≠ d → c.Stored pt m t y →
        c.Stored pt₁ { m.advance with memory := m.memory.set o (.scalar x) } t y := by
  obtain ⟨hat, rfl⟩ := hstore
  obtain ⟨o', ho', hold, hlt, hfree⟩ := h.slots d hd
  obtain rfl := ho'.unique ho
  have haddr : m.frame.eval? ir (.temp d) = some (.ptr ⟨o', []⟩) := ho
  have hexec : m.exec? ir grant _ = some _ :=
    exec?_store haddr hvalue.value (List.getElem?_eq_getElem hlt)
  have hnext := h.advance hat (fun _ _ => nofun)
  have hother {t u : Nat} (ht : t ≠ d) (hbefore : c.body.SlotBefore pt t) (hu : m.SlotAt t u) :
      (m.memory.set o' (.scalar x))[u]? = m.memory[u]? := by
    refine List.getElem?_set_ne fun heq => ht ?_
    subst heq
    exact h.distinct t d _ hbefore hd hu ho
  refine ⟨⟨⟨1, h.runs hat hexec rfl⟩, ?_, .refl W, Nat.le_refl _,
    fun t ht => ht.of_index rfl (Nat.le_succ _), Nat.le_of_eq List.length_set.symm,
    fun t _ ht _ => .inl (ht.of_step hat fun _ _ => nofun), rfl, fun _ _ => rfl, fun _ _ => rfl,
    fun t ht hbefore u hu => hother (Nat.ne_of_lt ht) hbefore hu⟩,
    ⟨hd.of_index rfl (Nat.le_succ _), o', ho, List.getElem?_set_self hlt⟩,
    fun t y ht ⟨hbefore, u, hu, hy⟩ => ⟨hbefore.of_index rfl (Nat.le_succ _), u, hu,
      (hother ht hbefore hu).trans hy⟩⟩
  · refine hnext.changed { m.advance with memory := m.memory.set o' (.scalar x) } rfl rfl
      ⟨h.agrees.heap.set_free hfree _, h.agrees.above, h.agrees.fresh, h.agrees.output,
        h.agrees.requests⟩ (List.length_set ..) fun u hu _ => ?_
    exact List.getElem?_set_ne (Nat.ne_of_gt (Nat.lt_of_lt_of_le hu hold))

variable (grant) in
/-- **A value is written to what stands for an address.** -/
theorem storesCell (h : c.Holds p origin pt W σ m) {addr value : Operand}
    (hstore : c.body.Stores addr value pt pt₁) {source : Nat} {l : Link} (hl : W source = some l)
    {path : List Nat} (haddr : Has ir pt m addr (.ptr ⟨l.object, path⟩)) {x : Ir.Value}
    (hvalue : Has ir pt m value x) {cell : Ir.Cell}
    (hcell : m.memory[l.object]? = some cell) {new : Semantics.Cell}
    (hnew : CellMatches p W l.kind new (cell.store path x)) :
    c.Leads p grant origin n pt W m pt₁ W
      { σ with heap := fun other => if other = source then some new else σ.heap other }
      { m.advance with memory := m.memory.set l.object (cell.store path x) } := by
  obtain ⟨hat, rfl⟩ := hstore
  have hexec : m.exec? ir grant _ = some _ := exec?_store haddr.value hvalue.value hcell
  have hnext := h.advance hat (fun _ _ => nofun)
  refine ⟨⟨1, h.runs hat hexec rfl⟩, ?_, .refl W, Nat.le_refl _,
    fun t ht => ht.of_index rfl (Nat.le_succ _), Nat.le_of_eq List.length_set.symm,
    fun t _ ht _ => .inl (ht.of_step hat fun _ _ => nofun), rfl, fun _ _ => rfl, fun _ _ => rfl,
    fun t _ hbefore u hu => ?_⟩
  · refine hnext.changed
      { m.advance with memory := m.memory.set l.object (cell.store path x) } rfl rfl
      ⟨h.agrees.heap.set_cell hl hnew, h.agrees.above, h.agrees.fresh, h.agrees.output,
        h.agrees.requests⟩ (List.length_set ..) fun u hu hfree => ?_
    -- What was there before the call and stands for something is not frozen.
    refine List.getElem?_set_ne fun heq => ?_
    rcases h.recent source l hl with hold | hnew
    · exact hfree.2 source l hold heq
    · omega
  · obtain ⟨o, ho, -, -, hfree⟩ := h.slots t hbefore
    obtain rfl := ho.unique hu
    exact List.getElem?_set_ne (hfree.2 source l hl)

variable (grant) in
/-- **A slot is made.** Its allocation is none that there was. -/
theorem makes (h : c.Holds p origin pt W σ m) {d : TempId} {ty : Ir.Ty}
    (hat : c.body.At pt (.alloca d ty)) {temps : Nat} (htemps : pt.temps ≤ temps) :
    c.Leads p grant origin d pt W m ⟨temps, pt.block, pt.index + 1⟩ W σ (m.create d) ∧
      m.memory <+: (m.create d).memory ∧ (m.create d).SlotAt d m.memory.length := by
  have hblock : pt.block = 0 := c.single.slots _ _ _ _ hat
  have hself : (m.create d).SlotAt d m.memory.length := if_pos rfl
  -- The slots are those from before and the new one.
  have hslots (t : TempId) (ht : c.body.SlotBefore ⟨temps, pt.block, pt.index + 1⟩ t) :
      t = d ∨ c.body.SlotBefore pt t := by
    rcases ht.of_next hat rfl rfl with hold | ⟨ty', -, heq⟩
    · exact .inr hold
    · exact .inl (Instr.alloca.inj heq).1.symm
  have hne {t : TempId} (ht : c.body.SlotBefore pt t) : t ≠ d := by
    rintro rfl
    obtain ⟨j, ty', hj, hbefore⟩ := ht
    obtain ⟨-, rfl⟩ := c.single.once 0 j pt.block pt.index _ _ t hj hat rfl rfl
    exact Nat.lt_irrefl _ (hbefore hblock)
  have hold {t o : Nat} (ht : c.body.SlotBefore pt t) : (m.create d).SlotAt t o ↔ m.SlotAt t o := by
    have heq : (m.create d).frame.temps t = m.frame.temps t := if_neg (hne ht)
    rw [Ir.State.SlotAt, Ir.State.SlotAt, heq]
  have hfresh {t : TempId} (ht : c.body.SlotBefore pt t) : ¬ m.SlotAt t m.memory.length := by
    intro hbad
    obtain ⟨o, ho, -, hlt, -⟩ := h.slots t ht
    exact Nat.lt_irrefl _ (ho.unique hbad ▸ hlt)
  have hinit : m.memory <+: (m.create d).memory := List.prefix_append _ _
  refine ⟨⟨⟨1, h.runs hat rfl rfl⟩, ⟨⟨h.agrees.heap.append _, h.agrees.above, h.agrees.fresh,
    h.agrees.output, h.agrees.requests⟩, h.proc, h.args, h.block, congrArg (· + 1) h.index,
    h.callers, h.world, h.recent, Nat.le_trans h.length hinit.length_le, fun o ho hfree => ?_,
    fun t ht => ?_, fun t t' o ht ht' ho ho' => ?_⟩, .refl W, htemps, fun t ht =>
    ht.of_index rfl (Nat.le_succ _), hinit.length_le, fun t o ht ho => ?_, rfl,
    fun t ht => if_neg (Nat.ne_of_lt ht), fun t ht => if_neg (hne ht), fun t ht hbefore o ho => ?_⟩,
    hinit, hself⟩
  · rw [← h.frozen o ho hfree]
    exact List.getElem?_append_left (Nat.lt_of_lt_of_le ho h.length)
  · rcases hslots t ht with rfl | hbefore
    · refine ⟨_, hself, h.length, ?_, h.agrees.heap.free_length⟩
      rw [Ir.State.create, List.length_append]
      exact Nat.lt_succ_self _
    · obtain ⟨o, ho, hrecent, hlt, hfree⟩ := h.slots t hbefore
      exact ⟨o, (hold hbefore).2 ho, hrecent, Nat.lt_of_lt_of_le hlt hinit.length_le, hfree⟩
  · rcases hslots t ht with rfl | hbefore <;> rcases hslots t' ht' with rfl | hbefore'
    · rfl
    · obtain rfl := hself.unique ho
      exact absurd ((hold hbefore').1 ho') (hfresh hbefore')
    · obtain rfl := hself.unique ho'
      exact absurd ((hold hbefore).1 ho) (hfresh hbefore)
    · exact h.distinct t t' o hbefore hbefore' ((hold hbefore).1 ho) ((hold hbefore').1 ho')
  · rcases hslots t ht with rfl | hbefore
    · exact .inr (Nat.le_of_eq (hself.unique ho))
    · exact .inl hbefore
  · obtain ⟨o', ho', -, hlt, -⟩ := h.slots t hbefore
    exact List.getElem?_append_left (ho'.unique ho ▸ hlt)

variable (grant) in
/-- The slots before the end of a block are made. -/
theorem toEnd (h : c.Holds p origin pt W σ m) {t : Ir.Terminator} (hends : c.body.Ends pt t) :
    ∃ o m', c.body.blocks[pt.block]? = some o ∧ o.terminator = t ∧
      c.Quiet p grant origin pt W σ m ⟨pt.temps, pt.block, o.instrs.length⟩ m' := by
  obtain ⟨o, ho, hterm, hle, hslots⟩ := hends
  refine ⟨o, ?_⟩
  -- By the number of slots before the end.
  induction hd : o.instrs.length - pt.index generalizing pt m with
  | zero =>
    have hindex : pt.index = o.instrs.length := by omega
    exact ⟨m, ho, hterm, by rw [← hindex]; exact .refl h⟩
  | succ d ih =>
    have hlt : pt.index < o.instrs.length := by omega
    have hat : c.body.At pt o.instrs[pt.index] := by
      rw [Proc.At, Proc.instr?, ho, Option.bind_some, List.getElem?_eq_getElem hlt]
    rw [List.drop_eq_getElem_cons hlt, List.forall_mem_cons] at hslots
    obtain ⟨dst, ty, hslot, hdst⟩ := hslots.1
    rw [hslot] at hat
    obtain ⟨hmakes, hmemory, -⟩ := h.makes grant hat (Nat.le_refl pt.temps)
    obtain ⟨m', -, -, hrest⟩ := ih hmakes.holds ho hlt hslots.2 (by show _ - (_ + 1) = d; omega)
    have hmakes : c.Quiet p grant origin pt W σ m _ _ := ⟨hmakes.weaken hdst, hmemory⟩
    exact ⟨m', ho, hterm, hmakes.trans hrest⟩

variable (grant) in
/-- The end of a block leads to another block. -/
theorem enters (h : c.Holds p origin pt W σ m) {o : Ir.Block}
    (ho : c.body.blocks[pt.block]? = some o) (hindex : pt.index = o.instrs.length)
    {target : Ir.BlockId} (htarget : target ≠ 0)
    (hleave : m.leave ir o.terminator = .next (m.withFrame (m.frame.goto target))) :
    c.Quiet p grant origin pt W σ m (pt.enter target) (m.withFrame (m.frame.goto target)) ∧
      Ir.Runs ir grant (Regular p ir origin) 1 m (m.withFrame (m.frame.goto target)) := by
  have hstep : Ir.step ir grant m = .next (m.withFrame (m.frame.goto target)) := by
    rw [Ir.step_end h.at_ ho hindex, hleave]
  have hruns := Ir.Runs.single (h.agrees.regular grant fun s hs => by
    rw [← Ir.Outcome.next.inj (hstep.symm.trans hs)]; rfl) hstep
  -- Slots are made in the first block, and all of them before it ends.
  have hbefore {d : TempId} (hd : c.body.SlotBefore (pt.enter target) d) :
      c.body.SlotBefore pt d := by
    obtain ⟨j, ty, hj, -⟩ := hd
    refine ⟨j, ty, hj, fun h0 => ?_⟩
    rw [Proc.instr?, ← h0, ho] at hj
    rw [hindex]
    exact (List.getElem?_eq_some_iff.1 hj).1
  exact ⟨⟨⟨⟨1, hruns⟩, h.moved rfl rfl rfl rfl rfl rfl rfl rfl fun d hd => ⟨hbefore hd, rfl⟩,
    .refl W, Nat.le_refl _, fun d hd => hd.of_block htarget, Nat.le_refl _,
    fun d _ hd _ => .inl (hbefore hd), rfl, fun _ _ => rfl, fun _ _ => rfl, fun _ _ _ _ _ => rfl⟩,
    List.prefix_rfl⟩, hruns⟩

variable (grant) in
/-- **A jump.** -/
theorem jumps (h : c.Holds p origin pt W σ m) {target : Ir.BlockId}
    (hends : c.body.Ends pt (.jump target)) (htarget : target ≠ 0) :
    ∃ m', c.Quiet p grant origin pt W σ m (pt.enter target) m' ∧ Moves p ir origin grant m m' := by
  obtain ⟨o, m', ho, hterm, hlead⟩ := h.toEnd grant hends
  obtain ⟨henter, hruns⟩ := hlead.holds.enters grant ho rfl htarget (by rw [hterm]; rfl)
  exact ⟨_, hlead.trans henter, hlead.leads.runs.imp fun k hk => hk.trans hruns⟩

variable (grant) in
/-- **A branch.** -/
theorem branches (h : c.Holds p origin pt W σ m) {yes no : Ir.BlockId}
    (hends : c.body.Ends pt (.branch v yes no)) (hyes : yes ≠ 0) (hno : no ≠ 0) {cond : Bool}
    (hv : Has ir pt m v (.bool cond)) :
    ∃ m', c.Quiet p grant origin pt W σ m (pt.enter (if cond then yes else no)) m' ∧
      Moves p ir origin grant m m' := by
  obtain ⟨o, m', ho, hterm, hlead⟩ := h.toEnd grant hends
  have hv' : m'.frame.eval? ir v = some (.bool cond) := (hlead.has hv).value
  have htarget : (if cond then yes else no) ≠ 0 := by split <;> assumption
  obtain ⟨henter, hruns⟩ := hlead.holds.enters grant ho rfl htarget (by
    rw [hterm]
    simp only [Ir.State.leave, hv'])
  exact ⟨_, hlead.trans henter, hlead.leads.runs.imp fun k hk => hk.trans hruns⟩

end Holds

/-! ## How runs end -/

section Ends

variable (p : Program) (ir : Ir.Program) (grant : Nat → Bool) (origin : World)

/-- The machine halts with a message, after such an output. -/
def Halts (m : Ir.State) (message : String) (output : List Int32) : Prop :=
  ∃ k m', Ir.Runs ir grant (Regular p ir origin) k m m' ∧ Regular p ir origin m' ∧
    Ir.step ir grant m' = .halted message ∧ m'.output = output

/-- The machine runs for so many steps at least, and has such an output then. -/
def Lasts (fuel : Nat) (m : Ir.State) (output : List Int32) : Prop :=
  ∃ k m', fuel ≤ k ∧ Ir.Runs ir grant (Regular p ir origin) k m m' ∧ m'.output = output

end Ends

section Ends

variable {fuel fuel' k : Nat} {message : String} {output : List Int32}

theorem Halts.after (h : Ir.Runs ir grant (Regular p ir origin) k m m₁)
    (h' : Halts p ir grant origin m₁ message output) : Halts p ir grant origin m message output := by
  obtain ⟨k', m', hruns, hrest⟩ := h'
  exact ⟨k + k', m', h.trans hruns, hrest⟩

theorem Lasts.after (h : Ir.Runs ir grant (Regular p ir origin) k m m₁)
    (h' : Lasts p ir grant origin fuel m₁ output) :
    Lasts p ir grant origin (k + fuel) m output := by
  obtain ⟨k', m', hle, hruns, houtput⟩ := h'
  exact ⟨k + k', m', Nat.add_le_add_left hle k, h.trans hruns, houtput⟩

theorem Lasts.mono (h : Lasts p ir grant origin fuel m output) (hle : fuel' ≤ fuel) :
    Lasts p ir grant origin fuel' m output := by
  obtain ⟨k, m', hk, hrest⟩ := h
  exact ⟨k, m', Nat.le_trans hle hk, hrest⟩

variable (grant) in
/-- **A halt.** -/
theorem Holds.halts (h : c.Holds p origin pt W σ m) (hends : c.body.Ends pt (.halt message)) :
    Halts p ir grant origin m message σ.output := by
  obtain ⟨o, m', ho, hterm, hlead⟩ := h.toEnd grant hends
  obtain ⟨k, hk⟩ := hlead.leads.runs
  have hstep : Ir.step ir grant m' = .halted message := by
    rw [Ir.step_end hlead.holds.at_ ho rfl, hterm, Ir.State.leave]
  refine ⟨k, m', hk, hlead.holds.agrees.regular grant fun s hs => ?_, hstep, hlead.holds.agrees.output⟩
  cases hstep.symm.trans hs

end Ends

/-! ## What code does -/

section Follows

variable {α β : Type} {fuel fuel' : Nat} {P : α → Semantics.State → Prop}
variable {P' : β → Semantics.State → Prop} {r : Semantics.Result α}

variable (p ir grant origin) in
/-- **The machine does what the source does**: it comes to what is said of the
result, or it halts likewise, or it runs as long. It is never stuck. -/
def Follows (fuel : Nat) (m : Ir.State) (P : α → Semantics.State → Prop) :
    Semantics.Result α → Prop
  | .ok value σ' => P value σ'
  | .halt fault σ' => Halts p ir grant origin m fault.message σ'.output
  | .timeout σ' => Lasts p ir grant origin fuel m σ'.output
  | .stuck => False

theorem Follows.mono {P' : α → Semantics.State → Prop} (h : Follows p ir grant origin fuel m P r)
    (hP : ∀ value σ', P value σ' → P' value σ') : Follows p ir grant origin fuel m P' r := by
  cases r with
  | ok value σ' => exact hP value σ' h
  | halt | timeout | stuck => exact h

/-- It runs as long, so it runs less long. -/
theorem Follows.sooner (h : Follows p ir grant origin fuel m P r) (hle : fuel' ≤ fuel) :
    Follows p ir grant origin fuel' m P r := by
  cases r with
  | timeout => exact Lasts.mono h hle
  | ok | halt | stuck => exact h

/-- **A run before it.** -/
theorem Follows.after {P' : α → Semantics.State → Prop}
    (hruns : Ir.Runs ir grant (Regular p ir origin) k m m₁)
    (h : Follows p ir grant origin fuel m₁ P r) (hP : ∀ value σ', P value σ' → P' value σ')
    (hfuel : fuel' ≤ k + fuel) : Follows p ir grant origin fuel' m P' r := by
  cases r with
  | ok value σ' => exact hP value σ' h
  | halt => exact Halts.after hruns h
  | timeout => exact (Lasts.after hruns h).mono hfuel
  | stuck => exact h

/-- **One computation and then another.** -/
theorem Follows.bind {x : Semantics.Run α} {k : α → Semantics.Run β}
    (h : Follows p ir grant origin fuel m P (x σ))
    (hk : ∀ value σ', P value σ' → Follows p ir grant origin fuel m P' (k value σ')) :
    Follows p ir grant origin fuel m P' ((x >>= k) σ) := by
  show Follows _ _ _ _ _ _ _ (Semantics.Run.bind x k σ)
  unfold Semantics.Run.bind
  cases hx : x σ with
  | ok value σ' =>
    rw [hx] at h
    exact hk value σ' h
  | halt | timeout | stuck =>
    rw [hx] at h
    exact h

end Follows

section Outcome

variable {α β : Type} {fuel : Nat}

variable (p grant origin c) in
/-- The machine does what the source does, from one point to another, where
something holds of the result. -/
def Outcome (n fuel : Nat) (pt : Point) (W : World) (m : Ir.State) (pt' : Point)
    (Q : α → World → Ir.State → Prop) : Semantics.Result α → Prop :=
  Follows p ir grant origin fuel m fun value σ' =>
    ∃ W' m', c.Leads p grant origin n pt W m pt' W' σ' m' ∧ Q value W' m'

namespace Outcome

variable {Q : α → World → Ir.State → Prop} {R : β → World → Ir.State → Prop}
variable {x : Semantics.Run α} {k : α → Semantics.Run β} {r : Semantics.Result α}

theorem mono {Q' : α → World → Ir.State → Prop}
    (h : c.Outcome p grant origin n' fuel pt W m pt₁ Q r) (hn : n ≤ n')
    (hQ : ∀ value W' m' σ', c.Leads p grant origin n' pt W m pt₁ W' σ' m' → Q value W' m' →
      Q' value W' m') : c.Outcome p grant origin n fuel pt W m pt₁ Q' r :=
  Follows.mono h fun value σ' ⟨W', m', hlead, hvalue⟩ =>
    ⟨W', m', hlead.weaken hn, hQ value W' m' σ' hlead hvalue⟩

/-- **A run before it.** -/
theorem after (hlead : c.Leads p grant origin n pt W m pt₁ W₁ σ₁ m₁)
    (h : c.Outcome p grant origin n' fuel pt₁ W₁ m₁ pt₂ Q r) (hn : n ≤ n') :
    c.Outcome p grant origin n fuel pt W m pt₂ Q r := by
  obtain ⟨j, hj⟩ := hlead.runs
  exact Follows.after hj h (fun value σ' ⟨W', m', hlead', hQ⟩ =>
    ⟨W', m', hlead.trans hlead' hn, hQ⟩) (Nat.le_add_left _ _)

/-- **One computation and then another.** -/
theorem bind (h : c.Outcome p grant origin n fuel pt W m pt₁ Q (x σ))
    (hk : ∀ value W₁ σ₁ m₁, c.Leads p grant origin n pt W m pt₁ W₁ σ₁ m₁ → Q value W₁ m₁ →
      c.Outcome p grant origin n fuel pt₁ W₁ m₁ pt₂ R (k value σ₁)) :
    c.Outcome p grant origin n fuel pt W m pt₂ R ((x >>= k) σ) :=
  Follows.bind h fun value σ' ⟨W', m', hlead, hQ⟩ =>
    after hlead (hk value W' σ' m' hlead hQ) (Nat.le_refl n)

end Outcome

end Outcome

end Call

end ClassLang.Lowering
