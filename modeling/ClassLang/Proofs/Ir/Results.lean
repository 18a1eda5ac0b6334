import ClassLang.Proofs.Ir.Operations
/-!
# Intermediate form — what operations yield

An operation that fails leaves no trace, and one that yields a value adds one
temporary, of the type that its instruction means, and the instruction that
gives it (`Operation.Exact`). So in every run each temporary is given by just
one instruction (`operations_exact`).
-/


namespace ClassLang.Ir

/-- The operation adds temporaries only together with the instructions that
give them. -/
def Operation.Paired : Operation → Prop
  | newTemp _ _ | emit _ => False
  | _ => True

namespace Builder

/-- The instruction at the place gives the temporary. -/
def Defines (b : Builder) (d : TempId) (k : BlockId) (j : Nat) : Prop :=
  ∃ ins, b.instr? k j = some ins ∧ ins.dst? = some d

/-- **Every temporary is given by just one instruction**, and instructions give
no others. -/
structure Defined (b : Builder) : Prop where
  once : ∀ d < b.temps.length, ∃ k j, b.Defines d k j ∧
    ∀ k' j', b.Defines d k' j' → k' = k ∧ j' = j
  bound : ∀ d k j, b.Defines d k j → d < b.temps.length

/-- Nothing is given that was not before. -/
structure Quiet (b b' : Builder) : Prop where
  temps : b'.temps = b.temps
  keeps : ∀ k j ins, b.instr? k j = some ins → b'.instr? k j = some ins
  gives : ∀ k j ins, b'.instr? k j = some ins → b.instr? k j = some ins ∨ ins.dst? = none

/-- **A field is given by an instruction**: it is a fresh temporary of its
type, and the instruction is the only one that is new. -/
structure Given (b b' : Builder) (f : Field) (ins : Instr) : Prop where
  temps : b'.temps = b.temps ++ [f]
  typed : ∀ p, b'.typeOf p (.temp b.temps.length) = .ok f.ty
  dst : ins.dst? = some b.temps.length
  added : ∃ k j, b.instr? k j = none ∧ ∀ k' j' ins', b'.instr? k' j' = some ins' ↔
    b.instr? k' j' = some ins' ∨ (k' = k ∧ j' = j ∧ ins' = ins)

end Builder

open Builder

/-- **An operation is atomic and exact.** -/
structure Operation.Exact (op : Operation) (b : Builder) : Prop where
  /-- Step by step it comes to what it comes to as a whole. -/
  whole : op.apply b = Operation.settle b (op.run b)
  failed : ∀ e b', op.apply b = (.error e, b') → b' = b
  silent : ∀ b', op.apply b = (.ok none, b') → b.Quiet b'
  yielded : ∀ v b', op.apply b = (.ok (some v), b') → ∃ f i, op.Gives b f i ∧
    v = .temp b.temps.length ∧ b.Given b' f (i b.temps.length)
  /-- It yields what it means wherever that is defined. -/
  defined : ∀ f i, op.Gives b f i → ∃ v b', op.apply b = (.ok (some v), b')

namespace Builder

variable {b b' : Builder} {op : Operation} {ops : List Operation}

theorem temps_place (b : Builder) (op : Operation) : (op.place b).2.temps = b.temps := by
  cases op with
  | entryAlloca => rfl
  | _ => exact b.temps_insertion

/-- A fresh block has no instructions. -/
theorem instr?_newBlock (b : Builder) (name : String) (k : BlockId) (j : Nat) :
    (b.newBlock name).2.instr? k j = b.instr? k j := by
  rw [instr?, instr?, newBlock, List.getElem?_append]
  split
  next => rfl
  next hge =>
    rw [List.getElem?_eq_none (Nat.le_of_not_lt hge)]
    cases k - b.blocks.length <;> rfl

theorem instr?_insertion (b : Builder) (k : BlockId) (j : Nat) :
    b.insertion.2.instr? k j = b.instr? k j := by
  rcases b.insertion_cases with ⟨-, heq⟩ | ⟨-, -, heq⟩ <;> rw [heq]
  exact b.instr?_newBlock "dead" k j

theorem instr?_place (b : Builder) (op : Operation) (k : BlockId) (j : Nat) :
    (op.place b).2.instr? k j = b.instr? k j := by
  cases op with
  | entryAlloca => rfl
  | _ => exact b.instr?_insertion k j

/-- The block that an instruction goes into is there. -/
theorem InRange.place (hb : b.InRange) (op : Operation) :
    ∃ o, (op.place b).2.blocks[(op.place b).1]? = some o := by
  cases op with
  | entryAlloca => exact ⟨_, List.getElem?_eq_getElem hb.entry⟩
  | _ => exact hb.insertion

/-! ## Operations without a value -/

theorem Quiet.refl (b : Builder) : b.Quiet b := ⟨rfl, fun _ _ _ h => h, fun _ _ _ h => .inl h⟩

theorem quiet_of_instr? (htemps : b'.temps = b.temps)
    (hinstr : ∀ k j, b'.instr? k j = b.instr? k j) : b.Quiet b' :=
  ⟨htemps, fun k j _ h => (hinstr k j).trans h, fun k j _ h => .inl ((hinstr k j).symm.trans h)⟩

theorem quiet_terminate (b : Builder) (t : Terminator) : b.Quiet (b.terminate t) := by
  rw [terminate_eq]
  exact quiet_of_instr? b.temps_insertion fun k j =>
    (instr?_close _ _ t k j).trans (b.instr?_insertion k j)

/-- An instruction that gives nothing. -/
theorem InRange.quiet_emit (hb : b.InRange) {ins : Instr} (hdst : ins.dst? = none) :
    b.Quiet (b.emit ins) := by
  obtain ⟨o, ho⟩ := hb.insertion
  rw [emit_eq]
  refine ⟨(List.append_nil _).trans b.temps_insertion, fun k j ins' h => ?_, fun k j ins' h => ?_⟩
  · exact instr?_add_of_some ho ((b.instr?_insertion k j).trans h)
  · rcases instr?_add ho h with h | ⟨-, -, rfl⟩
    · exact .inl ((b.instr?_insertion k j).symm.trans h)
    · exact .inr hdst

/-- **An operation without a value gives nothing.** -/
theorem InRange.quiet (hb : b.InRange) (hop : op.Paired) (h : op.run b = .ok (none, b')) :
    b.Quiet b' := by
  cases op with
  | newTemp | emit => exact hop.elim
  | newBlock name => cases h; exact quiet_of_instr? rfl (b.instr?_newBlock name)
  | switchTo k => cases h; exact quiet_of_instr? rfl fun _ _ => rfl
  | terminate t => cases h; exact b.quiet_terminate t
  | store addr value => cases h; exact hb.quiet_emit rfl
  | print value => cases h; exact hb.quiet_emit rfl
  | comment text =>
    cases h
    cases hcurrent : b.current with
    | none =>
      rw [comment, hcurrent]
      exact .refl b
    | some k =>
      rw [comment_eq hcurrent]
      exact hb.quiet_emit rfl
  | alloca | entryAlloca | binary | bitcast | alloc => cases h
  | load | elementPtr | call => exact (Operation.map_some_ne h).elim

/-! ## Operations with a value -/

theorem dst?_of_gives {f : Field} {i : TempId → Instr} (h : op.Gives b f i) (d : TempId) :
    (i d).dst? = some d := by
  cases h <;> rfl

/-- **What an operation yields is given once.** -/
theorem InRange.given (hb : b.InRange) {f : Field} {i : TempId → Instr} (h : op.Gives b f i) :
    b.Given (op.give b f i) f (i b.temps.length) := by
  obtain ⟨o, ho⟩ := hb.place op
  have htemps : (op.give b f i).temps = b.temps ++ [f] := congrArg (· ++ [f]) (temps_place b op)
  refine ⟨htemps, fun p => ?_, dst?_of_gives h _, (op.place b).1, o.instrs.length, ?_,
    fun k j ins => ⟨fun h => ?_, fun h => ?_⟩⟩
  · rw [typeOf, htemps, Program.operandTy, Program.find, List.getElem?_concat_length]
    rfl
  · rw [← instr?_place b op, instr?, ho]
    exact List.getElem?_eq_none (Nat.le_refl _)
  · rcases instr?_add ho h with h | h
    · exact .inl ((instr?_place b op k j).symm.trans h)
    · exact .inr h
  · rcases h with h | ⟨rfl, rfl, rfl⟩
    · exact instr?_add_of_some ho ((instr?_place b op k j).trans h)
    · exact instr?_add_self ho

/-- **An operation is atomic and exact** where the blocks that are used are
there. -/
theorem InRange.exact (hb : b.InRange) (hop : op.Paired) : op.Exact b := by
  refine ⟨op.apply_eq b, fun e b' h => ?_, fun b' h => ?_, fun v b' h => ?_, fun f i h => ?_⟩
  · exact Operation.settle_error ((op.apply_eq b).symm.trans h)
  · exact hb.quiet hop (Operation.settle_ok_iff.1 ((op.apply_eq b).symm.trans h))
  · have hrun := Operation.settle_ok_iff.1 ((op.apply_eq b).symm.trans h)
    obtain ⟨f, i, hgives⟩ := Operation.gives_of_run hrun
    obtain ⟨hv, rfl⟩ :=
      Prod.mk.inj (Except.ok.inj (hrun.symm.trans (Operation.run_of_gives hgives)))
    exact ⟨f, i, hgives, Option.some.inj hv, hb.given hgives⟩
  · exact ⟨_, _, (op.apply_eq b).trans
      (Operation.settle_ok_iff.2 (Operation.run_of_gives h))⟩

/-! ## Runs -/

theorem Quiet.defines_iff (h : b.Quiet b') {d : TempId} {k : BlockId} {j : Nat} :
    b'.Defines d k j ↔ b.Defines d k j := by
  constructor
  · rintro ⟨ins, hins, hdst⟩
    refine ⟨ins, (h.gives k j ins hins).resolve_right fun hnone => ?_, hdst⟩
    rw [hnone] at hdst
    cases hdst
  · rintro ⟨ins, hins, hdst⟩
    exact ⟨ins, h.keeps k j ins hins, hdst⟩

theorem Defined.quiet (hb : b.Defined) (h : b.Quiet b') : b'.Defined := by
  refine ⟨fun d hd => ?_, fun d k j hdef => ?_⟩
  · obtain ⟨k, j, hdef, hunique⟩ := hb.once d (h.temps ▸ hd)
    exact ⟨k, j, h.defines_iff.2 hdef, fun k' j' hdef' => hunique k' j' (h.defines_iff.1 hdef')⟩
  · rw [h.temps]
    exact hb.bound d k j (h.defines_iff.1 hdef)

/-- A temporary that is given joins those that are given once. -/
theorem Defined.given (hb : b.Defined) {f : Field} {ins : Instr} (h : b.Given b' f ins) :
    b'.Defined := by
  obtain ⟨k₀, j₀, hfree, hadded⟩ := h.added
  have hlength : b'.temps.length = b.temps.length + 1 := by rw [h.temps, List.length_append]; rfl
  -- Only the new instruction gives the new temporary, and it gives no other.
  have hnew (k j) : b'.Defines b.temps.length k j ↔ k = k₀ ∧ j = j₀ := by
    constructor
    · rintro ⟨ins', hins', hdst⟩
      rcases (hadded k j ins').1 hins' with hold | ⟨rfl, rfl, -⟩
      · exact absurd (hb.bound _ k j ⟨ins', hold, hdst⟩) (Nat.lt_irrefl _)
      · exact ⟨rfl, rfl⟩
    · rintro ⟨rfl, rfl⟩
      exact ⟨ins, (hadded _ _ ins).2 (.inr ⟨rfl, rfl, rfl⟩), h.dst⟩
  have hold {d} (hd : d ≠ b.temps.length) (k j) : b'.Defines d k j ↔ b.Defines d k j := by
    constructor
    · rintro ⟨ins', hins', hdst⟩
      rcases (hadded k j ins').1 hins' with hins' | ⟨-, -, rfl⟩
      · exact ⟨ins', hins', hdst⟩
      · exact absurd (Option.some.inj (hdst.symm.trans h.dst)) hd
    · rintro ⟨ins', hins', hdst⟩
      exact ⟨ins', (hadded k j ins').2 (.inl hins'), hdst⟩
  refine ⟨fun d hd => ?_, fun d k j hdef => ?_⟩
  · rcases Nat.lt_succ_iff_lt_or_eq.1 (hlength ▸ hd) with hlt | rfl
    · obtain ⟨k, j, hdef, hunique⟩ := hb.once d hlt
      exact ⟨k, j, (hold (Nat.ne_of_lt hlt) k j).2 hdef, fun k' j' hdef' =>
        hunique k' j' ((hold (Nat.ne_of_lt hlt) k' j').1 hdef')⟩
    · exact ⟨k₀, j₀, (hnew _ _).2 ⟨rfl, rfl⟩, fun k j hdef => (hnew k j).1 hdef⟩
  · rw [hlength]
    by_cases hd : d = b.temps.length
    · exact Nat.lt_succ_of_le (Nat.le_of_eq hd)
    · exact Nat.lt_succ_of_lt (hb.bound d k j ((hold hd k j).1 hdef))

/-- **An operation keeps that every temporary is given once.** -/
theorem Defined.step (hb : b.Defined) (hop : op.Exact b) : (b.step op).Defined := by
  have happly : op.apply b = ((op.apply b).1, b.step op) := rfl
  cases hresult : (op.apply b).1 with
  | error e =>
    rw [hresult] at happly
    rw [hop.failed e (b.step op) happly]
    exact hb
  | ok v =>
    rw [hresult] at happly
    cases v with
    | none => exact hb.quiet (hop.silent _ happly)
    | some v =>
      obtain ⟨f, i, -, -, hgiven⟩ := hop.yielded v _ happly
      exact hb.given hgiven

theorem Defined.after (hb : b.Defined) (hrange : b.InRange) (hruns : b.Runs ops)
    (hops : ∀ op ∈ ops, op.Paired) : (b.after ops).Defined := by
  induction ops generalizing b with
  | nil => exact hb
  | cons op ops ih =>
    exact ih (hb.step (hrange.exact (hops op List.mem_cons_self)))
      ((b.change_step op).inRange hruns.1 hrange) hruns.2
      fun op' hmem => hops op' (List.mem_cons_of_mem _ hmem)

theorem defined_start (params : List Field) (ret : Ty) : (start params ret).Defined := by
  refine ⟨fun d hd => absurd hd (Nat.not_lt_zero d), ?_⟩
  rintro d k j ⟨ins, hins, -⟩
  cases k <;> simp [instr?, start] at hins

/-- **In every run, operations are atomic and exact, and every temporary is
given by just one instruction.** -/
theorem operations_exact (params : List Field) (ret : Ty) (ops : List Operation)
    (hruns : (start params ret).Runs ops) (hops : ∀ op ∈ ops, op.Paired) :
    ((start params ret).after ops).Defined ∧
      ∀ op : Operation, op.Paired → op.Exact ((start params ret).after ops) :=
  ⟨(defined_start params ret).after (inRange_start params ret) hruns hops, fun _ hop =>
    ((inRange_start params ret).after hruns).exact hop⟩

/-- An array of integers, and a run that takes the address of an element of one
and reads it; then it fails to read what is no pointer. -/
def arrays : Program :=
  ⟨[⟨"array_int", [⟨"length", .int⟩, ⟨"data", .array .int 0⟩]⟩], [], []⟩

def reading : List Operation :=
  [.elementPtr arrays "elem" (.param 0) [.int 0, .int 1, .int 3], .load arrays "v" (.temp 0),
    .load arrays "bad" (.temp 1)]

theorem operations_exact_reading :
    (start [⟨"a", .ptr (.struct 0)⟩] .int).Runs reading ∧ (∀ op ∈ reading, op.Paired) ∧
    ((start [⟨"a", .ptr (.struct 0)⟩] .int).after reading).Defined ∧
    (∀ op : Operation, op.Paired →
      op.Exact ((start [⟨"a", .ptr (.struct 0)⟩] .int).after reading)) ∧
    ((start [⟨"a", .ptr (.struct 0)⟩] .int).after reading).temps =
      [⟨"elem", .ptr .int⟩, ⟨"v", .int⟩] := by
  have hruns : (start [⟨"a", .ptr (.struct 0)⟩] .int).Runs reading :=
    ⟨trivial, trivial, trivial, trivial⟩
  have hpaired : ∀ op ∈ reading, op.Paired := by
    simp [reading, Operation.Paired]
  obtain ⟨hdefined, hexact⟩ := operations_exact [⟨"a", .ptr (.struct 0)⟩] .int reading hruns hpaired
  exact ⟨hruns, hpaired, hdefined, hexact, rfl⟩

end Builder

end ClassLang.Ir
