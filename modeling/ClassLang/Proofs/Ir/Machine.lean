import ClassLang.Ir.Program
/-!
# Intermediate form — a machine that runs it

Memory is one tree of cells for every allocation. A pointer is an
allocation and a path of members and elements in it, so there are no byte
offsets, and reading a pointer as one to another type changes nothing. An
array has its length in front of its elements. The machine takes a step for
every instruction and every end of a block; a step that no rule covers is
`stuck`. `grant` says which requests for memory are met. How many bytes a
request is for does not change the step; that their number is not negative
is what the machine asserts (`State.Asserts`).
-/


namespace ClassLang.Ir

/-! ## Values and memory -/

/-- What a pointer points to. -/
structure Addr where
  object : Nat
  path : List Nat
deriving DecidableEq, Repr

inductive Value
  | int (value : Int32)
  | bool (value : Bool)
  | null
  | ptr (addr : Addr)
  | proc (id : ProcId)
deriving DecidableEq, Repr

/-- A part of the memory of an allocation. -/
inductive Cell
  | uninit
  | scalar (value : Value)
  | agg (parts : Nat → Cell)

namespace Cell

/-- The member or element of a number. -/
def part : Cell → Nat → Cell
  | agg parts, i => parts i
  | _, _ => uninit

/-- The value at a path. -/
def load? : Cell → List Nat → Option Value
  | scalar value, [] => some value
  | _, [] => none
  | c, i :: path => (c.part i).load? path

/-- Writes a value at a path. What was at a part of the path is gone, and
so is what was below it. -/
def store (c : Cell) : List Nat → Value → Cell
  | [], value => scalar value
  | i :: path, value => agg fun j => if j = i then (c.part i).store path value else c.part j

/-- Whether there is a part at a path. The length of an array stands in front
of its elements, and an element is below it. -/
def Has (c : Cell) : List Nat → Prop
  | [_, index] => ∃ length, c.load? [0] = some (.int length) ∧ (index : Int) < length.toInt
  | _ => True

instance (c : Cell) : (path : List Nat) → Decidable (c.Has path)
  | [] | [_] | _ :: _ :: _ :: _ => inferInstanceAs (Decidable True)
  | [_, index] => match h : c.load? [0] with
    | some (.int length) =>
      decidable_of_iff ((index : Int) < length.toInt)
        ⟨fun hlt => ⟨length, h, hlt⟩, fun ⟨_, heq, hlt⟩ => by
          rw [h] at heq
          obtain rfl := Value.int.inj (Option.some.inj heq)
          exact hlt⟩
    | some (.bool _) | some .null | some (.ptr _) | some (.proc _) | none =>
      .isFalse fun ⟨_, heq, _⟩ => by rw [h] at heq; cases heq

@[simp] theorem load?_store_self (c : Cell) (path : List Nat) (value : Value) :
    (c.store path value).load? path = some value := by
  induction path generalizing c with
  | nil => rfl
  | cons i path ih => simpa [store, load?, part] using ih (c.part i)

/-- A value at another place stays; neither path leads through the other. -/
theorem load?_store_of_diverge (c : Cell) {path other : List Nat} (h : ¬ path <+: other)
    (h' : ¬ other <+: path) (value : Value) :
    (c.store path value).load? other = c.load? other := by
  induction path generalizing c other with
  | nil => exact absurd List.nil_prefix h
  | cons i path ih =>
    cases other with
    | nil => exact absurd List.nil_prefix h'
    | cons j other =>
      have hload (parts : Nat → Cell) : (agg parts).load? (j :: other) = (parts j).load? other := rfl
      have hload' : c.load? (j :: other) = (c.part j).load? other := by cases c <;> rfl
      rw [store, hload, hload']
      split
      next heq =>
        subst heq
        rw [List.cons_prefix_cons] at h h'
        exact ih _ (fun hp => h ⟨rfl, hp⟩) fun hp => h' ⟨rfl, hp⟩
      next => rfl

end Cell

mutual

/-- The memory that a constant fills. -/
def Const.cell : Const → Cell
  | .int value => .scalar (.int value)
  | .bool value => .scalar (.bool value)
  | .null => .scalar .null
  | .proc id => .scalar (.proc id)
  | .struct _ fields => .agg (constCells fields)

/-- The members that constants fill. -/
def constCells : List Const → Nat → Cell
  | [], _ => .uninit
  | c :: _, 0 => c.cell
  | _ :: rest, i + 1 => constCells rest i

end

theorem constCells_eq (fields : List Const) (i : Nat) :
    constCells fields i = (fields[i]?.map Const.cell).getD .uninit := by
  induction fields generalizing i with
  | nil => rfl
  | cons c rest ih =>
    cases i with
    | zero => rfl
    | succ i => rw [constCells, ih, List.getElem?_cons_succ]

/-! ## States -/

/-- A call that is being run. -/
structure Frame where
  proc : ProcId
  args : List Value
  temps : TempId → Option Value
  block : BlockId
  index : Nat

namespace Frame

/-- The first instruction of a procedure. -/
def enter (proc : ProcId) (args : List Value) : Frame := ⟨proc, args, fun _ => none, 0, 0⟩

/-- Behind the current instruction. -/
def advance (f : Frame) : Frame := { f with index := f.index + 1 }

/-- Behind the current instruction, which gives the value. -/
def give (f : Frame) (dst : TempId) (value : Value) : Frame :=
  { f with temps := fun t => if t = dst then some value else f.temps t, index := f.index + 1 }

/-- At the start of a block. -/
def goto (f : Frame) (block : BlockId) : Frame := { f with block := block, index := 0 }

end Frame

/-- The state of a run. -/
structure State where
  /-- The globals, then the allocations in their order. -/
  memory : List Cell
  /-- How often memory was asked for. -/
  requests : Nat
  output : List Int32
  frame : Frame
  /-- The calls that wait, each with the temporary for the result. -/
  callers : List (Frame × TempId)

namespace State

def withFrame (s : State) (f : Frame) : State := { s with frame := f }

/-- The state behind the current instruction. -/
def advance (s : State) : State := s.withFrame s.frame.advance

/-- The state behind the current instruction, which gives the value. -/
def give (s : State) (dst : TempId) (value : Value) : State :=
  s.withFrame (s.frame.give dst value)

/-- Makes an allocation; the current instruction gives the pointer. -/
def create (s : State) (dst : TempId) : State :=
  { s.give dst (.ptr ⟨s.memory.length, []⟩) with memory := s.memory ++ [.uninit] }

end State

/-- What a step comes to. -/
inductive Outcome
  | next (s : State)
  | returned (value : Value)
  | halted (message : String)
  | stuck

/-- The state that comes next, or nothing that is allowed. -/
def Outcome.ofOption : Option State → Outcome
  | some s => .next s
  | none => .stuck

/-- A call returns a value; the caller goes on with it, if there is one. -/
def State.return_ (s : State) (value : Value) : Outcome :=
  match s.callers with
  | [] => .returned value
  | (caller, dst) :: callers =>
    .next { s with frame := caller.give dst value, callers := callers }

/-- The result of an operation. There is none of a division by zero or
with an overflow, nor on values of the wrong kind. -/
def BinOp.eval? : BinOp → Value → Value → Option Value
  | add, .int a, .int b => some (.int (a + b))
  | sub, .int a, .int b => some (.int (a - b))
  | mul, .int a, .int b => some (.int (a * b))
  | div, .int a, .int b =>
    if b = 0 ∨ (a = Int32.minValue ∧ b = -1) then none else some (.int (a / b))
  | lt, .int a, .int b => some (.bool (a < b))
  | and, .bool a, .bool b => some (.bool (a && b))
  | or, .bool a, .bool b => some (.bool (a || b))
  | eq, a, b => some (.bool (a = b))
  | _, _, _ => none

section Step

variable (p : Program)

/-- The value of an operand. -/
def Frame.eval? (f : Frame) : Operand → Option Value
  | .int value => some (.int value)
  | .bool value => some (.bool value)
  | .null => some .null
  | .temp t => f.temps t
  | .param index => f.args[index]?
  | .global id => if id < p.globals.length then some (.ptr ⟨id, []⟩) else none
  | .proc id => some (.proc id)

/-- The address that an operand has. -/
def Frame.addr? (f : Frame) (operand : Operand) : Option Addr := do
  match ← f.eval? p operand with
  | .ptr addr => some addr
  | _ => none

/-- The integer that an operand is. -/
def Frame.int? (f : Frame) (operand : Operand) : Option Int32 := do
  match ← f.eval? p operand with
  | .int value => some value
  | _ => none

/-- The part of a path that an index adds. -/
def Frame.part? (f : Frame) (index : Operand) : Option Nat := do
  let value ← f.int? p index
  if value < 0 then none else some value.toInt.toNat

variable (grant : Nat → Bool)

/-- The state behind an instruction. -/
def State.exec? (s : State) : Instr → Option State
  | .alloca dst _ => some (s.create dst)
  | .load dst addr => do
    let addr ← s.frame.addr? p addr
    let value ← (← s.memory[addr.object]?).load? addr.path
    return s.give dst value
  | .store addr value => do
    let addr ← s.frame.addr? p addr
    let value ← s.frame.eval? p value
    let cell ← s.memory[addr.object]?
    return { s.advance with memory := s.memory.set addr.object (cell.store addr.path value) }
  | .binary dst op lhs rhs => do
    let value ← op.eval? (← s.frame.eval? p lhs) (← s.frame.eval? p rhs)
    return s.give dst value
  | .elementPtr dst base indices => do
    let addr ← s.frame.addr? p base
    match indices with
    | [] => none
    | first :: rest =>
      if (← s.frame.int? p first) = 0 then
        let path ← rest.mapM (s.frame.part? p)
        if (← s.memory[addr.object]?).Has (addr.path ++ path) then
          return s.give dst (.ptr ⟨addr.object, addr.path ++ path⟩)
        else
          none
      else
        none
  | .bitcast dst value => do
    let value ← s.frame.eval? p value
    return s.give dst value
  | .alloc dst size => do
    -- Whatever the size, the request may be met or not. Its sign is asserted apart.
    let _ ← s.frame.int? p size
    if grant s.requests then
      return { s.create dst with requests := s.requests + 1 }
    else
      return { s.give dst .null with requests := s.requests + 1 }
  | .call dst callee args => do
    match ← s.frame.eval? p callee with
    | .proc id =>
      let args ← args.mapM (s.frame.eval? p)
      let q ← p.procs[id]?
      if q.isDefined ∧ args.length = q.params.length then
        return { s with frame := .enter id args, callers := (s.frame, dst) :: s.callers }
      else
        none
    | _ => none
  | .print value => do
    let value ← s.frame.int? p value
    return { s.advance with output := s.output ++ [value] }
  | .comment _ => some s.advance

/-- What the end of a block comes to. -/
def State.leave (s : State) : Terminator → Outcome
  | .branch cond yes no =>
    match s.frame.eval? p cond with
    | some (.bool value) => .next (s.withFrame (s.frame.goto (if value then yes else no)))
    | _ => .stuck
  | .jump target => .next (s.withFrame (s.frame.goto target))
  | .ret value =>
    match s.frame.eval? p value with
    | some value => s.return_ value
    | none => .stuck
  | .halt message => .halted message

/-- **A step.** -/
def step (s : State) : Outcome :=
  match p.procs[s.frame.proc]?.bind (·.blocks[s.frame.block]?) with
  | none => .stuck
  | some block =>
    match block.instrs[s.frame.index]? with
    | some i => .ofOption (s.exec? p grant i)
    | none => s.leave p block.terminator

/-- The bytes that the next step asks for, if it asks for memory. -/
def State.asks? (s : State) : Option Int32 :=
  match (p.procs[s.frame.proc]?.bind (·.blocks[s.frame.block]?)).bind
    (·.instrs[s.frame.index]?) with
  | some (.alloc _ size) => s.frame.int? p size
  | _ => none

/-- **What the machine asserts** before a step: it is not asked for a negative
number of bytes. -/
def State.Asserts (s : State) : Prop := ∀ size, s.asks? p = some size → 0 ≤ size

/-- So many steps lead from one state to another. -/
inductive Reaches : Nat → State → State → Prop
  | refl (s) : Reaches 0 s s
  | step {n s s' s''} : step p grant s = .next s' → Reaches n s' s'' → Reaches (n + 1) s s''

/-- The globals at first. -/
def Program.globalCells : List Cell := p.globals.map (·.init.cell)

/-- The state in which a procedure is called. -/
def State.call (memory : List Cell) (id : ProcId) (args : List Value) : State :=
  ⟨memory, 0, [], .enter id args, []⟩

end Step

end ClassLang.Ir
