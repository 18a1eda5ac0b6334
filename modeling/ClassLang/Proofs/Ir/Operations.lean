import ClassLang.Proofs.Ir.Emissions
/-!
# Intermediate form — operations on a body

An `Operation` is what a body is built with, and `Builder.after` the body that
a run of operations leaves. `Operation.steps` takes the steps of an operation
one by one, where a failure leaves what was done before it; `apply_eq` says
that nothing was. `Builder.Change` says once what an operation can do to a
body; what holds of every run is told from it.
-/


namespace ClassLang.Ir

/-- What a body is built with. What looks at types has the program to look
in with it. -/
inductive Operation
  | newBlock (name : String)
  | switchTo (block : BlockId)
  | newTemp (name : String) (ty : Ty)
  | emit (i : Instr)
  | terminate (t : Terminator)
  | comment (text : String)
  | alloca (name : String) (ty : Ty)
  | entryAlloca (name : String) (ty : Ty)
  | load (p : Program) (name : String) (addr : Operand)
  | store (addr value : Operand)
  | binary (name : String) (op : BinOp) (lhs rhs : Operand)
  | elementPtr (p : Program) (name : String) (base : Operand) (indices : List Operand)
  | bitcast (name : String) (value : Operand) (ty : Ty)
  | alloc (name : String) (size : Operand)
  | call (p : Program) (name : String) (callee : Operand) (args : List Operand)
  | print (value : Operand)

/-! ## Step by step -/

/-- Steps on a body. Where they fail, the body is what the steps before the
failure have made of it. -/
abbrev Steps (α : Type) := ExceptT Error (StateM Builder) α

namespace Steps

/-- What steps come to, and the body that they leave. -/
def apply {α : Type} (x : Steps α) (b : Builder) : Except Error α × Builder := (x.run.run b).run

/-- A look at the body. -/
def look {α : Type} (f : Builder → Except Error α) : Steps α := fun b => (f b, b)

/-- A change of the body. -/
def change (f : Builder → Builder) : Steps Unit := fun b => (.ok (), f b)

/-- A fresh temporary. -/
def newTemp (name : String) (ty : Ty) : Steps TempId := fun b =>
  (.ok (b.newTemp name ty).1, (b.newTemp name ty).2)

/-- A fresh temporary, and behind it the instruction that gives it. -/
def define (name : String) (ty : Ty) (i : TempId → Instr) : Steps (Option Operand) := do
  let dst ← newTemp name ty
  change (·.emit (i dst))
  return some (.temp dst)

section Look

variable {α β : Type} {f : Builder → Except Error α} {k : α → Steps β} {b : Builder}

theorem apply_look_ok {v : α} (h : f b = .ok v) : (look f >>= k).apply b = (k v).apply b := by
  show (ExceptT.bindCont k (f b)).run b = _
  rw [h]
  rfl

/-- What a look does not find leaves the body as it is. -/
theorem apply_look_error {e : Error} (h : f b = .error e) :
    (look f >>= k).apply b = (.error e, b) := by
  show (ExceptT.bindCont k (f b)).run b = _
  rw [h]
  rfl

/-- Looks in turn are one look. -/
theorem foldlM_look {γ : Type} (g : α → γ → Except Error α) (xs : List γ) (v : α) :
    xs.foldlM (fun v x => look fun _ => g v x) v = look fun _ => xs.foldlM g v := by
  induction xs generalizing v with
  | nil => rfl
  | cons x rest ih =>
    funext b
    rw [List.foldlM_cons, List.foldlM_cons]
    cases h : g v x with
    | error e => exact apply_look_error rfl
    | ok w => exact (apply_look_ok rfl).trans (congrFun (ih w) b)

end Look

end Steps

namespace Operation

open Steps

/-- **The steps of an operation**, in their order; those that yield a value
end with the temporary that has it. -/
def steps : Operation → Steps (Option Operand)
  | newBlock name => do
    change fun b => (b.newBlock name).2
    return none
  | switchTo block => do
    change (·.switchTo block)
    return none
  | newTemp name ty => do
    let _ ← Steps.newTemp name ty
    return none
  | emit i => do
    change (·.emit i)
    return none
  | terminate t => do
    change (·.terminate t)
    return none
  | comment text => do
    change (·.comment text)
    return none
  | alloca name ty => define name (.ptr ty) (.alloca · ty)
  | entryAlloca name ty => do
    let dst ← Steps.newTemp name (.ptr ty)
    change (·.append 0 (.alloca dst ty))
    return some (.temp dst)
  | load p name addr => do
    let ty ← look (·.pointee p addr)
    define name ty (.load · addr)
  | store addr value => do
    change (·.emit (.store addr value))
    return none
  | binary name op lhs rhs => define name op.resultTy (.binary · op lhs rhs)
  | elementPtr p name base indices => do
    let ty ← look (·.pointee p base)
    let ty ← (indices.drop 1).foldlM (fun ty index => look fun _ => Builder.selectTy p ty index) ty
    define name (.ptr ty) (.elementPtr · base indices)
  | bitcast name value ty => define name ty (.bitcast · value)
  | alloc name size => define name (.ptr .byte) (.alloc · size)
  | call p name callee args => do
    let ty ← look (·.typeOf p callee)
    match ty with
    | .proc ret _ => define name ret (.call · callee args)
    | ty => look fun _ => .error (.notCallable (ty.text p))
  | print value => do
    change (·.emit (.print value))
    return none

/-- What an operation comes to step by step, and the body that it leaves. -/
def apply (op : Operation) (b : Builder) : Except Error (Option Operand) × Builder :=
  op.steps.apply b

/-- An operation as a whole. -/
def run : Operation → Builder → Except Error (Option Operand × Builder)
  | newBlock name, b => .ok (none, (b.newBlock name).2)
  | switchTo block, b => .ok (none, b.switchTo block)
  | newTemp name ty, b => .ok (none, (b.newTemp name ty).2)
  | emit i, b => .ok (none, b.emit i)
  | terminate t, b => .ok (none, b.terminate t)
  | comment text, b => .ok (none, b.comment text)
  | alloca name ty, b => .ok ((b.alloca name ty).map some id)
  | entryAlloca name ty, b => .ok ((b.entryAlloca name ty).map some id)
  | load p name addr, b => (b.load p name addr).map (·.map some id)
  | store addr value, b => .ok (none, b.store addr value)
  | binary name op lhs rhs, b => .ok ((b.binary name op lhs rhs).map some id)
  | elementPtr p name base indices, b => (b.elementPtr p name base indices).map (·.map some id)
  | bitcast name value ty, b => .ok ((b.bitcast name value ty).map some id)
  | alloc name size, b => .ok ((b.alloc name size).map some id)
  | call p name callee args, b => (b.call p name callee args).map (·.map some id)
  | print value, b => .ok (none, b.print value)

/-- What an operation comes to that fails without a trace. -/
def settle (b : Builder) :
    Except Error (Option Operand × Builder) → Except Error (Option Operand) × Builder
  | .ok (v, b') => (.ok v, b')
  | .error e => (.error e, b)

theorem settle_error {r : Except Error (Option Operand × Builder)} {b b' : Builder} {e : Error}
    (h : settle b r = (.error e, b')) : b' = b := by
  cases r <;> cases h
  rfl

theorem settle_ok_iff {r : Except Error (Option Operand × Builder)} {b b' : Builder}
    {v : Option Operand} : settle b r = (.ok v, b') ↔ r = .ok (v, b') := by
  constructor
  · intro h
    cases r <;> cases h
    rfl
  · rintro rfl
    rfl

/-- What yields a value does not yield none. -/
theorem map_some_ne {r : Except Error (Operand × Builder)} {b : Builder}
    (h : r.map (·.map some id) = .ok (none, b)) : False := by
  cases r <;> cases h

/-- **The steps fail before they change anything**: they come to what the
operation comes to as a whole. -/
theorem apply_eq (op : Operation) (b : Builder) : op.apply b = settle b (op.run b) := by
  cases op with
  | load p name addr =>
    rw [apply, run, steps, Builder.load]
    cases hty : b.pointee p addr with
    | error e => rw [apply_look_error hty]; rfl
    | ok ty => rw [apply_look_ok hty]; rfl
  | elementPtr p name base indices =>
    rw [apply, run, steps, Builder.elementPtr]
    simp only [foldlM_look]
    cases hty : b.pointee p base with
    | error e => rw [apply_look_error hty]; rfl
    | ok ty =>
      rw [apply_look_ok hty]
      change _ = settle b (Except.map _ ((indices.drop 1).foldlM (Builder.selectTy p) ty >>= _))
      cases (indices.drop 1).foldlM (Builder.selectTy p) ty <;> rfl
  | call p name callee args =>
    rw [apply, run, steps, Builder.call]
    cases hty : b.typeOf p callee with
    | error e => rw [apply_look_error hty]; rfl
    | ok ty =>
      rw [apply_look_ok hty]
      cases ty <;> rfl
  | _ => rfl

/-! ## What an operation yields -/

/-- **Indices lead from a type to that of a part**: through members of structs,
by constants that number one of them, and through elements of arrays. -/
inductive Selects (p : Program) : Ty → List Operand → Ty → Prop
  | here {ty} : Selects p ty [] ty
  | member {id s index field rest part} : p.structs[id]? = some s → 0 ≤ index →
      s.fields[index.toInt.toNat]? = some field → Selects p field.ty rest part →
      Selects p (.struct id) (.int index :: rest) part
  | element {elem length index rest part} : Selects p elem rest part →
      Selects p (.array elem length) (index :: rest) part

/-- **What an operation yields**: a temporary of this name and type, given by
this instruction. -/
inductive Gives (b : Builder) : Operation → Field → (TempId → Instr) → Prop
  | alloca {name ty} : Gives b (.alloca name ty) ⟨name, .ptr ty⟩ (.alloca · ty)
  | entryAlloca {name ty} : Gives b (.entryAlloca name ty) ⟨name, .ptr ty⟩ (.alloca · ty)
  | load {p name addr target} : b.typeOf p addr = .ok (.ptr target) →
      Gives b (.load p name addr) ⟨name, target⟩ (.load · addr)
  | binary {name op lhs rhs} :
      Gives b (.binary name op lhs rhs) ⟨name, op.resultTy⟩ (.binary · op lhs rhs)
  | elementPtr {p name base indices target part} : b.typeOf p base = .ok (.ptr target) →
      Selects p target (indices.drop 1) part →
      Gives b (.elementPtr p name base indices) ⟨name, .ptr part⟩ (.elementPtr · base indices)
  | bitcast {name value ty} : Gives b (.bitcast name value ty) ⟨name, ty⟩ (.bitcast · value)
  | alloc {name size} : Gives b (.alloc name size) ⟨name, .ptr .byte⟩ (.alloc · size)
  | call {p name callee args ret params} : b.typeOf p callee = .ok (.proc ret params) →
      Gives b (.call p name callee args) ⟨name, ret⟩ (.call · callee args)

/-- The block that an operation adds its instruction to, in the body that it
adds it to: the entry if it makes a slot there, and else the current block,
which is made first if there is none. -/
def place : Operation → Builder → BlockId × Builder
  | entryAlloca _ _, b => (0, b)
  | _, b => b.insertion

variable {b b' : Builder} {op : Operation} {p : Program} {ty part : Ty}

theorem pointee_iff {addr : Operand} :
    b.pointee p addr = .ok ty ↔ b.typeOf p addr = .ok (.ptr ty) := by
  unfold Builder.pointee
  cases b.typeOf p addr with
  | error e => constructor <;> intro h <;> cases h
  | ok found => cases found <;> constructor <;> intro h <;> cases h <;> rfl

/-- A member is selected by the constant that numbers it. -/
theorem selectTy_member_iff {id : StructId} {index : Int32} :
    Builder.selectTy p (.struct id) (.int index) = .ok part ↔
      ∃ s field, p.structs[id]? = some s ∧ 0 ≤ index ∧
        s.fields[index.toInt.toNat]? = some field ∧ field.ty = part := by
  unfold Builder.selectTy
  show (p.struct id >>= _) = _ ↔ _
  cases hs : p.structs[id]? with
  | none =>
    have hstruct : p.struct id = .error (.unknown .struct id) := by
      rw [Program.struct, Program.find, hs]
    rw [hstruct]
    constructor
    · intro h
      cases h
    · rintro ⟨s, field, hsome, -⟩
      cases hsome
  | some s =>
    have hstruct : p.struct id = .ok s := by rw [Program.struct, Program.find, hs]
    have hmember (field : Field) : (if index < 0 then none else s.fields[index.toInt.toNat]?) =
        some field ↔ 0 ≤ index ∧ s.fields[index.toInt.toNat]? = some field := by
      rw [← Int32.not_lt]
      split <;> simp_all
    rw [hstruct]
    simp only [bind, Except.bind]
    constructor
    · intro h
      split at h
      next field hfield => exact ⟨s, field, rfl, ((hmember field).1 hfield).1,
        ((hmember field).1 hfield).2, Except.ok.inj h⟩
      next => cases h
    · rintro ⟨s', field, hs', hle, hfield, rfl⟩
      cases hs'
      rw [(hmember field).2 ⟨hle, hfield⟩]
      rfl

/-- **The walk along indices** comes to the type of the part that they lead to. -/
theorem foldlM_selectTy_iff {indices : List Operand} :
    indices.foldlM (Builder.selectTy p) ty = .ok part ↔ Selects p ty indices part := by
  induction indices generalizing ty with
  | nil =>
    constructor
    · intro h; cases h; exact .here
    · intro h; cases h; rfl
  | cons index rest ih =>
    rw [List.foldlM_cons]
    constructor
    · intro h
      cases hselect : Builder.selectTy p ty index with
      | error e => rw [hselect] at h; cases h
      | ok inner =>
        rw [hselect] at h
        have hrest := ih.1 h
        cases ty with
        | struct id =>
          cases index with
          | int value =>
            obtain ⟨s, field, hs, hle, hfield, rfl⟩ := selectTy_member_iff.1 hselect
            exact .member hs hle hfield hrest
          | _ => cases hselect
        | array elem length => cases hselect; exact .element hrest
        | _ => cases hselect
    · intro h
      cases h with
      | member hs hle hfield hrest =>
        rw [selectTy_member_iff.2 ⟨_, _, hs, hle, hfield, rfl⟩]
        exact ih.2 hrest
      | element hrest => exact ih.2 hrest

/-- The body with what an operation yields. -/
def give (op : Operation) (b : Builder) (f : Field) (i : TempId → Instr) : Builder :=
  (op.place b).2.add [f] (op.place b).1 (i b.temps.length)

theorem map_define (b : Builder) (name : String) (ty : Ty) (i : TempId → Instr) :
    (b.define name ty i).map some id = (some (.temp b.temps.length),
      b.insertion.2.add [⟨name, ty⟩] b.insertion.1 (i b.temps.length)) :=
  Prod.ext rfl (b.define_eq name ty i)

variable {f : Field} {i : TempId → Instr}

/-- **What yields a value** adds the temporary and the instruction that gives
it. -/
theorem run_of_gives (h : Gives b op f i) :
    op.run b = .ok (some (.temp b.temps.length), op.give b f i) := by
  cases h with
  | alloca | binary | bitcast | alloc => exact congrArg Except.ok (map_define b _ _ _)
  | entryAlloca => rfl
  | load hty =>
    rw [run, Builder.load, pointee_iff.2 hty]
    exact congrArg Except.ok (map_define b _ _ _)
  | elementPtr hty hpart =>
    rw [run, Builder.elementPtr, pointee_iff.2 hty]
    show Except.map _ (List.foldlM _ _ _ >>= _) = _
    rw [foldlM_selectTy_iff.2 hpart]
    exact congrArg Except.ok (map_define b _ _ _)
  | call hty =>
    rw [run, Builder.call, hty]
    exact congrArg Except.ok (map_define b _ _ _)

/-- A value is yielded only where its type is told. -/
theorem gives_of_run {v : Operand} (h : op.run b = .ok (some v, b')) :
    ∃ f i, Gives b op f i := by
  cases op with
  | alloca name ty => exact ⟨_, _, .alloca⟩
  | entryAlloca name ty => exact ⟨_, _, .entryAlloca⟩
  | binary name op lhs rhs => exact ⟨_, _, .binary⟩
  | bitcast name value ty => exact ⟨_, _, .bitcast⟩
  | alloc name size => exact ⟨_, _, .alloc⟩
  | load p name addr =>
    rw [run, Builder.load] at h
    cases hty : b.pointee p addr with
    | error e => rw [hty] at h; cases h
    | ok ty => exact ⟨_, _, .load (pointee_iff.1 hty)⟩
  | elementPtr p name base indices =>
    rw [run, Builder.elementPtr] at h
    cases hty : b.pointee p base with
    | error e => rw [hty] at h; cases h
    | ok target =>
      rw [hty] at h
      change Except.map _ ((indices.drop 1).foldlM (Builder.selectTy p) target >>= _) = _ at h
      cases hpart : (indices.drop 1).foldlM (Builder.selectTy p) target with
      | error e => rw [hpart] at h; cases h
      | ok part => exact ⟨_, _, .elementPtr (pointee_iff.1 hty) (foldlM_selectTy_iff.1 hpart)⟩
  | call p name callee args =>
    rw [run, Builder.call] at h
    cases hty : b.typeOf p callee with
    | error e => rw [hty] at h; cases h
    | ok ty =>
      rw [hty] at h
      cases ty with
      | proc ret params => exact ⟨_, _, .call hty⟩
      | _ => cases h
  | _ => cases h

end Operation

/-! ## Runs -/

namespace Builder

/-- The body after an operation, whether it fails or not. -/
def step (b : Builder) (op : Operation) : Builder := (op.apply b).2

/-- The body after operations in turn. -/
def after (b : Builder) (ops : List Operation) : Builder := ops.foldl step b

end Builder

/-- The operation goes on in a block only that is there. -/
def Operation.Fits (b : Builder) : Operation → Prop
  | switchTo k => k < b.blocks.length
  | _ => True

/-- The operation neither ends the current block nor goes on in another one. -/
def Operation.GoesOn : Operation → Prop
  | switchTo _ | terminate _ => False
  | _ => True

namespace Builder

/-- Operations that go on in blocks only that are there by then. -/
def Runs (b : Builder) : List Operation → Prop
  | [] => True
  | op :: ops => op.Fits b ∧ (b.step op).Runs ops

variable {b b' : Builder} {op : Operation} {ops ops' : List Operation}

theorem after_append (b : Builder) (ops ops' : List Operation) :
    b.after (ops ++ ops') = (b.after ops).after ops' := List.foldl_append

theorem after_cons (b : Builder) (op : Operation) (ops : List Operation) :
    b.after (op :: ops) = (b.step op).after ops := rfl

theorem runs_append : b.Runs (ops ++ ops') ↔ b.Runs ops ∧ (b.after ops).Runs ops' := by
  induction ops generalizing b with
  | nil => exact (and_iff_right trivial).symm
  | cons op ops ih => rw [List.cons_append, Runs, Runs, ih, and_assoc]; rfl

/-- **What an operation can do to a body**: nothing, where it fails or has no
block to comment; or one of these changes. -/
inductive Change (b : Builder) : Operation → Builder → Prop
  | same {op : Operation} : op.GoesOn → Change b op b
  | newBlock {name} : Change b (.newBlock name) (b.newBlock name).2
  | switchTo {k} : Change b (.switchTo k) (b.switchTo k)
  | newTemp {name ty} : Change b (.newTemp name ty) (b.newTemp name ty).2
  | terminate {t} : Change b (.terminate t) (b.insertion.2.close b.insertion.1 t)
  | write {op : Operation} {fields ins} : op.GoesOn →
      Change b op (b.insertion.2.add fields b.insertion.1 ins)
  | slot {name ty} : Change b (.entryAlloca name ty)
      (b.add [⟨name, .ptr ty⟩] 0 (.alloca b.temps.length ty))

theorem change_emit (b : Builder) (i : Instr) (hop : op.GoesOn) : Change b op (b.emit i) := by
  rw [emit_eq]
  exact .write hop

/-- A comment in the current block. -/
theorem comment_eq {k : BlockId} (h : b.current = some k) (text : String) :
    b.comment text = b.emit (.comment text) := by
  rw [comment, emit, insertion, h]

theorem step_eq (b : Builder) (op : Operation) :
    b.step op = (Operation.settle b (op.run b)).2 := congrArg Prod.snd (op.apply_eq b)

/-- **An operation is one of the changes.** -/
theorem change_step (b : Builder) (op : Operation) : b.Change op (b.step op) := by
  rw [step_eq]
  cases h : op.run b with
  | error e =>
    refine .same ?_
    cases op with
    | switchTo | terminate => cases h
    | _ => trivial
  | ok r =>
    obtain ⟨v, b'⟩ := r
    -- Operations that give a value write one instruction; the others are named one by one.
    cases v with
    | some v =>
      obtain ⟨f, i, hgives⟩ := Operation.gives_of_run h
      obtain rfl : op.give b f i = b' :=
        congrArg Prod.snd (Except.ok.inj ((Operation.run_of_gives hgives).symm.trans h))
      cases hgives with
      | entryAlloca => exact .slot
      | _ => exact .write trivial
    | none =>
      cases op with
      | newBlock => cases h; exact .newBlock
      | switchTo => cases h; exact .switchTo
      | newTemp => cases h; exact .newTemp
      | terminate => cases h; exact .terminate
      | emit i => cases h; exact change_emit b _ trivial
      | store addr value => cases h; exact change_emit b _ trivial
      | print value => cases h; exact change_emit b _ trivial
      | comment text =>
        cases h
        show Change b _ (b.comment text)
        cases hcurrent : b.current with
        | none =>
          rw [comment, hcurrent]
          exact .same trivial
        | some k =>
          rw [comment_eq hcurrent]
          exact change_emit b _ trivial
      | alloca | entryAlloca | binary | bitcast | alloc => cases h
      | load | elementPtr | call => exact (Operation.map_some_ne h).elim

/-! ## The blocks of a run -/

/-- A fresh block stands behind those that are there. -/
theorem getElem?_newBlock {k : BlockId} {o : OpenBlock} (name : String)
    (h : (b.newBlock name).2.blocks[k]? = some o) :
    b.blocks[k]? = some o ∨ (b.blocks[k]? = none ∧ o.terminator = none) := by
  rcases getElem?_append_singleton h with h | ⟨rfl, rfl⟩
  · exact .inl h
  · exact .inr ⟨List.getElem?_eq_none (Nat.le_refl _), rfl⟩

/-- The current block is made behind those that are there. -/
theorem getElem?_insertion {k : BlockId} {o : OpenBlock}
    (h : b.insertion.2.blocks[k]? = some o) :
    b.blocks[k]? = some o ∨ (b.blocks[k]? = none ∧ o.terminator = none) := by
  rcases b.insertion_cases with ⟨-, heq⟩ | ⟨-, -, heq⟩
  · rw [heq] at h
    exact .inl h
  · rw [heq] at h
    exact getElem?_newBlock "dead" h

theorem getElem?_insertion_of_some {k : BlockId} {o : OpenBlock} (h : b.blocks[k]? = some o) :
    b.insertion.2.blocks[k]? = some o := by
  rcases b.insertion_cases with ⟨-, heq⟩ | ⟨-, -, heq⟩
  · rw [heq, h]
  · rw [heq]
    exact getElem?_of_initial (List.prefix_append _ _) h

/-- A block that is not current is not the one that is written to. -/
theorem insertion_ne {k : BlockId} {o : OpenBlock} (ho : b.blocks[k]? = some o)
    (hk : b.current ≠ some k) : b.insertion.1 ≠ k := by
  rcases b.insertion_cases with ⟨hcurrent, -⟩ | ⟨-, hfresh, -⟩
  · exact fun heq => hk (heq ▸ hcurrent)
  · rw [hfresh]
    exact Ne.symm (Nat.ne_of_lt (List.getElem?_eq_some_iff.1 ho).1)

/-- Writing to a block leaves the others as they are. -/
theorem getElem?_modify_ne {k k' : BlockId} (blocks : List OpenBlock) (f : OpenBlock → OpenBlock)
    (hne : k ≠ k') : (blocks.modify k f)[k']? = blocks[k']? := by
  simp [hne]

end Builder

/-- The operation makes the instruction, as a slot, in the block. -/
def Operation.Slot (op : Operation) (k : BlockId) (i : Instr) : Prop :=
  k = 0 ∧ ∃ name dst ty, op = .entryAlloca name ty ∧ i = .alloca dst ty

namespace Builder

variable {b b' : Builder} {op : Operation} {ops : List Operation} {k : BlockId}

/-- **A block rests** while code goes on elsewhere: it gets slots at most. -/
theorem Change.rests (h : b.Change op b') {o : OpenBlock} (ho : b.blocks[k]? = some o)
    (hk : b.current ≠ some k) :
    ∃ slots, b'.blocks[k]? = some { o with instrs := o.instrs ++ slots } ∧
      ∀ i ∈ slots, op.Slot k i := by
  have hsame (h : b'.blocks[k]? = some o) :
      ∃ slots, b'.blocks[k]? = some { o with instrs := o.instrs ++ slots } ∧
        ∀ i ∈ slots, op.Slot k i := ⟨[], by simpa using h, by simp⟩
  have hne := insertion_ne ho hk
  cases h with
  | same | switchTo | newTemp => exact hsame ho
  | newBlock => exact hsame (getElem?_of_initial (List.prefix_append _ _) ho)
  | terminate =>
    refine hsame ?_
    rw [close, getElem?_modify_ne _ _ hne, getElem?_insertion_of_some ho]
  | write =>
    refine hsame ?_
    rw [add, append, getElem?_modify_ne _ _ hne, getElem?_insertion_of_some ho]
  | @slot name ty =>
    by_cases h0 : k = 0
    · subst h0
      refine ⟨[.alloca b.temps.length ty], by rw [getElem?_add ho, if_pos rfl], fun i hi => ?_⟩
      exact ⟨rfl, name, _, ty, rfl, List.mem_singleton.1 hi⟩
    · refine hsame ?_
      rw [add, append, getElem?_modify_ne _ _ (Ne.symm h0), ho]

/-- What is not current stays so, unless it is gone back to. -/
theorem Change.current_ne (h : b.Change op b') {o : OpenBlock} (ho : b.blocks[k]? = some o)
    (hk : b.current ≠ some k) (hop : op ≠ .switchTo k) : b'.current ≠ some k := by
  cases h with
  | same | newBlock | newTemp | slot => exact hk
  | switchTo => exact fun heq => hop (by rw [Option.some.inj heq])
  | terminate => exact fun heq => by cases heq
  | write =>
    have hne := insertion_ne ho hk
    rcases b.insertion_cases with ⟨-, heq⟩ | ⟨-, hfresh, heq⟩
    · rw [heq]; exact hk
    · rw [heq]
      exact fun h => hne (hfresh.trans (Option.some.inj h))

/-- The end of a block is the one that it had, unless the block is closed. -/
theorem Change.ended (h : b.Change op b') {o' : OpenBlock} (ho' : b'.blocks[k]? = some o')
    (hop : ∀ t, op = .terminate t → b.insertion.1 ≠ k) :
    (∃ o, b.blocks[k]? = some o ∧ o'.terminator = o.terminator) ∨
      (b.blocks[k]? = none ∧ o'.terminator = none) := by
  have hfrom {o : OpenBlock} (h : b.blocks[k]? = some o ∨ (b.blocks[k]? = none ∧ o.terminator = none))
      (heq : o'.terminator = o.terminator) : (∃ o, b.blocks[k]? = some o ∧
        o'.terminator = o.terminator) ∨ (b.blocks[k]? = none ∧ o'.terminator = none) :=
    h.imp (fun h => ⟨o, h, heq⟩) fun h => ⟨h.1, heq.trans h.2⟩
  cases h with
  | same | switchTo | newTemp => exact .inl ⟨o', ho', rfl⟩
  | newBlock => exact hfrom (getElem?_newBlock _ ho') rfl
  | terminate =>
    rw [close, getElem?_modify_ne _ _ (hop _ rfl)] at ho'
    exact hfrom (getElem?_insertion ho') rfl
  | write =>
    rw [add, append, List.getElem?_modify] at ho'
    split at ho'
    next =>
      obtain ⟨o, ho, rfl⟩ := Option.map_eq_some_iff.1 ho'
      exact hfrom (getElem?_insertion ho) rfl
    next => exact hfrom (getElem?_insertion (by simpa using ho')) rfl
  | slot =>
    rw [add, append, List.getElem?_modify] at ho'
    split at ho'
    next =>
      obtain ⟨o, ho, rfl⟩ := Option.map_eq_some_iff.1 ho'
      exact .inl ⟨o, ho, rfl⟩
    next => exact .inl ⟨o', by simpa using ho', rfl⟩

/-- The labels of the blocks, in their order. -/
def labels (b : Builder) : List String := b.blocks.map (·.name)

theorem map_name_modify (blocks : List OpenBlock) (k : BlockId) {f : OpenBlock → OpenBlock}
    (hf : ∀ o, (f o).name = o.name) :
    (blocks.modify k f).map (·.name) = blocks.map (·.name) := by
  refine List.ext_getElem? fun k' => ?_
  rw [List.getElem?_map, List.getElem?_map, List.getElem?_modify]
  cases blocks[k']? with
  | none => rfl
  | some o => by_cases h : k = k' <;> simp [h, hf]

theorem labels_add (b : Builder) (fields : List Field) (k : BlockId) (ins : Instr) :
    (b.add fields k ins).labels = b.labels := map_name_modify _ _ fun _ => rfl

theorem labels_close (b : Builder) (k : BlockId) (t : Terminator) :
    (b.close k t).labels = b.labels := map_name_modify _ _ fun _ => rfl

theorem labels_newBlock (b : Builder) (name : String) (h : 0 < b.blocks.length) :
    (b.newBlock name).2.labels = b.labels ++ [name ++ "." ++ toString b.blocks.length] := by
  rw [newBlock, labels, List.map_append, if_neg (Nat.ne_of_gt h)]
  rfl

theorem labels_insertion (b : Builder) (h : 0 < b.blocks.length) :
    b.insertion.2.labels = b.labels ∨
      b.insertion.2.labels = b.labels ++ ["dead" ++ "." ++ toString b.blocks.length] := by
  rcases b.insertion_cases with ⟨-, heq⟩ | ⟨-, -, heq⟩
  · rw [heq]; exact .inl rfl
  · rw [heq]; exact .inr (b.labels_newBlock "dead" h)

/-- **Blocks are made one behind the other**, and each has its number in its
label. -/
theorem Change.labels (h : b.Change op b') (hentry : 0 < b.blocks.length) :
    b'.labels = b.labels ∨
      ∃ name, b'.labels = b.labels ++ [name ++ "." ++ toString b.blocks.length] := by
  have hinsertion : b.insertion.2.labels = b.labels ∨ ∃ name,
      b.insertion.2.labels = b.labels ++ [name ++ "." ++ toString b.blocks.length] :=
    (b.labels_insertion hentry).imp_right fun h => ⟨"dead", h⟩
  cases h with
  | same | switchTo | newTemp => exact .inl rfl
  | @newBlock name => exact .inr ⟨name, b.labels_newBlock name hentry⟩
  | terminate => rwa [labels_close]
  | write => rwa [labels_add]
  | slot => exact .inl (labels_add _ _ _ _)

theorem length_labels (b : Builder) : b.labels.length = b.blocks.length := List.length_map _

theorem Change.length_le (h : b.Change op b') (hentry : 0 < b.blocks.length) :
    b.blocks.length ≤ b'.blocks.length := by
  rw [← length_labels, ← length_labels]
  rcases h.labels hentry with heq | ⟨name, heq⟩
  · exact Nat.le_of_eq (congrArg List.length heq.symm)
  · rw [heq, List.length_append]
    exact Nat.le_add_right _ _

/-- **Blocks that are used stay there.** -/
theorem Change.inRange (h : b.Change op b') (hfits : op.Fits b) (hb : b.InRange) : b'.InRange := by
  have hle := h.length_le hb.entry
  refine ⟨fun k hk => ?_, Nat.lt_of_lt_of_le hb.entry hle⟩
  have hold (h : b.current = some k) : k < b'.blocks.length :=
    Nat.lt_of_lt_of_le (hb.current k h) hle
  cases h with
  | same | newBlock | newTemp | slot => exact hold hk
  | switchTo => exact Option.some.inj hk ▸ hfits
  | terminate => cases hk
  | write =>
    rcases b.insertion_cases with ⟨-, heq⟩ | ⟨-, -, heq⟩
    · rw [heq] at hk; exact hold hk
    · rw [heq] at hk ⊢
      obtain rfl := Option.some.inj hk
      rw [add, append, List.length_modify]
      exact Nat.lt_of_lt_of_eq (Nat.lt_succ_self _) (b.length_newBlock "dead").symm

/-- **Blocks that are used are there** in every run. -/
theorem InRange.after (hb : b.InRange) (hops : b.Runs ops) : (b.after ops).InRange := by
  induction ops generalizing b with
  | nil => exact hb
  | cons op ops ih => exact ih ((b.change_step op).inRange hops.1 hb) hops.2

end Builder

end ClassLang.Ir
