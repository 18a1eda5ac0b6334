import ClassLang.Ir.Layout
import ClassLang.Ir.Builder
import Mathlib.Data.List.Basic
/-!
# Intermediate form — code without its comments

`uncommented` leaves the comments out and everything else in its place: the
names of procedures and blocks, their order, the temporaries and the ends. A
program answers the same without its comments (`Program.operandTy_uncommented`,
`Program.sizeOf_uncommented`). Each step of building a body does to what has no
comments what it does to the body (`Builder.uncommented_emit` and the lemmas
behind it), and writing a comment does nothing
(`Builder.uncommented_comment`).
-/


namespace ClassLang.Ir

/-- Is the instruction a comment? -/
def Instr.isComment : Instr → Bool
  | comment _ => true
  | _ => false

/-- Instructions without the comments among them. -/
def withoutComments (instrs : List Instr) : List Instr := instrs.filter (!·.isComment)

/-- A block without its comments. -/
def Block.uncommented (b : Block) : Block := { b with instrs := withoutComments b.instrs }

/-- A procedure without its comments. -/
def Proc.uncommented (p : Proc) : Proc := { p with blocks := p.blocks.map (·.uncommented) }

/-- A program without its comments. -/
def Program.uncommented (p : Program) : Program := { p with procs := p.procs.map (·.uncommented) }

/-- A block that may lack its end, without its comments. -/
def OpenBlock.uncommented (o : OpenBlock) : OpenBlock :=
  { o with instrs := withoutComments o.instrs }

/-- A body without its comments. -/
def Builder.uncommented (b : Builder) : Builder := { b with blocks := b.blocks.map (·.uncommented) }

/-- Changing an element and changing all of them go together. -/
theorem map_modify {α : Type} {f g h : α → α} (hf : ∀ x, f (g x) = h (f x)) (xs : List α) (i : Nat) :
    (xs.modify i g).map f = (xs.map f).modify i h := by
  refine List.ext_getElem? fun j => ?_
  rw [List.getElem?_map, List.getElem?_modify, List.getElem?_modify, List.getElem?_map]
  cases xs[j]? with
  | none => rfl
  | some x =>
    by_cases hij : i = j
    · simp [hij, hf]
    · simp [hij]

/-! ## Programs -/

namespace Program

variable (p : Program)

theorem uncommented_declareProc (name : String) (ret : Ty) (params : List Field) :
    p.uncommented.declareProc name ret params =
      ((p.declareProc name ret params).1, (p.declareProc name ret params).2.uncommented) := by
  simp [declareProc, uncommented, Proc.uncommented]

theorem proc_uncommented (id : ProcId) :
    p.uncommented.proc id = (p.proc id).map Proc.uncommented := by
  rw [proc, proc, uncommented, find, find, List.getElem?_map]
  cases p.procs[id]? <;> rfl

theorem uncommented_setFields (id : StructId) (fields : List Field) :
    p.uncommented.setFields id fields = (p.setFields id fields).map uncommented := by
  rw [setFields, setFields]
  change (p.struct id >>= _) = _
  cases p.struct id <;> rfl

theorem uncommented_setInit (id : GlobalId) (init : Const) :
    p.uncommented.setInit id init = (p.setInit id init).map uncommented := by
  rw [setInit, setInit]
  change (p.global id >>= _) = _
  cases p.global id <;> rfl

theorem uncommented_setBody (id : ProcId) (temps : List Field) (blocks : List Block) :
    p.uncommented.setBody id temps (blocks.map (·.uncommented)) =
      (p.setBody id temps blocks).map uncommented := by
  rw [setBody, setBody, proc_uncommented]
  cases p.proc id with
  | error e => rfl
  | ok f =>
    change Except.ok _ = Except.ok _
    simp [uncommented, Proc.uncommented, List.map_set]

/-- Operands have the same types without comments. -/
theorem operandTy_uncommented (params temps : List Field) (o : Operand) :
    p.uncommented.operandTy params temps o = p.operandTy params temps o := by
  cases o with
  | proc id =>
    rw [operandTy, operandTy, proc_uncommented]
    cases p.proc id <;> rfl
  | _ => rfl

/-- Types are as large without comments. -/
theorem extent_uncommented : p.uncommented.extent = p.extent := by
  have hwithin (depth : Nat) :
      p.uncommented.structExtentWithin depth = p.structExtentWithin depth := by
    induction depth with
    | zero => rfl
    | succ depth ih =>
      funext id
      rw [structExtentWithin, structExtentWithin, ih]
      rfl
  funext ty
  exact congrArg (ty.extent ·) (hwithin p.structs.length)

theorem sizeOf_uncommented (ty : Ty) : p.uncommented.sizeOf ty = p.sizeOf ty := by
  rw [sizeOf, sizeOf, extent_uncommented]

theorem fieldOffset_uncommented (id : StructId) (index : Nat) :
    p.uncommented.fieldOffset id index = p.fieldOffset id index := by
  rw [fieldOffset, fieldOffset, extent_uncommented]
  rfl

end Program

mutual

theorem Ty.text_uncommented (p : Program) : ∀ t : Ty, t.text p.uncommented = t.text p
  | .int | .bool | .byte | .null | .struct _ => rfl
  | .ptr target => by rw [Ty.text, Ty.text, Ty.text_uncommented p target]
  | .array elem _ => by rw [Ty.text, Ty.text, Ty.text_uncommented p elem]
  | .proc ret params => by
    rw [Ty.text, Ty.text, Ty.text_uncommented p ret, tyTexts_uncommented p params]

theorem tyTexts_uncommented (p : Program) : ∀ ts : List Ty, tyTexts p.uncommented ts = tyTexts p ts
  | [] => rfl
  | t :: rest => by rw [tyTexts, tyTexts, Ty.text_uncommented p t, tyTexts_uncommented p rest]

end

/-! ## Bodies -/

namespace Builder

variable (b : Builder) (p : Program)

theorem uncommented_newBlock (name : String) :
    b.uncommented.newBlock name = ((b.newBlock name).1, (b.newBlock name).2.uncommented) := by
  simp [newBlock, uncommented, OpenBlock.uncommented, withoutComments]

theorem uncommented_switchTo (block : BlockId) :
    b.uncommented.switchTo block = (b.switchTo block).uncommented := rfl

theorem uncommented_insertion :
    b.uncommented.insertion = (b.insertion.1, b.insertion.2.uncommented) := by
  have hcurrent : b.uncommented.current = b.current := rfl
  unfold insertion
  rw [hcurrent]
  cases b.current with
  | some block => rfl
  | none =>
    dsimp only
    rw [uncommented_newBlock]
    rfl

theorem uncommented_append (block : BlockId) {i : Instr} (hi : i.isComment = false) :
    b.uncommented.append block i = (b.append block i).uncommented := by
  have hone (o : OpenBlock) : OpenBlock.uncommented { o with instrs := o.instrs ++ [i] } =
      ⟨o.uncommented.name, o.uncommented.instrs ++ [i], o.uncommented.terminator⟩ := by
    simp [OpenBlock.uncommented, withoutComments, hi]
  exact congrArg (Builder.mk b.params b.ret b.temps · b.current) (map_modify hone b.blocks block).symm

/-- **A comment is all that is added when one is written.** -/
theorem uncommented_comment (text : String) : (b.comment text).uncommented = b.uncommented := by
  have hone (o : OpenBlock) :
      OpenBlock.uncommented { o with instrs := o.instrs ++ [.comment text] } = id o.uncommented := by
    simp [OpenBlock.uncommented, withoutComments, Instr.isComment]
  unfold comment
  split
  next block _ =>
    have hblocks := map_modify hone b.blocks block
    rw [List.modify_id] at hblocks
    exact congrArg (Builder.mk b.params b.ret b.temps · b.current) hblocks
  · rfl

/-- **What is no comment goes into the same block**, with comments before it or
not. -/
theorem uncommented_emit {i : Instr} (hi : i.isComment = false) :
    b.uncommented.emit i = (b.emit i).uncommented := by
  rw [emit, emit, uncommented_insertion]
  exact uncommented_append _ _ hi

theorem uncommented_terminate (t : Terminator) :
    b.uncommented.terminate t = (b.terminate t).uncommented := by
  have hone (o : OpenBlock) : OpenBlock.uncommented { o with terminator := some t } =
      ⟨o.uncommented.name, o.uncommented.instrs, some t⟩ := rfl
  rw [terminate, terminate, uncommented_insertion]
  exact congrArg (Builder.mk _ _ _ · none) (map_modify hone _ _).symm

theorem uncommented_define (name : String) (ty : Ty) {i : TempId → Instr}
    (hi : ∀ dst, (i dst).isComment = false) : b.uncommented.define name ty i =
      ((b.define name ty i).1, (b.define name ty i).2.uncommented) :=
  Prod.ext rfl (uncommented_emit (b.newTemp name ty).2 (hi _))

theorem uncommented_entryAlloca (name : String) (ty : Ty) : b.uncommented.entryAlloca name ty =
    ((b.entryAlloca name ty).1, (b.entryAlloca name ty).2.uncommented) :=
  Prod.ext rfl (uncommented_append (b.newTemp name (.ptr ty)).2 0
    (i := .alloca b.temps.length ty) rfl)

theorem uncommented_typeOf (o : Operand) : b.uncommented.typeOf p.uncommented o = b.typeOf p o :=
  p.operandTy_uncommented b.params b.temps o

theorem uncommented_pointee (addr : Operand) :
    b.uncommented.pointee p.uncommented addr = b.pointee p addr := by
  unfold pointee
  rw [uncommented_typeOf]
  simp only [Ty.text_uncommented]

theorem uncommented_selectTy : selectTy p.uncommented = selectTy p := by
  funext ty index
  unfold selectTy
  simp only [Ty.text_uncommented]
  rfl

theorem uncommented_load (name : String) (addr : Operand) :
    b.uncommented.load p.uncommented name addr =
      (b.load p name addr).map fun r => (r.1, r.2.uncommented) := by
  rw [load, load, uncommented_pointee]
  cases b.pointee p addr with
  | error e => rfl
  | ok ty => exact congrArg Except.ok (b.uncommented_define name ty fun _ => rfl)

theorem uncommented_elementPtr (name : String) (base : Operand) (indices : List Operand) :
    b.uncommented.elementPtr p.uncommented name base indices =
      (b.elementPtr p name base indices).map fun r => (r.1, r.2.uncommented) := by
  rw [elementPtr, elementPtr, uncommented_pointee, uncommented_selectTy]
  cases b.pointee p base with
  | error e => rfl
  | ok target =>
    change (List.foldlM (selectTy p) target (indices.drop 1) >>= _) =
      Except.map _ (List.foldlM (selectTy p) target (indices.drop 1) >>= _)
    cases List.foldlM (selectTy p) target (indices.drop 1) with
    | error e => rfl
    | ok ty => exact congrArg Except.ok (b.uncommented_define name (.ptr ty) fun _ => rfl)

theorem uncommented_call (name : String) (callee : Operand) (args : List Operand) :
    b.uncommented.call p.uncommented name callee args =
      (b.call p name callee args).map fun r => (r.1, r.2.uncommented) := by
  unfold call
  rw [uncommented_typeOf]
  simp only [Ty.text_uncommented]
  cases b.typeOf p callee with
  | error e => rfl
  | ok ty =>
    cases ty with
    | proc ret params => exact congrArg Except.ok (b.uncommented_define name ret fun _ => rfl)
    | _ => rfl

/-- A body comes to the same end. -/
theorem uncommented_finish (missing : String) : b.uncommented.finish missing =
    ((b.finish missing).1, (b.finish missing).2.map (·.uncommented)) := by
  have hblock (o : OpenBlock) :
      OpenBlock.close missing o.uncommented = (OpenBlock.close missing o).uncommented := rfl
  have hlast : (if b.uncommented.isOpen then b.uncommented.terminate (.halt missing)
      else b.uncommented) = (if b.isOpen then b.terminate (.halt missing) else b).uncommented := by
    rw [uncommented_terminate, apply_ite uncommented]
    rfl
  rw [finish, hlast]
  refine Prod.ext rfl ?_
  simp [finish, uncommented, hblock]

end Builder

end ClassLang.Ir
