import ClassLang.Ir.Text
/-!
# Intermediate form — building a body

A `Builder` holds the body of a procedure while it grows. New instructions
go into the current block. A terminator closes the block; what is emitted
after it goes into a fresh block that nothing leads to, so code behind a
return needs no care. An operation that fails leaves no trace, and one
that yields a value adds one temporary and the instruction that gives it.
-/


namespace ClassLang.Ir

/-- A block that may lack its end. -/
structure OpenBlock where
  name : String
  instrs : List Instr
  terminator : Option Terminator
deriving DecidableEq, Repr

/-- The body of a procedure while it grows. -/
structure Builder where
  params : List Field
  ret : Ty
  temps : List Field
  blocks : List OpenBlock
  current : Option BlockId
deriving DecidableEq, Repr

namespace Builder

/-- A body whose entry block is open. -/
def start (params : List Field) (ret : Ty) : Builder :=
  ⟨params, ret, [], [⟨"entry", [], none⟩], some 0⟩

/-- Adds a block that nothing leads to. Its number makes its label differ
from all others. -/
def newBlock (b : Builder) (name : String) : BlockId × Builder :=
  let id := b.blocks.length
  let label := if id = 0 then name else name ++ "." ++ toString id
  (id, { b with blocks := b.blocks ++ [⟨label, [], none⟩] })

/-- Goes on in a block. -/
def switchTo (b : Builder) (block : BlockId) : Builder := { b with current := some block }

/-- Is there a block to go on in? -/
def isOpen (b : Builder) : Bool := b.current.isSome

/-- Adds a temporary. -/
def newTemp (b : Builder) (name : String) (ty : Ty) : TempId × Builder :=
  (b.temps.length, { b with temps := b.temps ++ [⟨name, ty⟩] })

/-- The type of an operand. -/
def typeOf (b : Builder) (p : Program) (operand : Operand) : Except Error Ty :=
  p.operandTy b.params b.temps operand

/-- The current block; a fresh one if there is none. -/
def insertion (b : Builder) : BlockId × Builder :=
  match b.current with
  | some block => (block, b)
  | none =>
    let (block, b) := b.newBlock "dead"
    (block, b.switchTo block)

/-- Adds an instruction to a block. -/
def append (b : Builder) (block : BlockId) (i : Instr) : Builder :=
  { b with blocks := b.blocks.modify block fun o => { o with instrs := o.instrs ++ [i] } }

/-- Adds an instruction to the current block. -/
def emit (b : Builder) (i : Instr) : Builder :=
  let (block, b) := b.insertion
  b.append block i

/-- Closes the current block. -/
def terminate (b : Builder) (t : Terminator) : Builder :=
  let (block, b) := b.insertion
  { b with
    blocks := b.blocks.modify block fun o => { o with terminator := some t }
    current := none }

/-- Adds a comment, unless no block is open. -/
def comment (b : Builder) (text : String) : Builder :=
  match b.current with
  | some block => b.append block (.comment text)
  | none => b

/-- Adds a temporary and the instruction that gives it. -/
def define (b : Builder) (name : String) (ty : Ty) (i : TempId → Instr) : Operand × Builder :=
  let (dst, b) := b.newTemp name ty
  (.temp dst, b.emit (i dst))

/-- A slot for a value of a type. -/
def alloca (b : Builder) (name : String) (ty : Ty) : Operand × Builder :=
  b.define name (.ptr ty) (.alloca · ty)

/-- A slot that is made in the entry block, whatever block is current. -/
def entryAlloca (b : Builder) (name : String) (ty : Ty) : Operand × Builder :=
  let (dst, b) := b.newTemp name (.ptr ty)
  (.temp dst, b.append 0 (.alloca dst ty))

/-- The type that an operand points to. -/
def pointee (b : Builder) (p : Program) (addr : Operand) : Except Error Ty := do
  let ty ← b.typeOf p addr
  match ty.pointee? with
  | some target => return target
  | none => throw (.notAPointer (ty.text p))

/-- The value at an address. -/
def load (b : Builder) (p : Program) (name : String) (addr : Operand) :
    Except Error (Operand × Builder) := do
  let ty ← b.pointee p addr
  return b.define name ty (.load · addr)

/-- Writes a value to an address. -/
def store (b : Builder) (addr value : Operand) : Builder := b.emit (.store addr value)

/-- The result of an operation. -/
def binary (b : Builder) (name : String) (op : BinOp) (lhs rhs : Operand) : Operand × Builder :=
  b.define name op.resultTy (.binary · op lhs rhs)

/-- The type of the part of a struct or an array that an index selects. -/
def selectTy (p : Program) : Ty → Operand → Except Error Ty
  | .struct id, .int index => do
    let s ← p.struct id
    let member := if index < 0 then none else s.fields[index.toInt.toNat]?
    match member with
    | some field => return field.ty
    | none => throw (.noSuchMember index ((Ty.struct id).text p))
  | .struct _, index => throw (.nonConstantMember index)
  | .array elem _, _ => return elem
  | ty, index => throw (.notIndexable index (ty.text p))

/-- The address of the part that indices select; the first index only
steps over the base. -/
def elementPtr (b : Builder) (p : Program) (name : String) (base : Operand)
    (indices : List Operand) : Except Error (Operand × Builder) := do
  let ty ← (indices.drop 1).foldlM (selectTy p) (← b.pointee p base)
  return b.define name (.ptr ty) (.elementPtr · base indices)

/-- A value, read as having another type. -/
def bitcast (b : Builder) (name : String) (value : Operand) (ty : Ty) : Operand × Builder :=
  b.define name ty (.bitcast · value)

/-- Memory of so many bytes. -/
def alloc (b : Builder) (name : String) (size : Operand) : Operand × Builder :=
  b.define name (.ptr .byte) (.alloc · size)

/-- The result of a call. -/
def call (b : Builder) (p : Program) (name : String) (callee : Operand) (args : List Operand) :
    Except Error (Operand × Builder) := do
  match ← b.typeOf p callee with
  | .proc ret _ => return b.define name ret (.call · callee args)
  | ty => throw (.notCallable (ty.text p))

/-- Prints an integer. -/
def print (b : Builder) (value : Operand) : Builder := b.emit (.print value)

/-- A block with its end; one without halts with the message. -/
def OpenBlock.close (missing : String) (o : OpenBlock) : Block :=
  ⟨o.name, o.instrs, o.terminator.getD (.halt missing)⟩

/-- The temporaries and blocks of the body. A block that is still current
ends with the message, and so do blocks that never got an end. -/
def finish (b : Builder) (missing : String) : List Field × List Block :=
  let b := if b.isOpen then b.terminate (.halt missing) else b
  (b.temps, b.blocks.map (OpenBlock.close missing))

end Builder

end ClassLang.Ir
