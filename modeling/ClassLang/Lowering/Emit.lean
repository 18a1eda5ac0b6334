import ClassLang.Ir.Builder
/-!
# Lowering — emitting code

An `Emit` adds to the body of a procedure and yields a value, or fails.
The checks that generated code makes at run time branch to a block of
their own that halts.
-/


namespace ClassLang.Lowering

open Ir (Operand BinOp BlockId Terminator Builder)

/-- Adds to a body and yields a value. -/
abbrev Emit := StateT Builder (Except Ir.Error)

namespace Emit

/-- A block that nothing leads to. -/
def newBlock (name : String) : Emit BlockId := fun b => .ok (b.newBlock name)

/-- Goes on in a block. -/
def switchTo (block : BlockId) : Emit Unit := modify (·.switchTo block)

/-- Closes the current block. -/
def terminate (t : Terminator) : Emit Unit := modify (·.terminate t)

/-- Jumps to a block unless the current block is closed. -/
def jumpIfOpen (target : BlockId) : Emit Unit := do
  if (← get).isOpen then
    terminate (.jump target)

/-- Adds a comment, unless no block is open. -/
def comment (text : String) : Emit Unit := modify (·.comment text)

/-- A slot for a value of a type. -/
def alloca (name : String) (ty : Ir.Ty) : Emit Operand := fun b => .ok (b.alloca name ty)

/-- A slot that is made in the entry block. -/
def entryAlloca (name : String) (ty : Ir.Ty) : Emit Operand :=
  fun b => .ok (b.entryAlloca name ty)

/-- Writes a value to an address. -/
def store (addr value : Operand) : Emit Unit := modify (·.store addr value)

/-- Prints an integer. -/
def print (value : Operand) : Emit Unit := modify (·.print value)

/-- The result of an operation. -/
def binary (name : String) (op : BinOp) (lhs rhs : Operand) : Emit Operand :=
  fun b => .ok (b.binary name op lhs rhs)

/-- A value, read as having another type. -/
def bitcast (name : String) (value : Operand) (ty : Ir.Ty) : Emit Operand :=
  fun b => .ok (b.bitcast name value ty)

/-- Memory of so many bytes. -/
def alloc (name : String) (size : Operand) : Emit Operand := fun b => .ok (b.alloc name size)

/-- Branches to a fresh block that halts with the message if the condition
holds, and goes on in another fresh block if it does not. -/
def haltIf (cond : Operand) (fail ok message : String) : Emit Unit := do
  let failBlock ← newBlock fail
  let okBlock ← newBlock ok
  terminate (.branch cond failBlock okBlock)
  switchTo failBlock
  terminate (.halt message)
  switchTo okBlock

/-- Halts with the message if the value is null. -/
def haltIfNull (value : Operand) (message : String) : Emit Unit := do
  let isNull ← binary "is_null" .eq value .null
  haltIf isNull "when_null" "not_null" message

variable (p : Ir.Program)

/-- The type of an operand. -/
def typeOf (operand : Operand) : Emit Ir.Ty := fun b => do
  return (← b.typeOf p operand, b)

/-- The type that an operand points to. -/
def pointee (addr : Operand) : Emit Ir.Ty := fun b => do
  return (← b.pointee p addr, b)

/-- The value at an address. -/
def load (name : String) (addr : Operand) : Emit Operand := fun b => b.load p name addr

/-- The address of the part that indices select. -/
def elementPtr (name : String) (base : Operand) (indices : List Operand) : Emit Operand :=
  fun b => b.elementPtr p name base indices

/-- The address of the member of a struct that the base points to. -/
def member (name : String) (base : Operand) (index : Nat) : Emit Operand :=
  elementPtr p name base [.int 0, .int (.ofNat index)]

/-- The result of a call. -/
def call (name : String) (callee : Operand) (args : List Operand) : Emit Operand :=
  fun b => b.call p name callee args

/-- A value, read as having the type unless it has it already. -/
def cast (value : Operand) (ty : Ir.Ty) : Emit Operand := do
  if (← typeOf p value) = ty then
    return value
  else
    bitcast "cast" value ty

end Emit

end ClassLang.Lowering
