/-!
# Intermediate form — types, operands and instructions

A program of the intermediate form has named structs, globals and
procedures. A procedure is a list of blocks, and every block ends in one
terminator. Values live in typed temporaries of their procedure.
-/


namespace ClassLang.Ir

/-- A struct, by its index in the program. -/
abbrev StructId := Nat

/-- A global, by its index in the program. -/
abbrev GlobalId := Nat

/-- A procedure, by its index in the program. -/
abbrev ProcId := Nat

/-- A temporary, by its index in the procedure. -/
abbrev TempId := Nat

/-- A block, by its index in the procedure. -/
abbrev BlockId := Nat

/-- Types of the intermediate form. -/
inductive Ty
  /-- Integers of 32 bits. -/
  | int
  | bool
  /-- Raw memory; an allocation yields a pointer to it. -/
  | byte
  /-- The type of the null constant. -/
  | null
  | ptr (target : Ty)
  | struct (id : StructId)
  /-- So many elements; none in the open end of a struct. -/
  | array (elem : Ty) (length : Nat)
  | proc (ret : Ty) (params : List Ty)
deriving Repr, Inhabited

mutual

/-- Are two types the same? -/
def Ty.beq : Ty → Ty → Bool
  | .int, .int | .bool, .bool | .byte, .byte | .null, .null => true
  | .ptr s, .ptr t => s.beq t
  | .struct i, .struct j => i == j
  | .array s m, .array t n => s.beq t && m == n
  | .proc r ps, .proc s qs => r.beq s && tysBeq ps qs
  | _, _ => false

/-- Are the types in two lists the same? -/
def tysBeq : List Ty → List Ty → Bool
  | [], [] => true
  | s :: ps, t :: qs => s.beq t && tysBeq ps qs
  | _, _ => false

end

mutual

theorem Ty.beq_iff : (s t : Ty) → (s.beq t = true ↔ s = t)
  | .int, t => by cases t <;> simp [Ty.beq]
  | .bool, t => by cases t <;> simp [Ty.beq]
  | .byte, t => by cases t <;> simp [Ty.beq]
  | .null, t => by cases t <;> simp [Ty.beq]
  | .ptr s, t => by cases t <;> simp [Ty.beq, Ty.beq_iff s]
  | .struct _, t => by cases t <;> simp [Ty.beq]
  | .array s _, t => by cases t <;> simp [Ty.beq, Ty.beq_iff s]
  | .proc r ps, t => by cases t <;> simp [Ty.beq, Ty.beq_iff r, tysBeq_iff ps]

theorem tysBeq_iff : (ps qs : List Ty) → (tysBeq ps qs = true ↔ ps = qs)
  | [], qs => by cases qs <;> simp [tysBeq]
  | s :: ps, qs => by cases qs <;> simp [tysBeq, Ty.beq_iff s, tysBeq_iff ps]

end

instance : DecidableEq Ty := fun s t => decidable_of_iff (s.beq t = true) (Ty.beq_iff s t)

/-- The type that a pointer points to. -/
def Ty.pointee? : Ty → Option Ty
  | ptr target => some target
  | _ => none

/-- What instructions work on. -/
inductive Operand
  | int (value : Int32)
  | bool (value : Bool)
  | null
  | temp (id : TempId)
  /-- A parameter of the procedure, by its index. -/
  | param (index : Nat)
  /-- The address of a global. -/
  | global (id : GlobalId)
  | proc (id : ProcId)
deriving DecidableEq, Repr, Inhabited

/-- Operations on two operands. -/
inductive BinOp
  | add
  | sub
  | mul
  /-- Signed division. A zero divisor and an overflow are for its user to
  exclude. -/
  | div
  | lt
  | eq
  | and
  | or
deriving DecidableEq, Repr

/-- The type of the result of an operation. -/
def BinOp.resultTy : BinOp → Ty
  | add | sub | mul | div => .int
  | lt | eq | and | or => .bool

/-- Instructions inside a block. The type of a result is that of its
temporary. -/
inductive Instr
  /-- A slot for a value of the type; the result points to it. -/
  | alloca (dst : TempId) (ty : Ty)
  | load (dst : TempId) (addr : Operand)
  | store (addr value : Operand)
  | binary (dst : TempId) (op : BinOp) (lhs rhs : Operand)
  /-- An address: the first index steps over the base, the others select
  members of structs, by constants, and elements of arrays. -/
  | elementPtr (dst : TempId) (base : Operand) (indices : List Operand)
  /-- The value, read as having the type of the result. -/
  | bitcast (dst : TempId) (value : Operand)
  /-- Memory of so many bytes; null if there is none. -/
  | alloc (dst : TempId) (size : Operand)
  | call (dst : TempId) (callee : Operand) (args : List Operand)
  | print (value : Operand)
  | comment (text : String)
deriving DecidableEq, Repr

/-- Ends of blocks. -/
inductive Terminator
  | branch (cond : Operand) (yes no : BlockId)
  | jump (target : BlockId)
  | ret (value : Operand)
  /-- Ends the run with a message. -/
  | halt (message : String)
deriving DecidableEq, Repr

/-- The blocks that may come next. -/
def Terminator.successors : Terminator → List BlockId
  | branch _ yes no => [yes, no]
  | jump target => [target]
  | ret _ | halt _ => []

end ClassLang.Ir
