import ClassLang.Ir.Types
/-!
# Intermediate form — programs

Structs, globals and procedures are added one after the other and known by
their index. A struct gets its fields and a procedure its body later, so
that they can refer to each other. `Program.operandTy` gives the type of
an operand.
-/


namespace ClassLang.Ir

/-- A field of a struct, or a parameter of a procedure. -/
structure Field where
  name : String
  ty : Ty
deriving DecidableEq, Repr, Inhabited

/-- A struct. -/
structure StructDef where
  name : String
  fields : List Field
deriving DecidableEq, Repr, Inhabited

/-- Values that are known before the run. -/
inductive Const
  | int (value : Int32)
  | bool (value : Bool)
  | null
  | proc (id : ProcId)
  | struct (id : StructId) (fields : List Const)
deriving Repr, Inhabited

/-- A global and its first value. -/
structure Global where
  name : String
  ty : Ty
  constant : Bool
  init : Const
deriving Repr, Inhabited

/-- A block that has its end. -/
structure Block where
  name : String
  instrs : List Instr
  terminator : Terminator
deriving DecidableEq, Repr

/-- A procedure; it has no blocks until its body is there. -/
structure Proc where
  name : String
  ret : Ty
  params : List Field
  /-- The names of temporaries need not differ. -/
  temps : List Field
  blocks : List Block
deriving DecidableEq, Repr

/-- The type of a procedure as a value. -/
def Proc.signature (p : Proc) : Ty := .proc p.ret (p.params.map (·.ty))

/-- Is the body there? -/
def Proc.isDefined (p : Proc) : Bool := !p.blocks.isEmpty

/-- What a number may fail to name. -/
inductive Entity
  | struct
  | global
  | proc
  | temp
  | param
deriving DecidableEq, Repr

/-- How messages call it. -/
def Entity.describe : Entity → String
  | struct => "struct"
  | global => "global"
  | proc => "procedure"
  | temp => "temp"
  | param => "parameter"

/-- How messages show an operand. -/
def Operand.describe : Operand → String
  | int value => "Int(" ++ toString value.toInt ++ ")"
  | bool value => "Bool(" ++ toString value ++ ")"
  | null => "Null"
  | temp id => "Temp(TempId(" ++ toString id ++ "))"
  | param index => "Param(" ++ toString index ++ ")"
  | global id => "Global(GlobalId(" ++ toString id ++ "))"
  | proc id => "Proc(ProcId(" ++ toString id ++ "))"

/-- Why a part of a program cannot be built. Types are stored as they are
written. -/
inductive Error
  | notAPointer (ty : String)
  | nonConstantMember (index : Operand)
  /-- A struct without a member of this number. -/
  | noSuchMember (index : Int32) (ty : String)
  /-- An index into what is no struct and no array. -/
  | notIndexable (index : Operand) (ty : String)
  | notCallable (ty : String)
  | unknown (what : Entity) (id : Nat)
deriving DecidableEq, Repr

/-- The wording of an error. -/
def Error.message : Error → String
  | notAPointer ty => "expected a pointer operand, found " ++ ty
  | nonConstantMember index =>
    "struct member index must be a constant, found " ++ index.describe
  | noSuchMember index ty =>
    "index " ++ toString index.toInt ++ " does not address into " ++ ty
  | notIndexable index ty => "index " ++ index.describe ++ " does not address into " ++ ty
  | notCallable ty => ty ++ " cannot be called"
  | unknown what id => "unknown " ++ what.describe ++ " #" ++ toString id

/-- A program of the intermediate form. -/
structure Program where
  structs : List StructDef
  globals : List Global
  procs : List Proc
deriving Repr, Inhabited

namespace Program

/-- The program without anything in it. -/
def empty : Program := ⟨[], [], []⟩

/-- Adds a struct without fields. -/
def addStruct (p : Program) (name : String) : StructId × Program :=
  (p.structs.length, { p with structs := p.structs ++ [⟨name, []⟩] })

/-- Adds a global. -/
def addGlobal (p : Program) (g : Global) : GlobalId × Program :=
  (p.globals.length, { p with globals := p.globals ++ [g] })

/-- Adds a procedure without body. -/
def declareProc (p : Program) (name : String) (ret : Ty) (params : List Field) :
    ProcId × Program :=
  (p.procs.length, { p with procs := p.procs ++ [⟨name, ret, params, [], []⟩] })

/-- The element of a list with a number, or the error that there is none. -/
def find {α : Type} (what : Entity) (xs : List α) (id : Nat) : Except Error α :=
  match xs[id]? with
  | some x => .ok x
  | none => .error (.unknown what id)

/-- A struct. -/
def struct (p : Program) (id : StructId) : Except Error StructDef := find .struct p.structs id

/-- A global. -/
def global (p : Program) (id : GlobalId) : Except Error Global := find .global p.globals id

/-- A procedure. -/
def proc (p : Program) (id : ProcId) : Except Error Proc := find .proc p.procs id

/-- Gives a struct its fields. -/
def setFields (p : Program) (id : StructId) (fields : List Field) : Except Error Program := do
  let s ← p.struct id
  return { p with structs := p.structs.set id { s with fields := fields } }

/-- Gives a global its first value. -/
def setInit (p : Program) (id : GlobalId) (init : Const) : Except Error Program := do
  let g ← p.global id
  return { p with globals := p.globals.set id { g with init := init } }

/-- Gives a procedure its body. -/
def setBody (p : Program) (id : ProcId) (temps : List Field) (blocks : List Block) :
    Except Error Program := do
  let f ← p.proc id
  return { p with procs := p.procs.set id { f with temps := temps, blocks := blocks } }

/-- The procedure of a name; of several, the last. -/
def findProc? (p : Program) (name : String) : Option ProcId :=
  (p.procs.zipIdx.reverse.find? (·.1.name == name)).map (·.2)

/-- The type of an operand among parameters and temporaries. -/
def operandTy (p : Program) (params temps : List Field) : Operand → Except Error Ty
  | .int _ => return .int
  | .bool _ => return .bool
  | .null => return .null
  | .temp id => return (← find .temp temps id).ty
  | .param index => return (← find .param params index).ty
  | .global id => return .ptr (← p.global id).ty
  | .proc id => return (← p.proc id).signature

end Program

end ClassLang.Ir
