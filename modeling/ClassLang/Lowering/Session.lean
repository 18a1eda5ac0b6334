import ClassLang.Lowering.Emit
import ClassLang.Lowering.Error
import ClassLang.Typing.Analysis
/-!
# Lowering — the session

While a program is lowered, a `Session` holds what is built so far: the
program of the intermediate form, the layout of the classes, and which
structs and procedures stand for which types. What is made on demand is
made once and then found in its table.
-/


namespace ClassLang.Lowering

open Source (TypeExpr)
open Typing (Analysis)
open Ir (StructId GlobalId ProcId Operand)

/-- The structs of a class and the contents of its vtable. -/
structure ClassLayout where
  name : String
  instance_ : StructId
  vtable : StructId
  vtableGlobal : GlobalId
  /-- The methods of the vtable and their procedures, in slot order. -/
  entries : List (String × ProcId)
deriving DecidableEq, Repr

/-- The slot of a method in the vtable. -/
def ClassLayout.slot? (l : ClassLayout) (method : String) : Option Nat :=
  (l.entries.map (·.1)).idxOf? method

/-- What is built so far. -/
structure Session where
  ir : Ir.Program
  /-- The layouts of the classes, by their index. -/
  classes : List ClassLayout
  /-- The index in the instance struct of every declared field. -/
  fieldSlots : Table MemberRef Nat
  /-- The procedure of every declared method. -/
  methodProcs : Table MemberRef ProcId
  /-- The procedures of the free functions, by their index. -/
  functionProcs : List ProcId
  /-- The structs of arrays, by element type. -/
  arrayStructs : Table Ty StructId
  /-- The procedures that make objects, by class. -/
  classAllocators : Table ClassId ProcId
  /-- The procedures that make arrays, by element type. -/
  arrayAllocators : Table Ty ProcId

/-- Nothing is built. -/
def Session.start : Session := ⟨.empty, [], [], [], [], [], [], []⟩

/-- Adds to a session and yields a value, or fails. -/
abbrev Build := StateT Session (Except Error)

/-- A result of the intermediate form. -/
def ofIr {α : Type} (result : Except Ir.Error α) : Except Error α :=
  match result with
  | .ok a => .ok a
  | .error e => .error (.ir e)

/-- What is there, or a fault. -/
def orFault {α : Type} (fault : Error) : Option α → Except Error α
  | some a => .ok a
  | none => .error fault

/-- The layout of a class. -/
def classLayout (id : ClassId) : Build ClassLayout := do
  orFault (.noLayout (.class_ id)) (← get).classes[id]?

/-- The index of a field in the instance struct. -/
def fieldSlot (ref : MemberRef) : Build Nat := do
  orFault (.noLayout (.field ref)) ((← get).fieldSlots.get? ref)

/-- The procedure of a method. -/
def methodProc (ref : MemberRef) : Build ProcId := do
  orFault (.noLayout (.method ref)) ((← get).methodProcs.get? ref)

/-- The procedure of a free function. -/
def functionProc (index : Nat) : Build ProcId := do
  orFault (.noLayout (.function index)) (← get).functionProcs[index]?

/-- The declaration of a procedure. -/
def procDecl (id : ProcId) : Build Ir.Proc := do
  ofIr ((← get).ir.proc id)

/-- Changes the program that is built. -/
def modifyIr (change : Ir.Program → Except Ir.Error Ir.Program) : Build Unit := do
  let s ← get
  let ir ← ofIr (change s.ir)
  set { s with ir := ir }

/-- Adds a struct without fields. -/
def addStruct (name : String) : Build StructId :=
  modifyGet fun s =>
    let (id, ir) := s.ir.addStruct name
    (id, { s with ir := ir })

/-- Adds a global. -/
def addGlobal (g : Ir.Global) : Build GlobalId :=
  modifyGet fun s =>
    let (id, ir) := s.ir.addGlobal g
    (id, { s with ir := ir })

/-- Adds a procedure without body. -/
def declareProc (name : String) (ret : Ir.Ty) (params : List Ir.Field) : Build ProcId :=
  modifyGet fun s =>
    let (id, ir) := s.ir.declareProc name ret params
    (id, { s with ir := ir })

/-- Gives a procedure the body that was built; falling off its end halts. -/
def defineProc (id : ProcId) (body : Ir.Builder) : Build Unit := do
  let decl ← procDecl id
  let (temps, blocks) := body.finish ("Missing return statement in " ++ decl.name)
  modifyIr (·.setBody id temps blocks)

/-! ## Types -/

/-- The value that a variable of a type has at first. -/
def defaultValue : Ir.Ty → Operand
  | .int => .int 0
  | .bool => .bool false
  | _ => .null

/-- A spelling of a type that can be part of a name, given how deep arrays
may nest. -/
def mangleWithin (types : TypeTable) : Nat → Ty → String
  | depth + 1, .array id => mangleWithin types depth (types.elem id) ++ "_array"
  | 0, .array _ => ""
  | _, .int => "int"
  | _, .bool => "boolean"
  | _, .null => "null"
  | _, .any | _, .invalid => "any"
  | _, .class_ id => types.className id

/-- A spelling of a type that can be part of a name: `int_array` for
`int[]`. -/
def mangle (types : TypeTable) (ty : Ty) : String :=
  mangleWithin types (types.elems.length + 1) ty

variable (a : Analysis)

/-- The struct of the arrays over an element type: their length, then the
elements. It is made when it is first asked for; `irTy` gives the type of
the elements. -/
def arrayStructOf (irTy : Ty → Build Ir.Ty) (elem : Ty) : Build StructId := do
  match (← get).arrayStructs.get? elem with
  | some id => return id
  | none =>
    let elemTy ← irTy elem
    let id ← addStruct ("array_" ++ mangle a.findings.table elem)
    modifyIr (·.setFields id [⟨"length", .int⟩, ⟨"data", .array elemTy 0⟩])
    modify fun s => { s with arrayStructs := s.arrayStructs.insert elem id }
    return id

/-- The type of the values of a type, given how deep arrays may nest. -/
def irTyWithin : Nat → Ty → Build Ir.Ty
  | depth + 1, .array id => do
    let s ← arrayStructOf a (irTyWithin depth) (a.findings.table.elem id)
    return .ptr (.struct s)
  | _, .int => return .int
  | _, .bool => return .bool
  | _, .class_ id => return .ptr (.struct (← classLayout id).instance_)
  | _, ty => throw (.noRepresentation (a.text ty))

/-- The type of the values of a type: integers and booleans are
themselves, objects and arrays pointers to their structs. -/
def irTy (ty : Ty) : Build Ir.Ty :=
  irTyWithin a (a.findings.table.elems.length + 1) ty

/-- The struct of the arrays over an element type. -/
def arrayStruct (elem : Ty) : Build StructId := arrayStructOf a (irTy a) elem

/-- The type of the values of a type that is written in the program. -/
def irTyOf (ty : TypeExpr) : Build Ir.Ty := do
  let found ← orFault (.unresolvedType ty.text) (a.lookupType ty)
  irTy a found

/-- Parameters with the types of their values. -/
def irParams : List Source.VarDecl → Build (List Ir.Field)
  | [] => return []
  | param :: rest => do
    let ty ← irTyOf a param.ty
    return ⟨param.name, ty⟩ :: (← irParams rest)

end ClassLang.Lowering
