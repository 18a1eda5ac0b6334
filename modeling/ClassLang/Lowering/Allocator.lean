import ClassLang.Ir.Layout
import ClassLang.Lowering.Session
/-!
# Lowering — allocators

`new` calls a procedure: one for each class and one for each element type,
made when it is first needed. It halts if there is no memory, and what it
returns has the default value in every field or element. An array whose
size in bytes is no 32-bit integer counts as one there is no memory for.
-/


namespace ClassLang.Lowering

open Typing (Analysis)
open Ir (Operand ProcId StructId GlobalId Builder)

/-- The message when there is no memory. -/
def outOfMemory : String := "Out of memory exception"

/-- Writes default values to the members of an object, from a member on. -/
def storeDefaults (p : Ir.Program) (object : Operand) : Nat → List Ir.Field → Emit Unit
  | _, [] => return
  | index, field :: rest => do
    let addr ← Emit.member p "field" object index
    Emit.store addr (defaultValue field.ty)
    storeDefaults p object (index + 1) rest

/-- The body of the procedure that makes an object. -/
def objectBody (p : Ir.Program) (struct : StructId) (vtable : GlobalId)
    (fields : List Ir.Field) : Emit Unit := do
  let raw ← Emit.alloc "raw" (.int (.ofNat (p.sizeOf (.struct struct))))
  Emit.haltIfNull raw outOfMemory
  let object ← Emit.bitcast "object" raw (.ptr (.struct struct))
  let header ← Emit.member p "vtable" object 0
  Emit.store header (.global vtable)
  storeDefaults p object 1 fields
  Emit.terminate (.ret object)

/-- The number of elements from which on an array is too large: the other
bytes and those of the elements have to sum up to a 32-bit integer. -/
def maxLength (header elemSize : Int32) : Int32 := (Int32.maxValue - header) / elemSize

/-- The body of the procedure that makes an array; its parameter is the
number of elements. -/
def arrayBody (p : Ir.Program) (struct : StructId) (elemTy : Ir.Ty) : Emit Unit := do
  let size := Operand.param 0
  let negative ← Emit.binary "negative" .lt size (.int 0)
  Emit.haltIf negative "negative_size" "size_ok" "Array size must be non-negative"
  let elemSize := max (Int32.ofNat (p.sizeOf elemTy)) 1
  let header := Int32.ofNat (p.fieldOffset struct 1)
  let tooLarge ← Emit.binary "too_large" .lt (.int (maxLength header elemSize)) size
  Emit.haltIf tooLarge "too_large" "size_fits" outOfMemory
  let bytes ← Emit.binary "bytes" .mul size (.int elemSize)
  let total ← Emit.binary "total" .add bytes (.int header)
  let raw ← Emit.alloc "raw" total
  Emit.haltIfNull raw outOfMemory
  let array ← Emit.bitcast "array" raw (.ptr (.struct struct))
  let length ← Emit.member p "length" array 0
  Emit.store length size
  let counter ← Emit.entryAlloca "i" .int
  Emit.store counter (.int 0)
  let cond ← Emit.newBlock "init_cond"
  let body ← Emit.newBlock "init_body"
  let done ← Emit.newBlock "init_done"
  Emit.terminate (.jump cond)
  Emit.switchTo cond
  let i ← Emit.load p "i" counter
  let more ← Emit.binary "more" .lt i size
  Emit.terminate (.branch more body done)
  Emit.switchTo body
  let slot ← Emit.elementPtr p "elem" array [.int 0, .int 1, i]
  Emit.store slot (defaultValue elemTy)
  let next ← Emit.binary "next" .add i (.int 1)
  Emit.store counter next
  Emit.terminate (.jump cond)
  Emit.switchTo done
  Emit.terminate (.ret array)

/-- Gives a procedure the body that an emission builds. -/
def defineWith (id : ProcId) (body : Ir.Program → Emit Unit) : Build Unit := do
  let decl ← procDecl id
  let p := (← get).ir
  let ((), built) ← ofIr ((body p).run (.start decl.params decl.ret))
  defineProc id built

/-- The procedure that makes objects of a class. -/
def classAllocator (id : ClassId) : Build ProcId := do
  match (← get).classAllocators.get? id with
  | some proc => return proc
  | none =>
    let layout ← classLayout id
    let proc ← declareProc ("new_class_" ++ layout.name) (.ptr (.struct layout.instance_)) []
    modify fun s => { s with classAllocators := s.classAllocators.insert id proc }
    let struct ← ofIr ((← get).ir.struct layout.instance_)
    defineWith proc fun p =>
      objectBody p layout.instance_ layout.vtableGlobal (struct.fields.drop 1)
    return proc

/-- The procedure that makes arrays over an element type. -/
def arrayAllocator (a : Analysis) (elem : Ty) : Build ProcId := do
  match (← get).arrayAllocators.get? elem with
  | some proc => return proc
  | none =>
    let struct ← arrayStruct a elem
    let elemTy ← irTy a elem
    let name := "new_array_" ++ mangle a.findings.table elem
    let proc ← declareProc name (.ptr (.struct struct)) [⟨"size", .int⟩]
    modify fun s => { s with arrayAllocators := s.arrayAllocators.insert elem proc }
    defineWith proc fun p => arrayBody p struct elemTy
    return proc

end ClassLang.Lowering
