import ClassLang.Lowering.Allocator
/-!
# Lowering — expressions and places

An expression becomes code that computes its value, a place code that
computes its address. What can go wrong at run time is checked where it
arises, and the halt names the line: that of the node, or else of the last
statement that has one.
-/


namespace ClassLang.Lowering

open Source (NodeId Expr Place BinaryOp UnaryOp)
open Typing (Analysis DeclRef)
open Ir (Operand BinOp ProcId)

/-- The state of lowering a body. -/
structure Body where
  session : Session
  builder : Ir.Builder
  /-- The slots of parameters and local variables. -/
  locals : Table NodeId Operand
  /-- Does the body belong to a method? -/
  inMethod : Bool
  /-- The line that run-time messages name if a node has no position. -/
  line : Nat

/-- Adds to a body and yields a value, or fails. -/
abbrev Lower := StateT Body (Except Error)

namespace Lower

/-- Works on the session. -/
def session {α : Type} (x : Build α) : Lower α := fun s => do
  let (value, session) ← x.run s.session
  return (value, { s with session := session })

/-- Adds code. -/
def emit {α : Type} (x : Ir.Program → Emit α) : Lower α := fun s => do
  let (value, builder) ← ofIr ((x s.session.ir).run s.builder)
  return (value, { s with builder := builder })

/-- The slot of a parameter or local variable. -/
def localSlot (id : NodeId) : Lower Operand := do
  orFault (.missingLocal id) ((← get).locals.get? id)

/-- The object that the method was called on. -/
def this : Lower Operand := do
  if (← get).inMethod then return .param 0 else throw .thisOutsideMethod

/-- The line that run-time messages name for a node. -/
def lineOf (pos : Option Pos) : Lower Nat := do
  return (pos.map (·.line)).getD (← get).line

/-- Halts if a value is null. -/
def nullCheck (value : Operand) (pos : Option Pos) : Lower Unit := do
  let line ← lineOf pos
  emit fun _ => Emit.haltIfNull value ("Nullpointer exception in line " ++ toString line)

/-- A value, read as having the type unless it has it already. -/
def cast (value : Operand) (ty : Ir.Ty) : Lower Operand := emit fun p => Emit.cast p value ty

/-- The address of a field of an object. -/
def fieldAddr (object : Operand) (ref : MemberRef) : Lower Operand := do
  let slot ← session (fieldSlot ref)
  emit fun p => Emit.member p "field" object slot

/-- The length of an array. -/
def arrayLength (array : Operand) : Lower Operand := emit fun p => do
  let addr ← Emit.member p "length_addr" array 0
  Emit.load p "length" addr

/-- The address of an element; halts if there is none of this index. -/
def elementAddr (array index : Operand) (pos : Option Pos) : Lower Operand := do
  let length ← arrayLength array
  let line ← lineOf pos
  emit fun p => do
    let below ← Emit.binary "below" .lt index (.int 0)
    let last ← Emit.binary "last" .sub length (.int 1)
    let above ← Emit.binary "above" .lt last index
    let outOfBounds ← Emit.binary "out_of_bounds" .or below above
    Emit.haltIf outOfBounds "out_of_bounds" "in_bounds"
      ("Index out of bounds error in line " ++ toString line)
    Emit.elementPtr p "elem" array [.int 0, .int 1, index]

/-- A quotient; halts if the divisor is zero. The least integer divided by
minus one is the least integer, without a division. -/
def divide (left right : Operand) (pos : Option Pos) : Lower Operand := do
  let line ← lineOf pos
  emit fun p => do
    let isZero ← Emit.binary "is_zero" .eq right (.int 0)
    Emit.haltIf isZero "div_by_zero" "div_nonzero" ("Division by zero in line " ++ toString line)
    let result ← Emit.entryAlloca "quotient" .int
    Emit.store result (.int Int32.minValue)
    let isMinusOne ← Emit.binary "is_minus_one" .eq right (.int (-1))
    let isMin ← Emit.binary "is_min" .eq left (.int Int32.minValue)
    let overflow ← Emit.binary "overflow" .and isMin isMinusOne
    let division ← Emit.newBlock "div"
    let done ← Emit.newBlock "div_end"
    Emit.terminate (.branch overflow done division)
    Emit.switchTo division
    let quotient ← Emit.binary "quotient" .div left right
    Emit.store result quotient
    Emit.terminate (.jump done)
    Emit.switchTo done
    Emit.load p "quotient" result

/-- Are two values equal? If they have different types, one is read as
having the type of the other: a null on the left that of the right, and
otherwise the right that of the left. -/
def equals (left right : Operand) : Lower Operand := emit fun p => do
  let leftTy ← Emit.typeOf p left
  let rightTy ← Emit.typeOf p right
  if leftTy = rightTy then
    Emit.binary "eq" .eq left right
  else if leftTy = .null then
    let left ← Emit.cast p left rightTy
    Emit.binary "eq" .eq left right
  else
    let right ← Emit.cast p right leftTy
    Emit.binary "eq" .eq left right

/-- The result of an operator whose operands are both computed. -/
def binary (op : BinaryOp) (left right : Operand) (pos : Option Pos) : Lower Operand :=
  match op with
  | .div => divide left right pos
  | .equals => equals left right
  | .plus => emit fun _ => Emit.binary "sum" .add left right
  | .minus => emit fun _ => Emit.binary "diff" .sub left right
  | .times => emit fun _ => Emit.binary "prod" .mul left right
  | .less => emit fun _ => Emit.binary "lt" .lt left right
  | .and => emit fun _ => Emit.binary "and" .and left right

/-- The result of an operator in front. -/
def unary (op : UnaryOp) (value : Operand) : Lower Operand :=
  match op with
  | .minus => emit fun _ => Emit.binary "neg" .sub (.int 0) value
  | .negate => emit fun _ => Emit.binary "not" .eq (.bool false) value

/-- The result of a call through the slot of a vtable. -/
def dispatch (method : String) (object : Operand) (slot : Nat) (args : List Operand) :
    Lower Operand := emit fun p => do
  let header ← Emit.member p "vtable_addr" object 0
  let vtable ← Emit.load p "vtable" header
  let entry ← Emit.member p "method_addr" vtable slot
  let target ← Emit.load p "method" entry
  Emit.call p (method ++ "_result") target args

end Lower

open Lower

variable (a : Analysis)

/-- What a method call on a receiver of some type needs: the slot of the
method, the type of its receiver and those of its other parameters. -/
def callTarget (receiver : NodeId) (method : String) (ref : MemberRef) :
    Build (Nat × Ir.Ty × List Ir.Ty) := do
  let id ← match ← orFault (.missingType receiver) (a.type? receiver) with
    | .class_ id => pure id
    | ty => throw (.notAClass (a.text ty))
  let layout ← classLayout id
  let slot ← orFault (.unknownMethod layout.name method) (layout.slot? method)
  let proc ← methodProc ref
  let decl ← procDecl proc
  match decl.params with
  | [] => throw (.noLayout (.receiver method))
  | this :: params => return (slot, this.ty, params.map (·.ty))

/-- The element type of a new array. -/
def newElem (id : NodeId) : Except Error Ty := do
  match ← orFault (.missingType id) (a.type? id) with
  | .array array => return a.findings.table.elem array
  | ty => throw (.noRepresentation (a.text ty))

mutual

/-- Computes the value of an expression. -/
def rvalue : Expr → Lower Operand
  | .int _ value => return .int value
  | .bool _ value => return .bool value
  | .null _ => return .null
  | .this _ => this
  | .read _ place => do
    let addr ← placeAddr place
    emit fun p => Emit.load p "t" addr
  | .arrayLength m array => do
    let value ← rvalue array
    nullCheck value m.pos
    arrayLength value
  | .unary _ op operand => do
    let value ← rvalue operand
    unary op value
  | .binary m op lhs rhs => do
    if op = .and then
      let result ← emit fun _ => Emit.entryAlloca "and" .bool
      let left ← rvalue lhs
      let done ← emit fun _ => do
        Emit.store result left
        let more ← Emit.newBlock "and_rhs"
        let done ← Emit.newBlock "and_end"
        Emit.terminate (.branch left more done)
        Emit.switchTo more
        return done
      let right ← rvalue rhs
      emit fun p => do
        Emit.store result right
        Emit.terminate (.jump done)
        Emit.switchTo done
        Emit.load p "and" result
    else
      let left ← rvalue lhs
      let right ← rvalue rhs
      binary op left right m.pos
  | .call m name args => do
    match ← orFault (.missingCallee m.id) (a.callee? m.id) with
    | .builtin b =>
      match args with
      | [arg] =>
        let value ← rvalue arg
        emit fun _ => Emit.print value
        return .int 0
      | _ => throw (.intrinsicArity (a.functions.builtinName b) args.length)
    | .function index =>
      let proc ← session (functionProc index)
      let decl ← session (procDecl proc)
      let values ← castArgs args (decl.params.map (·.ty))
      emit fun p => Emit.call p (name ++ "_result") (.proc proc) values
    | .method _ => throw (.notAFunction name)
  | .methodCall m receiver method args => do
    match a.callee? m.id with
    | some (.method ref) =>
      let object ← rvalue receiver
      nullCheck object m.pos
      let (slot, thisTy, paramTys) ← session (callTarget a receiver.id method ref)
      let this ← cast object thisTy
      let values ← castArgs args paramTys
      dispatch method object slot (this :: values)
    | _ => throw (.missingCallee m.id)
  | .newObject _ name => do
    let id ← orFault (.unknownClass name) (a.classes.lookup name)
    let proc ← session (classAllocator id)
    emit fun p => Emit.call p "new_object" (.proc proc) []
  | .newArray m _ size => do
    let elem ← newElem a m.id
    let size ← rvalue size
    let proc ← session (arrayAllocator a elem)
    emit fun p => Emit.call p "new_array" (.proc proc) [size]

/-- Computes the address of a place. -/
def placeAddr : Place → Lower Operand
  | .var m _ => do
    match ← orFault (.missingBinding m.id) (a.decl? m.id) with
    | .local_ id => localSlot id
    | .field ref =>
      let object ← this
      fieldAddr object ref
  | .field m receiver _ => do
    let ref ← orFault (.missingField m.id) (a.field? m.id)
    let object ← rvalue receiver
    nullCheck object m.pos
    fieldAddr object ref
  | .index m array index => do
    let array ← rvalue array
    nullCheck array m.pos
    let index ← rvalue index
    elementAddr array index m.pos

/-- Computes arguments from left to right, each cast to the type of its
parameter. -/
def castArgs : List Expr → List Ir.Ty → Lower (List Operand)
  | arg :: args, ty :: tys => do
    let value ← rvalue arg
    let value ← cast value ty
    let values ← castArgs args tys
    return value :: values
  | _, _ => return []

end

end ClassLang.Lowering
