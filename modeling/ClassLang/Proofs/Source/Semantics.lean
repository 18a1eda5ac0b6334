import ClassLang.Proofs.Hierarchy.Members
import ClassLang.Proofs.Typing.Rules
/-!
# Source — what programs do

An interpreter of the tree. Evaluation goes from left to right and works
on a `State`: the heap, the output and the number of times that memory was
asked for; `grant` says which requests are met. Variables are private to a
call. A run may halt with a `Fault`, which has the message that the user
sees; `stuck` is what no well-typed program comes to. Calls and loops are
cut off after a number of rounds, so the interpreter ends, and a result
that is not cut off is the result of the run.
-/


namespace ClassLang.Semantics

open Source (TypeExpr Expr Place Stmt Block BinaryOp UnaryOp VarDecl FunctionDecl Program)
open Typing (ExprTy Names)

/-- Why a run halts. -/
inductive Fault
  | nullPointer (line : Nat)
  | outOfBounds (line : Nat)
  | divisionByZero (line : Nat)
  | outOfMemory
  | negativeSize
  /-- The end of a body was reached without a return. -/
  | missingReturn (name : String)
deriving DecidableEq, Repr

/-- The message of a fault. -/
def Fault.message : Fault → String
  | nullPointer line => "Nullpointer exception in line " ++ toString line
  | outOfBounds line => "Index out of bounds error in line " ++ toString line
  | divisionByZero line => "Division by zero in line " ++ toString line
  | outOfMemory => "Out of memory exception"
  | negativeSize => "Array size must be non-negative"
  | missingReturn name => "Missing return statement in " ++ name

/-! ## Values and states -/

/-- What expressions evaluate to; objects and arrays have addresses. -/
inductive Value
  | int (value : Int32)
  | bool (value : Bool)
  | null
  | ref (addr : Nat)
deriving DecidableEq, Repr

/-- The value that a variable, a field or an element has at first. -/
def default : TypeExpr → Value
  | .int => .int 0
  | .bool => .bool false
  | _ => .null

/-- What stands at an address. A field is told apart by its declaration, so
a hidden one keeps its own value. -/
inductive Cell
  | object (class_ : ClassId) (fields : MemberRef → Option Value)
  | array (elems : List Value)

/-- The state of a run. -/
structure State where
  heap : Nat → Option Cell
  /-- The address of the next object. -/
  next : Nat
  /-- How often memory was asked for. -/
  requests : Nat
  output : List Int32

/-- Nothing has happened. -/
def State.start : State := ⟨fun _ => none, 0, 0, []⟩

/-- How a computation ends. -/
inductive Result (α : Type)
  | ok (value : α) (s : State)
  | halt (fault : Fault) (s : State)
  /-- It was cut off here. -/
  | timeout (s : State)
  | stuck

/-- A computation on the state. -/
def Run (α : Type) : Type := State → Result α

namespace Run

variable {α β : Type}

/-- One computation and then another. -/
def bind (x : Run α) (k : α → Run β) : Run β := fun s =>
  match x s with
  | .ok a s => k a s
  | .halt fault s => .halt fault s
  | .timeout s => .timeout s
  | .stuck => .stuck

instance : Monad Run where
  pure a := fun s => .ok a s
  bind := bind

def halt (fault : Fault) : Run α := fun s => .halt fault s

def timeout : Run α := fun s => .timeout s

def stuck : Run α := fun _ => .stuck

/-- What is there. -/
def ofOption : Option α → Run α
  | some a => pure a
  | none => stuck

/-- Puts a cell at the next address. -/
def create (cell : Cell) : Run Value := fun s =>
  .ok (.ref s.next)
    { s with
      heap := fun addr => if addr = s.next then some cell else s.heap addr
      next := s.next + 1 }

/-- The cell at an address. -/
def cell (addr : Nat) : Run Cell := fun s => (ofOption (s.heap addr) : Run Cell) s

/-- Changes the cell at an address. -/
def setCell (addr : Nat) (cell : Cell) : Run Unit := fun s =>
  .ok () { s with heap := fun other => if other = addr then some cell else s.heap other }

/-- Prints an integer. -/
def print (value : Int32) : Run Unit := fun s =>
  .ok () { s with output := s.output ++ [value] }

theorem bind_of_ok {x : Run α} {k : α → Run β} {s s' : State} {a : α} (h : x s = .ok a s') :
    (x >>= k) s = k a s' := by
  show bind x k s = _
  rw [bind, h]

theorem bind_assoc {γ : Type} (x : Run α) (f : α → Run β) (g : β → Run γ) :
    x >>= f >>= g = x >>= fun a => f a >>= g := by
  funext s
  show bind (bind x f) g s = bind x (fun a => bind (f a) g) s
  unfold bind
  cases x s <;> rfl

theorem ofOption_of_eq {o : Option α} {a : α} (h : o = some a) (s : State) :
    (ofOption o : Run α) s = .ok a s := by
  rw [h]
  rfl

theorem cell_of_eq {s : State} {addr : Nat} {c : Cell} (h : s.heap addr = some c) :
    cell addr s = .ok c s :=
  ofOption_of_eq h s

end Run

/-- Asks for memory; halts if there is none. -/
def request (grant : Nat → Bool) : Run Unit := fun s =>
  if grant s.requests then .ok () { s with requests := s.requests + 1 }
  else .halt .outOfMemory { s with requests := s.requests + 1 }

def asInt : Value → Run Int32
  | .int value => pure value
  | _ => .stuck

def asBool : Value → Run Bool
  | .bool value => pure value
  | _ => .stuck

/-- The address that a reference has; halts if it is null. -/
def asRef (line : Nat) : Value → Run Nat
  | .ref addr => pure addr
  | .null => .halt (.nullPointer line)
  | _ => .stuck

/-! ## Variables -/

/-- Variables and their values, the innermost first. -/
abbrev Vars := List (VarDecl × Value)

/-- The value of a variable. -/
def Vars.value? (vars : Vars) (name : String) : Option Value :=
  (vars.find? (·.1.name == name)).map (·.2)

/-- Gives a variable a value. -/
def Vars.assign : Vars → String → Value → Vars
  | [], _, _ => []
  | (var, old) :: rest, name, value =>
    if var.name = name then (var, value) :: rest else (var, old) :: Vars.assign rest name value

/-- The variables from before a statement, with the values behind it. -/
def Vars.leave (outer inner : Vars) : Vars := inner.drop (inner.length - outer.length)

/-- What names stand for: the receiver with the class whose method runs, and
the variables. -/
structure Scope where
  this? : Option (String × Value)
  vars : Vars

/-- What the names mean to the type system. -/
def Scope.names (scope : Scope) : Names := ⟨scope.this?.map (·.1), scope.vars.map (·.1)⟩

/-- A place that was computed. -/
inductive Loc
  | var (name : String)
  | field (addr : Nat) (ref : MemberRef)
  | elem (addr : Nat) (index : Nat)

/-- The value at a place. -/
def readLoc (vars : Vars) : Loc → Run Value
  | .var name => .ofOption (vars.value? name)
  | .field addr ref => do
    match ← Run.cell addr with
    | .object _ fields => .ofOption (fields ref)
    | .array _ => .stuck
  | .elem addr index => do
    match ← Run.cell addr with
    | .array elems => .ofOption elems[index]?
    | .object _ _ => .stuck

/-- Gives a place a value; yields the variables. -/
def writeLoc (vars : Vars) (value : Value) : Loc → Run Vars
  | .var name => pure (vars.assign name value)
  | .field addr ref => do
    match ← Run.cell addr with
    | .object class_ fields =>
      Run.setCell addr (.object class_ fun other => if other = ref then some value else fields other)
      return vars
    | .array _ => .stuck
  | .elem addr index => do
    match ← Run.cell addr with
    | .array elems =>
      Run.setCell addr (.array (elems.set index value))
      return vars
    | .object _ _ => .stuck

/-! ## Types that choose fields -/

section Types

variable (p : Program) (printName : String) (names : Names)

/-- The field that a name means in the class of a name. -/
def fieldIn? (class_ name : String) : Option MemberRef :=
  (p.classId? class_).bind (p.fieldRef? · name)

mutual

/-- The type of an expression, which tells hidden fields apart. -/
def staticType? : Expr → Option ExprTy
  | .int _ _ | .arrayLength _ _ | .unary _ .minus _ => some (.written .int)
  | .bool _ _ | .unary _ .negate _ => some (.written .bool)
  | .null _ => some .null
  | .this _ => names.this?.map fun class_ => .written (.class_ class_)
  | .read _ place => (placeType? place).map .written
  | .binary _ op _ _ =>
    match op with
    | .plus | .minus | .times | .div => some (.written .int)
    | .less | .equals | .and => some (.written .bool)
  | .call _ name _ =>
    if name = printName then some (.written .int)
    else (p.function? name).map (.written ·.returnType)
  | .methodCall _ receiver method _ =>
    match staticType? receiver with
    | some (.written (.class_ class_)) =>
      (p.visibleMethod? class_ method).map (.written ·.returnType)
    | _ => none
  | .newObject _ class_ => some (.written (.class_ class_))
  | .newArray _ elem _ => some (.written (.array elem))

/-- The type of a place. -/
def placeType? : Place → Option TypeExpr
  | .var _ name =>
    match names.var? name with
    | some var => some var.ty
    | none => (names.this?.bind (fieldIn? p · name)).bind fun ref => (fieldDecl? p ref).map (·.ty)
  | .field _ receiver name =>
    match staticType? receiver with
    | some (.written (.class_ class_)) =>
      (fieldIn? p class_ name).bind fun ref => (fieldDecl? p ref).map (·.ty)
    | _ => none
  | .index _ array _ =>
    match staticType? array with
    | some (.written (.array elem)) => some elem
    | _ => none

end

/-- The field that an access of an object means. -/
def accessed? (receiver : Expr) (name : String) : Option MemberRef :=
  match staticType? p printName names receiver with
  | some (.written (.class_ class_)) => fieldIn? p class_ name
  | _ => none

end Types

/-! ## Expressions -/

/-- The line that a fault names: that of the node, or else that of the last
statement that has one. -/
def lineOf (line : Nat) (pos : Option Pos) : Nat := (pos.map (·.line)).getD line

/-- The result of an operator whose operands are both computed. -/
def apply (line : Nat) : BinaryOp → Value → Value → Run Value
  | .plus, .int left, .int right => pure (.int (left + right))
  | .minus, .int left, .int right => pure (.int (left - right))
  | .times, .int left, .int right => pure (.int (left * right))
  | .div, .int left, .int right =>
    -- The quotient is truncated, and that of the least integer and -1 wraps around.
    if right = 0 then .halt (.divisionByZero line) else pure (.int (left / right))
  | .less, .int left, .int right => pure (.bool (left < right))
  | .equals, left, right => pure (.bool (left = right))
  | .and, .bool left, .bool right => pure (.bool (left && right))
  | _, _, _ => .stuck

/-- The fields of a new object. -/
def freshFields (p : Program) (id : ClassId) (ref : MemberRef) : Option Value :=
  if ref ∈ p.fieldRefs id then (fieldDecl? p ref).map (default ·.ty) else none

/-- The bytes of an element of an array. -/
def elemBytes : TypeExpr → Nat
  | .int => 4
  | .bool => 1
  | _ => 8

/-- The bytes in front of the elements of an array. -/
def headerBytes : TypeExpr → Nat
  | .int | .bool => 4
  | _ => 8

/-- An array so large that its number of bytes is no 32-bit integer. -/
def TooLarge (elem : TypeExpr) (size : Int32) : Prop :=
  2 ^ 31 ≤ headerBytes elem + size.toInt.toNat * elemBytes elem

instance (elem : TypeExpr) (size : Int32) : Decidable (TooLarge elem size) :=
  inferInstanceAs (Decidable (_ ≤ _))

section Eval

variable (p : Program) (printName : String) (grant : Nat → Bool)
variable (invoke : Option (String × Value) → FunctionDecl → List Value → Run Value)

/-- A new array. -/
def newArray (elem : TypeExpr) (size : Int32) : Run Value :=
  if size < 0 then .halt .negativeSize
  else if TooLarge elem size then .halt .outOfMemory
  else do
    request grant
    Run.create (.array (List.replicate size.toInt.toNat (default elem)))

variable (scope : Scope) (line : Nat)

mutual

/-- The value of an expression. -/
def evalExpr : Expr → Run Value
  | .int _ value => pure (.int value)
  | .bool _ value => pure (.bool value)
  | .null _ => pure .null
  | .this _ => .ofOption (scope.this?.map (·.2))
  | .read _ place => do
    let loc ← evalPlace place
    readLoc scope.vars loc
  | .arrayLength m array => do
    let value ← evalExpr array
    let addr ← asRef (lineOf line m.pos) value
    match ← Run.cell addr with
    | .array elems => pure (.int (.ofNat elems.length))
    | .object _ _ => .stuck
  | .unary _ op operand => do
    let value ← evalExpr operand
    match op with
    | .minus => return .int (-(← asInt value))
    | .negate => return .bool (!(← asBool value))
  | .binary m op lhs rhs => do
    let left ← evalExpr lhs
    if op = .and then
      if ← asBool left then
        let right ← evalExpr rhs
        return .bool (← asBool right)
      else
        return .bool false
    else
      let right ← evalExpr rhs
      apply (lineOf line m.pos) op left right
  | .call _ name args => do
    if name = printName then
      match args with
      | [arg] =>
        let value ← evalExpr arg
        Run.print (← asInt value)
        return .int 0
      | _ => .stuck
    else
      let f ← Run.ofOption (p.function? name)
      let values ← evalArgs args
      invoke none f values
  | .methodCall m receiver method args => do
    let object ← evalExpr receiver
    let addr ← asRef (lineOf line m.pos) object
    let values ← evalArgs args
    match ← Run.cell addr with
    | .object class_ _ =>
      -- The nearest method of the class of the object, whatever the type of the receiver.
      let ref ← Run.ofOption (p.methodRef? class_ method)
      let f ← Run.ofOption (methodDecl? p ref)
      let c ← Run.ofOption p.classes[ref.class_]?
      invoke (some (c.name, .ref addr)) f values
    | .array _ => .stuck
  | .newObject _ name => do
    let id ← Run.ofOption (p.classId? name)
    request grant
    Run.create (.object id (freshFields p id))
  | .newArray _ elem size => do
    let value ← evalExpr size
    newArray grant elem (← asInt value)

/-- The place that is meant. -/
def evalPlace : Place → Run Loc
  | .var _ name =>
    match scope.vars.value? name with
    | some _ => pure (.var name)
    | none => do
      let (class_, this) ← Run.ofOption scope.this?
      let ref ← Run.ofOption (fieldIn? p class_ name)
      match this with
      | .ref addr => return .field addr ref
      | _ => .stuck
  | .field m receiver name => do
    let object ← evalExpr receiver
    let addr ← asRef (lineOf line m.pos) object
    let ref ← Run.ofOption (accessed? p printName scope.names receiver name)
    return .field addr ref
  | .index m array index => do
    let value ← evalExpr array
    let addr ← asRef (lineOf line m.pos) value
    let value ← evalExpr index
    let i ← asInt value
    match ← Run.cell addr with
    | .array elems =>
      if 0 ≤ i ∧ i.toInt < elems.length then return .elem addr i.toInt.toNat
      else .halt (.outOfBounds (lineOf line m.pos))
    | .object _ _ => .stuck

/-- The values of arguments, from left to right. -/
def evalArgs : List Expr → Run (List Value)
  | [] => pure []
  | arg :: args => do
    let value ← evalExpr arg
    let values ← evalArgs args
    return value :: values

end

end Eval

/-! ## Statements -/

mutual

/-- The line of the last statement that has one, behind a statement. -/
def lineAfter (line : Nat) : Stmt → Nat
  | .block pos (.mk stmts _) => lineAfterAll (lineOf line pos) stmts
  | .ifThen pos _ body | .loop pos _ body => lineAfter (lineOf line pos) body
  | .ifElse pos _ yes no => lineAfter (lineAfter (lineOf line pos) yes) no
  | .decl pos _ | .assign pos _ _ | .expr pos _ | .ret pos _ => lineOf line pos

/-- The same behind statements in turn. -/
def lineAfterAll (line : Nat) : List Stmt → Nat
  | [] => line
  | s :: rest => lineAfterAll (lineAfter line s) rest

end

/-- Runs a body as long as a condition holds, but at most so many times. -/
def loopWithin (cond : Vars → Run Bool) (body : Vars → Run (Option Value × Vars)) :
    Nat → Vars → Run (Option Value × Vars)
  | 0, _ => .timeout
  | n + 1, vars => do
    if ← cond vars then
      let (result, inner) ← body vars
      match result with
      | some value => return (some value, vars.leave inner)
      | none => loopWithin cond body n (vars.leave inner)
    else
      return (none, vars)

section Exec

variable (p : Program) (printName : String) (grant : Nat → Bool)
variable (invoke : Option (String × Value) → FunctionDecl → List Value → Run Value)
variable (rounds : Nat) (this? : Option (String × Value))

mutual

/-- Runs a statement: the value if it returned one, and the variables
behind it. -/
def execStmt (line : Nat) (vars : Vars) : Stmt → Run (Option Value × Vars)
  | .block pos (.mk stmts _) => do
    let (result, inner) ← execStmts (lineOf line pos) vars stmts
    return (result, vars.leave inner)
  | .decl _ var => return (none, (var, default var.ty) :: vars)
  | .assign pos target value => do
    let loc ← evalPlace p printName grant invoke ⟨this?, vars⟩ (lineOf line pos) target
    let value ← evalExpr p printName grant invoke ⟨this?, vars⟩ (lineOf line pos) value
    let vars ← writeLoc vars value loc
    return (none, vars)
  | .expr pos value => do
    let _ ← evalExpr p printName grant invoke ⟨this?, vars⟩ (lineOf line pos) value
    return (none, vars)
  | .ifThen pos cond body => do
    let value ← evalExpr p printName grant invoke ⟨this?, vars⟩ (lineOf line pos) cond
    if ← asBool value then
      let (result, inner) ← execStmt (lineOf line pos) vars body
      return (result, vars.leave inner)
    else
      return (none, vars)
  | .ifElse pos cond yes no => do
    let value ← evalExpr p printName grant invoke ⟨this?, vars⟩ (lineOf line pos) cond
    let (result, inner) ←
      if ← asBool value then execStmt (lineOf line pos) vars yes
      else execStmt (lineAfter (lineOf line pos) yes) vars no
    return (result, vars.leave inner)
  | .loop pos cond body =>
    loopWithin
      (fun vars => do
        asBool (← evalExpr p printName grant invoke ⟨this?, vars⟩ (lineOf line pos) cond))
      (fun vars => execStmt (lineOf line pos) vars body) rounds vars
  | .ret pos value => do
    let value ← evalExpr p printName grant invoke ⟨this?, vars⟩ (lineOf line pos) value
    return (some value, vars)

/-- Runs statements in turn. -/
def execStmts (line : Nat) (vars : Vars) : List Stmt → Run (Option Value × Vars)
  | [] => return (none, vars)
  | s :: rest => do
    let (result, vars) ← execStmt line vars s
    match result with
    | some value => return (some value, vars)
    | none => execStmts (lineAfter line s) vars rest

end

end Exec

/-! ## Calls and programs -/

/-- The line of a function. -/
def startLine (f : FunctionDecl) : Nat := lineOf 0 f.pos

/-- How messages name a function or a method. -/
def procName (this? : Option (String × Value)) (f : FunctionDecl) : String :=
  match this? with
  | some (class_, _) => class_ ++ "_" ++ f.name
  | none => f.name

variable (p : Program) (printName : String) (grant : Nat → Bool)

/-- Calls a function or a method, with calls and loops cut off after so
many rounds. -/
def invoke : Nat → Option (String × Value) → FunctionDecl → List Value → Run Value
  | 0, _, _, _ => .timeout
  | n + 1, this?, f, args => do
    if args.length = f.params.length then
      let (result, _) ← execStmts p printName grant (invoke n) n this? (startLine f)
        (f.params.zip args).reverse f.body.stmts
      match result with
      | some value => return value
      | none => .halt (.missingReturn (procName this? f))
    else
      .stuck

/-- Runs a program from its main function. -/
def runMain (n : Nat) : Result Value :=
  match p.function? "main" with
  | some main => invoke p printName grant n none main [] .start
  | none => .stuck

end ClassLang.Semantics
