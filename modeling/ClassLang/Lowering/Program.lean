import ClassLang.Lowering.Classes
import ClassLang.Lowering.Stmt
/-!
# Lowering — programs

`lowerProgram` declares all classes, functions and methods, lays out the
classes, and then lowers all bodies, which need the layouts. Parameters
and local variables get slots at the front of their body, parameters
because they can be assigned.
-/


namespace ClassLang.Lowering

open Source (Program FunctionDecl ClassDecl VarDecl)
open Typing (Analysis)
open Lower

/-- What can be chosen. -/
structure Options where
  /-- Is a comment written before every statement? -/
  comments : Bool
deriving DecidableEq, Repr

/-- The choices that hold unless others are made. -/
def Options.default : Options := ⟨false⟩

variable (a : Analysis)

/-- Makes a slot for a variable. -/
def makeSlot (var : VarDecl) : Lower Ir.Operand := do
  let ty ← session (irTyOf a var.ty)
  let slot ← emit fun _ => Emit.alloca var.name ty
  modify fun b => { b with locals := b.locals.insert var.id slot }
  return slot

/-- Makes slots for parameters and copies them there; the first parameter
has the index given. -/
def copyParams : Nat → List VarDecl → Lower Unit
  | _, [] => return
  | index, param :: rest => do
    let slot ← makeSlot a param
    emit fun _ => Emit.store slot (.param index)
    copyParams (index + 1) rest

/-- Makes slots for local variables. -/
def makeSlots : List VarDecl → Lower Unit
  | [] => return
  | var :: rest => do
    let _ ← makeSlot a var
    makeSlots rest

/-- Lowers a function or a method; the declared parameters start at the
index `first`. -/
def lowerFunction (options : Options) (first : Nat) (f : FunctionDecl) : Lower Unit := do
  copyParams a first f.params
  makeSlots a f.body.varDecls
  lowerBlock a options.comments f.body

/-- Lowers a function or a method and gives its procedure the body. -/
def lowerBody (options : Options) (inMethod : Bool) (f : FunctionDecl) (proc : Ir.ProcId) :
    Build Unit := do
  let decl ← procDecl proc
  let line := (f.pos.map (·.line)).getD 0
  let body : Body := ⟨← get, .start decl.params decl.ret, [], inMethod, line⟩
  let ((), built) ← (lowerFunction a options (if inMethod then 1 else 0) f).run body
  set built.session
  defineProc proc built.builder

/-- Lowers free functions, each with its index. -/
def lowerFunctions (options : Options) : List (FunctionDecl × Nat) → Build Unit
  | [] => return
  | (f, index) :: rest => do
    let proc ← functionProc index
    lowerBody a options false f proc
    lowerFunctions options rest

/-- Lowers the methods of a class, each with its index. -/
def lowerMethods (options : Options) (id : ClassId) : List (FunctionDecl × Nat) → Build Unit
  | [] => return
  | (f, index) :: rest => do
    let proc ← methodProc ⟨id, index⟩
    lowerBody a options true f proc
    lowerMethods options id rest

/-- Lowers the methods of classes, each with its index. -/
def lowerClasses (options : Options) : List (ClassDecl × Nat) → Build Unit
  | [] => return
  | (c, id) :: rest => do
    lowerMethods a options id c.methods.zipIdx
    lowerClasses options rest

/-- Lowers all that a program declares. -/
def buildProgram (p : Program) (options : Options) : Build Unit := do
  declareClasses p.classes
  declareFunctions a p.functions
  declareMethods a p.classes.zipIdx
  layOutClasses a p
  lowerFunctions a options p.functions.zipIdx
  lowerClasses a options p.classes.zipIdx

/-- Lowers a program with what its analysis found. A program with
errors is refused. -/
def lowerProgram (p : Program) (options : Options) : Except Error Ir.Program := do
  if !a.ok then
    throw (.uncheckedProgram a.errors.length)
  let ((), s) ← (buildProgram a p options).run .start
  return s.ir

end ClassLang.Lowering
