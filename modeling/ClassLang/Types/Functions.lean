import ClassLang.Types.Hierarchy
/-!
# Types — the names of functions

The built-ins come first, then the free functions in the order of their
declarations. A name that is taken keeps its meaning; the later
declaration is an error.
-/


namespace ClassLang

open Source (TypeExpr FunctionDecl Program)

/-- Functions that need no declaration. -/
inductive Builtin
  /-- Prints its argument and returns zero. -/
  | printInt
deriving DecidableEq, Repr

namespace Builtin

/-- All built-ins. -/
def all : List Builtin := [printInt]

/-- The name of a built-in unless another is chosen. -/
def defaultName : Builtin → String
  | printInt => "printInt"

/-- The parameter types of a built-in. -/
def params : Builtin → List TypeExpr
  | printInt => [.int]

/-- The return type of a built-in. -/
def returnType : Builtin → TypeExpr
  | printInt => .int

end Builtin

/-- What a call means. -/
inductive Callee
  | builtin (b : Builtin)
  /-- A free function, by the index of its declaration. -/
  | function (index : Nat)
  | method (ref : MemberRef)
deriving DecidableEq, Repr

/-- The meaning of the names of functions. -/
structure FunctionTable where
  callees : Table String Callee
  /-- The name of the built-in that prints. -/
  printName : String
deriving DecidableEq, Repr

namespace FunctionTable

/-- The callee of a name. -/
def lookup (t : FunctionTable) (name : String) : Option Callee := t.callees.get? name

/-- The name of a built-in in this table. -/
def builtinName (t : FunctionTable) : Builtin → String
  | .printInt => t.printName

/-- Declares functions in turn, each with its index; the errors are for
names that are taken. -/
def declare (p : Program) (fallback : Pos) :
    List (FunctionDecl × Nat) → FunctionTable → FunctionTable × List TypeError
  | [], t => (t, [])
  | (f, index) :: rest, t =>
    match t.lookup f.name with
    | some earlier =>
      let previous := match earlier with
        | .function i => p.functions[i]?.map fun g => g.pos.getD fallback
        | _ => none
      let (last, errors) := declare p fallback rest t
      (last, ⟨.duplicateFunction f.name previous, f.pos.getD fallback⟩ :: errors)
    | none => declare p fallback rest { t with callees := t.callees.insert f.name (.function index) }

/-- The table of a program whose built-in that prints is called
`printName`, and the errors for repeated names; a function without
position is reported at `fallback`. -/
def ofProgram (p : Program) (printName : String) (fallback : Pos) :
    FunctionTable × List TypeError :=
  declare p fallback p.functions.zipIdx ⟨[(printName, .builtin .printInt)], printName⟩

end FunctionTable

end ClassLang
