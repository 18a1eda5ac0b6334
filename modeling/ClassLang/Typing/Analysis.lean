import ClassLang.Typing.Stmt
/-!
# Typing — the analysis of a program

`analyze` resolves the names and the hierarchy of a program, checks its
members, its main function and all bodies, and keeps what it found: the
errors, and for every node what later stages need to know.
-/


namespace ClassLang.Typing

open Source (NodeId TypeExpr Program)

/-- What can be chosen. -/
structure Options where
  /-- The name of the built-in that prints. -/
  printName : String
deriving DecidableEq, Repr

/-- The choices that hold unless others are made. -/
def Options.default : Options := ⟨Builtin.printInt.defaultName⟩

/-- What is known of a program. -/
structure Analysis where
  findings : Findings
  classes : ClassTable
  functions : FunctionTable
deriving DecidableEq, Repr

namespace Analysis

variable (a : Analysis)

/-- The errors in the order in which they were found. -/
def errors : List TypeError := a.findings.errors

/-- Is the program free of errors? -/
def ok : Bool := a.errors.isEmpty

/-- The type of an expression or place. -/
def type? (id : NodeId) : Option Ty := a.findings.types.get? id

/-- The callee of a call. -/
def callee? (id : NodeId) : Option Callee := a.findings.calls.get? id

/-- The declaration of a bare name. -/
def decl? (id : NodeId) : Option DeclRef := a.findings.vars.get? id

/-- The field of a field access. -/
def field? (id : NodeId) : Option MemberRef := a.findings.fields.get? id

/-- How a type is written. -/
def text (ty : Ty) : String := a.findings.table.text ty

/-- The type that is written as `ty`. Nothing is interned: an array type is
found if it occurs in the program. -/
def lookupType : TypeExpr → Option Ty
  | .int => some .int
  | .bool => some .bool
  | .class_ name => (a.classes.lookup name).map .class_
  | .array elem => (lookupType elem).bind a.findings.table.lookupArray

end Analysis

/-- Analyses a program. -/
def analyze (p : Program) (options : Options) : Analysis :=
  let fallback := p.pos.getD .origin
  let (functions, functionErrors) := FunctionTable.ofProgram p options.printName fallback
  let (classes, hierarchyErrors) := (ClassTable.ofProgram p).resolveAll p fallback
  let errors := functionErrors ++ ClassTable.duplicateErrors p fallback ++ hierarchyErrors
  let ctx : Context := ⟨p, classes, functions⟩
  let check : Check Unit := do
    checkMembers ctx fallback p.classes
    checkMain ctx fallback
    checkFunctions ctx .empty fallback p.functions
    checkClasses ctx fallback p.classes.zipIdx
  let (_, findings) := check.run (.ofTable (.ofClassNames (p.classes.map (·.name))) errors)
  ⟨findings, classes, functions⟩

end ClassLang.Typing
