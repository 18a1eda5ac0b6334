import ClassLang.Types.Functions
import ClassLang.Typing.Scope
/-!
# Typing — what checking finds

Checking reads a `Context` and writes `Findings`: the errors so far, the
interned types, and the tables that say for each node what it is. A check
is a function on findings with a result.
-/


namespace ClassLang.Typing

open Source (NodeId TypeExpr Program)

/-- What checks read: the program, its resolved classes and the names of
its functions. -/
structure Context where
  program : Program
  classes : ClassTable
  functions : FunctionTable

/-- What checks write. -/
structure Findings where
  errors : List TypeError
  table : TypeTable
  /-- The types of expressions and places. -/
  types : Table NodeId Ty
  /-- The callees of calls. -/
  calls : Table NodeId Callee
  /-- The declarations of bare names. -/
  vars : Table NodeId DeclRef
  /-- The fields of field accesses. -/
  fields : Table NodeId MemberRef
deriving DecidableEq, Repr

/-- Findings to start from. -/
def Findings.ofTable (table : TypeTable) (errors : List TypeError) : Findings :=
  ⟨errors, table, [], [], [], []⟩

/-- A function on findings with a result. -/
abbrev Check := StateM Findings

/-- Notes an error. -/
def report (pos : Pos) (fault : TypeFault) : Check Unit :=
  modify fun f => { f with errors := f.errors ++ [⟨fault, pos⟩] }

/-- How a type is written. -/
def shown (ty : Ty) : Check String := do
  return (← get).table.text ty

/-- The type that is written as `ty`, with the array types in it interned;
invalid if a class in it is unknown. -/
def resolve (classes : ClassTable) : TypeExpr → TypeTable → Ty × TypeTable
  | .int, t => (.int, t)
  | .bool, t => (.bool, t)
  | .class_ name, t => ((classes.lookup name).elim .invalid .class_, t)
  | .array elem, t =>
    match resolve classes elem t with
    | (.invalid, t) => (.invalid, t)
    | (elem, t) => t.arrayOf elem

variable (ctx : Context)

/-- The type that is written as `ty`. -/
def resolveType (ty : TypeExpr) : Check Ty :=
  modifyGet fun f =>
    let (found, table) := resolve ctx.classes ty f.table
    (found, { f with table := table })

/-- The type that is written as `ty`; what does not resolve is reported
and fits everywhere. -/
def resolveReported (ty : TypeExpr) (role : TypeRole) (pos : Pos) : Check Ty := do
  let found ← resolveType ctx ty
  if found.isInvalid then
    report pos (.unresolvedType ty.text role)
  return found.gracious

/-- The array type of an element type. -/
def arrayOf (elem : Ty) : Check Ty :=
  modifyGet fun f =>
    let (ty, table) := f.table.arrayOf elem
    (ty, { f with table := table })

/-- Does a value of type `sub` fit where `sup` is expected? -/
def isSubtype (sub sup : Ty) : Check Bool := do
  return ctx.classes.isSubtype (← get).table sub sup

/-- The type of a field. -/
def fieldType (ref : MemberRef) : Check Ty :=
  match fieldDecl? ctx.program ref with
  | some decl => return (← resolveType ctx decl.ty).gracious
  | none => return .any

/-- Notes the type of a node. -/
def noteType (id : NodeId) (ty : Ty) : Check Unit :=
  modify fun f => { f with types := f.types.insert id ty }

/-- Notes the callee of a call. -/
def noteCall (id : NodeId) (callee : Callee) : Check Unit :=
  modify fun f => { f with calls := f.calls.insert id callee }

/-- Notes the declaration of a bare name. -/
def noteVar (id : NodeId) (decl : DeclRef) : Check Unit :=
  modify fun f => { f with vars := f.vars.insert id decl }

/-- Notes the field of a field access. -/
def noteField (id : NodeId) (ref : MemberRef) : Check Unit :=
  modify fun f => { f with fields := f.fields.insert id ref }

end ClassLang.Typing
