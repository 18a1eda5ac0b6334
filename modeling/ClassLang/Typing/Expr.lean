import ClassLang.Typing.Findings
/-!
# Typing — expressions and places

Every expression and place is given a type, also where something is
wrong; what failed has the type `any` and leads to no further errors. An
error is reported at the node it is about, or at the nearest node around
it that has a position: the parameter `outer` is the position of the
nearest such node above.
-/


namespace ClassLang.Typing

open Source (NodeId TypeExpr Mark Expr Place UnaryOp BinaryOp)

/-- Types a node: infers its type with the position that errors about the
node are reported at, and notes the type. -/
def typed (m : Mark) (outer : Pos) (infer : Pos → Check Ty) : Check Ty := do
  let ty ← infer (m.pos.getD outer)
  noteType m.id ty
  return ty

/-- The type of operand and result of an operator. -/
def unaryType : UnaryOp → Ty
  | .minus => .int
  | .negate => .bool

/-- The types of the operands and of the result of an operator; none if
the operands only have to be comparable. -/
def binaryTypes? : BinaryOp → Option (Ty × Ty)
  | .plus | .minus | .times | .div => some (.int, .int)
  | .less => some (.int, .bool)
  | .and => some (.bool, .bool)
  | .equals => none

variable (ctx : Context)

/-- Reports an expression whose type `found` does not fit. -/
def require (expected found : Ty) (pos : Pos) : Check Unit := do
  unless ← isSubtype ctx found expected do
    report pos (.mismatch (← shown expected) (← shown found))

/-- Reports the arguments that do not fit the parameters. -/
def requireArgs (here : Pos) : List (Option Pos × Ty) → List TypeExpr → Check Unit
  | (pos, found) :: args, param :: params => do
    let expected ← resolveType ctx param
    require ctx expected.gracious found (pos.getD here)
    requireArgs here args params
  | _, _ => return

/-- The parameter types and the return type of a callee. -/
def signature? : Callee → Option (List TypeExpr × TypeExpr)
  | .builtin b => some (b.params, b.returnType)
  | .function i => ctx.program.functions[i]?.map fun f => (f.params.map (·.ty), f.returnType)
  | .method ref => (methodDecl? ctx.program ref).map fun f => (f.params.map (·.ty), f.returnType)

/-- The type of a call whose arguments have positions and types: the
callee's return type, after the arguments were matched with its
parameters. -/
def apply (here : Pos) (callee : Callee) (args : List (Option Pos × Ty)) : Check Ty :=
  match signature? ctx callee with
  | none => return .any
  | some (params, returnType) => do
    if args.length ≠ params.length then
      report here (.arityMismatch params.length args.length)
    else
      requireArgs ctx here args params
    return (← resolveType ctx returnType).gracious

mutual

/-- Checks an expression; its type. -/
def checkExpr (scope : Scope) (outer : Pos) : Expr → Check Ty
  | .int m _ => typed m outer fun _ => return .int
  | .bool m _ => typed m outer fun _ => return .bool
  | .null m => typed m outer fun _ => return .null
  | .this m => typed m outer fun here => do
    if scope.thisTy = .any then
      report here .thisOutsideMethod
    return scope.thisTy
  | .read m place => typed m outer fun here => checkPlace scope here place
  | .arrayLength m array => typed m outer fun here => do
    let found ← checkExpr scope here array
    match found with
    | .array _ | .any => return .int
    | _ =>
      report (array.mark.pos.getD here) (.notAnArray (← shown found))
      return .int
  | .unary m op operand => typed m outer fun here => do
    let found ← checkExpr scope here operand
    require ctx (unaryType op) found (operand.mark.pos.getD here)
    return unaryType op
  | .binary m op lhs rhs => typed m outer fun here =>
    match binaryTypes? op with
    | some (operand, result) => do
      let l ← checkExpr scope here lhs
      require ctx operand l (lhs.mark.pos.getD here)
      let r ← checkExpr scope here rhs
      require ctx operand r (rhs.mark.pos.getD here)
      return result
    | none => do
      let l ← checkExpr scope here lhs
      let r ← checkExpr scope here rhs
      unless (← isSubtype ctx l r) || (← isSubtype ctx r l) do
        report here (.notComparable (← shown l) (← shown r))
      return .bool
  | .call m name args => typed m outer fun here => do
    let args ← checkArgs scope here args
    match ctx.functions.lookup name with
    | some callee =>
      noteCall m.id callee
      apply ctx here callee args
    | none =>
      report here (.unknownFunction name)
      return .any
  | .methodCall m receiver method args => typed m outer fun here => do
    let found ← checkExpr scope here receiver
    let args ← checkArgs scope here args
    match found with
    | .any => return .any
    | .class_ id =>
      match (ctx.classes.info id).bind (·.method? method) with
      | some ref =>
        noteCall m.id (.method ref)
        apply ctx here (.method ref) args
      | none =>
        report here (.noSuchMethod method (← shown found))
        return .any
    | _ =>
      report here .notAClassObject
      return .any
  | .newObject m name => typed m outer fun here =>
    match ctx.classes.lookup name with
    | some id => return .class_ id
    | none => do
      report here (.unresolvedType name .plain)
      return .any
  | .newArray m elem size => typed m outer fun here => do
    let found ← checkExpr scope here size
    require ctx .int found (size.mark.pos.getD here)
    let elem ← resolveReported ctx elem .plain here
    arrayOf elem

/-- Checks a place; its type. -/
def checkPlace (scope : Scope) (outer : Pos) : Place → Check Ty
  | .var m name => typed m outer fun here =>
    match scope.lookup name with
    | some var => do
      noteVar m.id var.decl
      return var.ty
    | none => do
      report here (.unknownVariable name)
      return .any
  | .field m receiver name => typed m outer fun here => do
    let found ← checkExpr scope here receiver
    match found with
    | .any => return .any
    | .class_ id =>
      match (ctx.classes.info id).bind (·.field? name) with
      | some ref =>
        noteField m.id ref
        fieldType ctx ref
      | none =>
        report (receiver.mark.pos.getD here) (.noSuchField name (← shown found))
        return .any
    | _ =>
      report (receiver.mark.pos.getD here) .notAClassObject
      return .any
  | .index m array index => typed m outer fun here => do
    let found ← checkExpr scope here array
    let i ← checkExpr scope here index
    require ctx .int i (index.mark.pos.getD here)
    match found with
    | .array id => return (← get).table.elem id
    | .any => return .any
    | _ =>
      report here (.indexNotArray (← shown found))
      return .any

/-- Checks arguments; their positions and types. -/
def checkArgs (scope : Scope) (outer : Pos) : List Expr → Check (List (Option Pos × Ty))
  | [] => return []
  | e :: rest => do
    let ty ← checkExpr scope outer e
    let tys ← checkArgs scope outer rest
    return (e.mark.pos, ty) :: tys

end

end ClassLang.Typing
