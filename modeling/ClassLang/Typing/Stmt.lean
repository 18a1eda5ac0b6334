import ClassLang.Typing.Expr
/-!
# Typing — statements and declarations

A declaration adds a name to the scope of the statements after it; blocks,
branches and loop bodies have scopes of their own. A local variable may
hide a field, but no parameter and no other local variable that is in
scope.
-/


namespace ClassLang.Typing

open Source (VarDecl Expr Stmt Block FunctionDecl ClassDecl)

variable (ctx : Context)

/-- Checks the condition of a statement. -/
def checkCondition (scope : Scope) (outer : Pos) (of : ConditionOf) (cond : Expr) :
    Check Unit := do
  let found ← checkExpr ctx scope outer cond
  unless ← isSubtype ctx found .bool do
    report (cond.mark.pos.getD outer) (.conditionNotBool of (← shown found))

/-- Declares a variable whose type has the role; a taken name is reported
as `taken` and keeps its meaning. The scope with the variable. -/
def declareVar (scope : Scope) (outer : Pos) (role : TypeRole) (taken : String → TypeFault)
    (var : VarDecl) : Check Scope := do
  let here := var.pos.getD outer
  let ty ← resolveReported ctx var.ty role here
  match scope.lookupVar var.name with
  | some _ =>
    report here (taken var.name)
    return scope
  | none => return scope.putVar var.name ⟨ty, .local_ var.id⟩

mutual

/-- Checks a statement; the scope after it. -/
def checkStmt (scope : Scope) (outer : Pos) : Stmt → Check Scope
  | .block pos body => do
    checkBlock scope (pos.getD outer) body
    return scope
  | .decl pos var => declareVar ctx scope (pos.getD outer) .plain .duplicateVariable var
  | .assign pos target value => do
    let here := pos.getD outer
    let expected ← checkPlace ctx scope here target
    let found ← checkExpr ctx scope here value
    unless ← isSubtype ctx found expected do
      report here (.assignMismatch (← shown expected) (← shown found))
    return scope
  | .expr pos value => do
    let _ ← checkExpr ctx scope (pos.getD outer) value
    return scope
  | .ifThen pos cond body => do
    let here := pos.getD outer
    checkCondition ctx scope here .if_ cond
    let _ ← checkStmt scope.push here body
    return scope
  | .ifElse pos cond yes no => do
    let here := pos.getD outer
    checkCondition ctx scope here .if_ cond
    let _ ← checkStmt scope.push here yes
    let _ ← checkStmt scope.push here no
    return scope
  | .loop pos cond body => do
    let here := pos.getD outer
    checkCondition ctx scope here .while_ cond
    let _ ← checkStmt scope.push here body
    return scope
  | .ret pos value => do
    let here := pos.getD outer
    let found ← checkExpr ctx scope here value
    unless ← isSubtype ctx found scope.returnTy do
      report here (.returnMismatch (← shown scope.returnTy) (← shown found))
    return scope

/-- Checks a block. -/
def checkBlock (scope : Scope) (outer : Pos) : Block → Check Unit
  | .mk stmts pos => checkStmts scope.push (pos.getD outer) stmts

/-- Checks statements in turn. -/
def checkStmts (scope : Scope) (outer : Pos) : List Stmt → Check Unit
  | [] => return
  | s :: rest => do
    let scope ← checkStmt scope outer s
    checkStmts scope outer rest

end

/-- Declares parameters; the scope with them. -/
def declareParams (scope : Scope) (outer : Pos) : List VarDecl → Check Scope
  | [] => return scope
  | param :: rest => do
    let scope ← declareVar ctx scope outer .parameter .duplicateParam param
    declareParams scope outer rest

/-- Checks a function or a method; `scope` holds the names around it. -/
def checkFunction (scope : Scope) (outer : Pos) (f : FunctionDecl) : Check Unit := do
  let here := f.pos.getD outer
  let returnTy ← resolveReported ctx f.returnType .return_ here
  let scope ← declareParams ctx (scope.setReturn returnTy) here f.params
  checkBlock ctx scope here f.body

/-- Checks functions in turn. -/
def checkFunctions (scope : Scope) (outer : Pos) : List FunctionDecl → Check Unit
  | [] => return
  | f :: rest => do
    checkFunction ctx scope outer f
    checkFunctions scope outer rest

/-- Declares the visible fields of a class; the scope with them. -/
def declareFields (scope : Scope) : List (String × MemberRef) → Check Scope
  | [] => return scope
  | (name, ref) :: rest => do
    let ty ← fieldType ctx ref
    declareFields (scope.putField name ⟨ty, .field ref⟩) rest

/-- Checks the methods of a class. -/
def checkClass (outer : Pos) (id : ClassId) (c : ClassDecl) : Check Unit := do
  let visible := ((ctx.classes.info id).map (·.fields)).getD []
  let scope ← declareFields ctx (Scope.empty.setThis (.class_ id)) visible
  checkFunctions ctx scope.push (c.pos.getD outer) c.methods

/-- Checks classes in turn, each with its index. -/
def checkClasses (outer : Pos) : List (ClassDecl × Nat) → Check Unit
  | [] => return
  | (c, id) :: rest => do
    checkClass ctx outer id c
    checkClasses outer rest

/-- Checks the types of fields and that no name repeats; `seen` holds the
names before, with their positions. -/
def checkFields (outer : Pos) : Table String Pos → List VarDecl → Check Unit
  | _, [] => return
  | seen, field :: rest => do
    let here := field.pos.getD outer
    let _ ← resolveReported ctx field.ty .plain here
    match seen.get? field.name with
    | some previous =>
      report here (.duplicateField field.name previous)
      checkFields outer seen rest
    | none => checkFields outer (seen.insert field.name here) rest

/-- Checks that no name of a method repeats. -/
def checkMethodNames (outer : Pos) : Table String Pos → List FunctionDecl → Check Unit
  | _, [] => return
  | seen, method :: rest => do
    let here := method.pos.getD outer
    match seen.get? method.name with
    | some previous =>
      report here (.duplicateMethod method.name previous)
      checkMethodNames outer seen rest
    | none => checkMethodNames outer (seen.insert method.name here) rest

/-- Checks the declarations of the members of classes. -/
def checkMembers (outer : Pos) : List ClassDecl → Check Unit
  | [] => return
  | c :: rest => do
    let here := c.pos.getD outer
    checkFields ctx here [] c.fields
    checkMethodNames here [] c.methods
    checkMembers outer rest

/-- Checks that there is a function `main` that takes nothing, returns an
integer and ends with a return. -/
def checkMain (fallback : Pos) : Check Unit := do
  let main := match ctx.functions.lookup "main" with
    | some (.function i) => ctx.program.functions[i]?
    | _ => none
  match main with
  | none => report fallback .missingMain
  | some main =>
    let here := main.pos.getD fallback
    unless (← resolveType ctx main.returnType) = .int do
      report here .mainReturnType
    match main.params with
    | [] => pure ()
    | first :: _ => report (first.pos.getD here) .mainHasParams
    unless main.body.stmts.getLast?.any Stmt.isReturn do
      report here .mainMissingReturn

end ClassLang.Typing
