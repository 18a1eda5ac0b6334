import ClassLang.Proofs.Hierarchy.Headers
import ClassLang.Typing.Analysis
/-!
# Typing — what checks read of a program

Apart from the nodes that they are about, checks read of a program nothing but
the types of its fields, functions and methods. So a check gives the same over
every program that declares the same types (`checkExpr_over`, `checkStmt_over`,
`checkFunctions_over`, `checkClasses_over`).
-/


namespace ClassLang.Typing

open Source (TypeExpr Expr Place Stmt Block VarDecl FunctionDecl ClassDecl Program)

/-- The context with another program. -/
def Context.over (ctx : Context) (q : Program) : Context := { ctx with program := q }

variable {ctx : Context} {q : Program}

/-- The type of a field is read off its declaration. -/
theorem fieldType_over (h : ctx.program.SameTypes q) (ref : MemberRef) :
    fieldType (ctx.over q) ref = fieldType ctx ref := by
  have hfield := h.field ref
  have hprogram : (ctx.over q).program = q := rfl
  have hresolve : resolveType (ctx.over q) = resolveType ctx := rfl
  unfold fieldType
  rw [hprogram, hresolve]
  cases hq : fieldDecl? q ref with
  | none =>
    rw [hq, Option.map_none] at hfield
    rw [Option.map_eq_none_iff.1 hfield.symm]
  | some decl =>
    rw [hq, Option.map_some] at hfield
    obtain ⟨decl', hdecl', hty⟩ := Option.map_eq_some_iff.1 hfield.symm
    rw [hdecl']
    dsimp only
    rw [hty]

/-- So are parameters and result of what is called. -/
theorem signature?_over (h : ctx.program.SameTypes q) (callee : Callee) :
    signature? (ctx.over q) callee = signature? ctx callee := by
  cases callee with
  | builtin b => rfl
  | function i => exact h.function i
  | method ref => exact h.method ref

theorem requireArgs_over (here : Pos) (args : List (Option Pos × Ty)) (params : List TypeExpr) :
    requireArgs (ctx.over q) here args params = requireArgs ctx here args params := by
  induction args generalizing params with
  | nil => rfl
  | cons arg rest ih =>
    cases params with
    | nil => rfl
    | cons param params =>
      rw [requireArgs, requireArgs, ih]
      rfl

/-- **A call is checked against the signature** of what it calls, whatever its body is. -/
theorem apply_over (h : ctx.program.SameTypes q) (here : Pos) (callee : Callee)
    (args : List (Option Pos × Ty)) :
    apply (ctx.over q) here callee args = apply ctx here callee args := by
  rw [apply, apply, signature?_over h]
  simp only [requireArgs_over]
  rfl

mutual

/-- **The check of an expression** reads no more of the program. -/
theorem checkExpr_over (h : ctx.program.SameTypes q) (scope : Scope) : (e : Expr) →
    (outer : Pos) → checkExpr (ctx.over q) scope outer e = checkExpr ctx scope outer e
  | .int _ _, _ | .bool _ _, _ | .null _, _ | .this _, _ | .newObject _ _, _ => rfl
  | .read m place, _ => by
    rw [checkExpr, checkExpr]
    simp only [checkPlace_over h scope place]
  | .arrayLength m array, _ => by
    rw [checkExpr, checkExpr]
    simp only [checkExpr_over h scope array]
  | .unary m op operand, _ => by
    rw [checkExpr, checkExpr]
    simp only [checkExpr_over h scope operand]
    rfl
  | .binary m op lhs rhs, _ => by
    rw [checkExpr, checkExpr]
    simp only [checkExpr_over h scope lhs, checkExpr_over h scope rhs]
    rfl
  | .call m name args, _ => by
    rw [checkExpr, checkExpr]
    simp only [checkArgs_over h scope args, apply_over h]
    rfl
  | .methodCall m receiver method args, _ => by
    rw [checkExpr, checkExpr]
    simp only [checkExpr_over h scope receiver, checkArgs_over h scope args, apply_over h]
    rfl
  | .newArray m elem size, _ => by
    rw [checkExpr, checkExpr]
    simp only [checkExpr_over h scope size]
    rfl

theorem checkPlace_over (h : ctx.program.SameTypes q) (scope : Scope) : (place : Place) →
    (outer : Pos) → checkPlace (ctx.over q) scope outer place = checkPlace ctx scope outer place
  | .var _ _, _ => rfl
  | .field m receiver name, _ => by
    rw [checkPlace, checkPlace]
    simp only [checkExpr_over h scope receiver, fieldType_over h]
    rfl
  | .index m array index, _ => by
    rw [checkPlace, checkPlace]
    simp only [checkExpr_over h scope array, checkExpr_over h scope index]
    rfl

theorem checkArgs_over (h : ctx.program.SameTypes q) (scope : Scope) : (args : List Expr) →
    (outer : Pos) → checkArgs (ctx.over q) scope outer args = checkArgs ctx scope outer args
  | [], _ => rfl
  | e :: rest, _ => by
    rw [checkArgs, checkArgs]
    simp only [checkExpr_over h scope e, checkArgs_over h scope rest]

end

theorem checkCondition_over (h : ctx.program.SameTypes q) (scope : Scope) (outer : Pos)
    (of : ConditionOf) (cond : Expr) :
    checkCondition (ctx.over q) scope outer of cond = checkCondition ctx scope outer of cond := by
  rw [checkCondition, checkCondition, checkExpr_over h]
  rfl

mutual

/-- **Nor does the check of a statement.** -/
theorem checkStmt_over (h : ctx.program.SameTypes q) : (s : Stmt) → (scope : Scope) →
    (outer : Pos) → checkStmt (ctx.over q) scope outer s = checkStmt ctx scope outer s
  | .block pos (.mk stmts bodyPos), scope, outer => by
    rw [checkStmt, checkStmt, checkBlock, checkBlock, checkStmts_over h stmts]
  | .decl _ _, _, _ => rfl
  | .assign pos target value, scope, outer => by
    rw [checkStmt, checkStmt]
    simp only [checkPlace_over h, checkExpr_over h]
    rfl
  | .expr pos value, scope, outer => by
    rw [checkStmt, checkStmt, checkExpr_over h]
  | .ifThen pos cond body, scope, outer => by
    rw [checkStmt, checkStmt]
    simp only [checkCondition_over h, checkStmt_over h body]
  | .ifElse pos cond yes no, scope, outer => by
    rw [checkStmt, checkStmt]
    simp only [checkCondition_over h, checkStmt_over h yes, checkStmt_over h no]
  | .loop pos cond body, scope, outer => by
    rw [checkStmt, checkStmt]
    simp only [checkCondition_over h, checkStmt_over h body]
  | .ret pos value, scope, outer => by
    rw [checkStmt, checkStmt]
    simp only [checkExpr_over h]
    rfl

theorem checkStmts_over (h : ctx.program.SameTypes q) : (stmts : List Stmt) → (scope : Scope) →
    (outer : Pos) → checkStmts (ctx.over q) scope outer stmts = checkStmts ctx scope outer stmts
  | [], _, _ => rfl
  | s :: rest, scope, outer => by
    rw [checkStmts, checkStmts]
    simp only [checkStmt_over h s, checkStmts_over h rest]

end

/-- Parameters are declared by their types alone. -/
theorem declareParams_over (scope : Scope) (outer : Pos) (params : List VarDecl) :
    declareParams (ctx.over q) scope outer params = declareParams ctx scope outer params := by
  induction params generalizing scope with
  | nil => rfl
  | cons param rest ih =>
    rw [declareParams, declareParams]
    simp only [ih]
    rfl

/-- **Functions are checked** one by one, each against what the others declare. -/
theorem checkFunctions_over (h : ctx.program.SameTypes q) (scope : Scope) (outer : Pos)
    (gs : List FunctionDecl) :
    checkFunctions (ctx.over q) scope outer gs = checkFunctions ctx scope outer gs := by
  have hfunction (g : FunctionDecl) :
      checkFunction (ctx.over q) scope outer g = checkFunction ctx scope outer g := by
    rw [checkFunction, checkFunction]
    cases g.body with
    | mk stmts pos =>
      simp only [declareParams_over, checkBlock, checkStmts_over h]
      rfl
  induction gs with
  | nil => rfl
  | cons g rest ih => rw [checkFunctions, checkFunctions, hfunction, ih]

/-- **So are classes**: the fields that are visible in one come with their declared types. -/
theorem checkClasses_over (h : ctx.program.SameTypes q) (outer : Pos)
    (classes : List (ClassDecl × Nat)) :
    checkClasses (ctx.over q) outer classes = checkClasses ctx outer classes := by
  have hfields (scope : Scope) (fields : Table String MemberRef) :
      declareFields (ctx.over q) scope fields = declareFields ctx scope fields := by
    induction fields generalizing scope with
    | nil => rfl
    | cons field rest ih => simp only [declareFields, fieldType_over h, ih]
  have hclass (c : ClassDecl × Nat) :
      checkClass (ctx.over q) outer c.2 c.1 = checkClass ctx outer c.2 c.1 := by
    rw [checkClass, checkClass]
    simp only [hfields, checkFunctions_over h]
    rfl
  induction classes with
  | nil => rfl
  | cons c rest ih =>
    rw [checkClasses, checkClasses, ih]
    exact congrArg (· >>= _) (hclass c)

end ClassLang.Typing
