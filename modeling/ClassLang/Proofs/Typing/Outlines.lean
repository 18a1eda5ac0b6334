import ClassLang.Proofs.Hierarchy.Outlines
import ClassLang.Proofs.Typing.Contexts
import ClassLang.Proofs.Typing.Programs
/-!
# Typing — a body is checked without the other bodies

Checks read of a program what its outline has: a body is checked over the
outline as over the program, and so are the members of classes and the main
function. So two programs that differ in one body are checked in the same way
but for that body (`checkProgram_eq_outline`).
-/


namespace ClassLang.Typing

open Source (TypeExpr Expr Place Stmt Block VarDecl FunctionDecl ClassDecl Program)

/-- The context with the outline of its program. -/
def Context.outline (ctx : Context) : Context := { ctx with program := ctx.program.outline }

section Checks

variable (ctx : Context)

theorem checkExpr_outline (scope : Scope) (outer : Pos) (e : Expr) :
    checkExpr ctx.outline scope outer e = checkExpr ctx scope outer e :=
  checkExpr_over (ctx.program.sameHeaders_outline .origin).sameTypes scope e outer

theorem checkFunctions_outline (scope : Scope) (outer : Pos) (gs : List FunctionDecl) :
    checkFunctions ctx.outline scope outer gs = checkFunctions ctx scope outer gs :=
  checkFunctions_over (ctx.program.sameHeaders_outline .origin).sameTypes scope outer gs

theorem checkClasses_outline (outer : Pos) (classes : List (ClassDecl × Nat)) :
    checkClasses ctx.outline outer classes = checkClasses ctx outer classes :=
  checkClasses_over (ctx.program.sameHeaders_outline .origin).sameTypes outer classes

/-- The members of classes are checked without the bodies of methods. -/
theorem checkMembers_outline (outer : Pos) (classes : List ClassDecl) :
    checkMembers ctx.outline outer (classes.map ClassDecl.outline) =
      checkMembers ctx outer classes := by
  have hnames (outer : Pos) (methods : List FunctionDecl) (seen : Table String Pos) :
      checkMethodNames outer seen (methods.map FunctionDecl.outline) =
        checkMethodNames outer seen methods := by
    induction methods generalizing seen with
    | nil => rfl
    | cons method rest ih =>
      rw [List.map_cons, checkMethodNames, checkMethodNames]
      simp only [ih]
      rfl
  have hfields (outer : Pos) (fields : List VarDecl) (seen : Table String Pos) :
      checkFields ctx.outline outer seen fields = checkFields ctx outer seen fields := by
    induction fields generalizing seen with
    | nil => rfl
    | cons field rest ih =>
      rw [checkFields, checkFields]
      simp only [ih]
      rfl
  induction classes with
  | nil => rfl
  | cons c rest ih =>
    have hmethods : c.outline.methods = c.methods.map FunctionDecl.outline := rfl
    rw [List.map_cons, checkMembers, checkMembers, ih]
    simp only [hmethods, hnames, hfields]
    rfl

/-- Of the main function it matters only whether it ends in a return. -/
theorem checkMain_outline (fallback : Pos) :
    checkMain ctx.outline fallback = checkMain ctx fallback := by
  have hfunctions : ctx.outline.functions = ctx.functions := rfl
  have hget (i : Nat) : ctx.outline.program.functions[i]? =
      ctx.program.functions[i]?.map FunctionDecl.outline :=
    ctx.program.getElem?_functions_outline i
  have hreturn (g : FunctionDecl) : g.outline.body.stmts.getLast?.any Stmt.isReturn =
      g.body.stmts.getLast?.any Stmt.isReturn :=
    g.body.isReturn_outline
  unfold checkMain
  rw [hfunctions]
  cases ctx.functions.lookup "main" with
  | none => rfl
  | some callee =>
    cases callee with
    | builtin b => rfl
    | method ref => rfl
    | function i =>
      dsimp only
      rw [hget]
      cases ctx.program.functions[i]? with
      | none => rfl
      | some g =>
        simp only [Option.map_some, hreturn]
        rfl

end Checks

section Programs

variable (p : Program) (printName : String) (fallback : Pos)

theorem programContext_outline :
    programContext p.outline printName fallback = (programContext p printName fallback).outline := by
  have h := p.sameHeaders_outline fallback
  rw [programContext, ClassTable.ofProgram_congr h, ClassTable.resolveAll_congr h,
    FunctionTable.ofProgram_congr h]
  rfl

theorem programFindings_outline :
    programFindings p.outline printName fallback = programFindings p printName fallback := by
  have hnames : p.outline.classes.map (·.name) = p.classes.map (·.name) := by
    simp only [Program.outline, List.map_map]
    rfl
  have h := p.sameHeaders_outline fallback
  rw [programFindings, ClassTable.ofProgram_congr h, ClassTable.resolveAll_congr h,
    FunctionTable.ofProgram_congr h, ClassTable.duplicateErrors_congr h, hnames]
  rfl

/-- **A program is checked over its outline**: nothing but the bodies is taken
from the program itself. -/
theorem checkProgram_eq_outline : checkProgram p printName fallback = (do
    checkMembers (programContext p.outline printName fallback) fallback p.outline.classes
    checkMain (programContext p.outline printName fallback) fallback
    checkFunctions (programContext p.outline printName fallback) .empty fallback p.functions
    checkClasses (programContext p.outline printName fallback) fallback p.classes.zipIdx) := by
  rw [checkProgram, programContext_outline, Program.outline, checkMembers_outline, checkMain_outline,
    checkFunctions_outline, checkClasses_outline]

end Programs

end ClassLang.Typing
