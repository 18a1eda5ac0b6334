import ClassLang.Proofs.Source.Positioned
import ClassLang.Proofs.Typing.Contexts
import ClassLang.Proofs.Typing.Programs
/-!
# Typing — where errors are reported

An error is reported at its node, or else at the nearest node around it that
has a position: the analysis finds in a program what it finds in the program
with all positions (`analyze_positioned`).
-/


namespace ClassLang

open Source (TypeExpr Mark Expr Place Stmt Block VarDecl FunctionDecl ClassDecl Program)

namespace Typing

variable (ctx : Context)

/-! ## Expressions and places -/

/-- An argument with a position, or else the one around it. -/
def positionedArg (outer : Pos) (arg : Option Pos × Ty) : Option Pos × Ty :=
  (some (arg.1.getD outer), arg.2)

theorem requireArgs_positioned (here : Pos) (args : List (Option Pos × Ty))
    (params : List TypeExpr) : requireArgs ctx here (args.map (positionedArg here)) params =
      requireArgs ctx here args params := by
  induction args generalizing params with
  | nil => rfl
  | cons arg rest ih =>
    cases params with
    | nil => rfl
    | cons param params =>
      rw [List.map_cons, positionedArg, requireArgs, requireArgs]
      simp only [ih, Option.getD_some]

theorem apply_positioned (here : Pos) (callee : Callee) (args : List (Option Pos × Ty)) :
    apply ctx here callee (args.map (positionedArg here)) = apply ctx here callee args := by
  rw [apply, apply]
  simp only [requireArgs_positioned, List.length_map]

mutual

/-- **An expression with all positions** is checked like the expression, at any
position. -/
theorem checkExpr_positioned (scope : Scope) (outer' : Pos) : (e : Expr) → (outer : Pos) →
    checkExpr ctx scope outer' (e.positioned outer) = checkExpr ctx scope outer e
  | .int _ _, _ | .bool _ _, _ | .null _, _ | .this _, _ | .newObject _ _, _ => rfl
  | .read m place, outer => by
    simp only [Expr.positioned, checkExpr, typed, Mark.positioned, Option.getD_some,
      checkPlace_positioned scope _ place]
  | .arrayLength m array, outer => by
    simp only [Expr.positioned, checkExpr, typed, Mark.positioned, Option.getD_some,
      Expr.mark_positioned, checkExpr_positioned scope _ array]
  | .unary m op operand, outer => by
    simp only [Expr.positioned, checkExpr, typed, Mark.positioned, Option.getD_some,
      Expr.mark_positioned, checkExpr_positioned scope _ operand]
  | .binary m op lhs rhs, outer => by
    simp only [Expr.positioned, checkExpr, typed, Mark.positioned, Option.getD_some,
      Expr.mark_positioned, checkExpr_positioned scope _ lhs, checkExpr_positioned scope _ rhs]
  | .call m name args, outer => by
    simp only [Expr.positioned, checkExpr, typed, Mark.positioned, Option.getD_some,
      checkArgs_positioned scope _ args, map_eq_pure_bind, bind_assoc, pure_bind, apply_positioned]
  | .methodCall m receiver method args, outer => by
    simp only [Expr.positioned, checkExpr, typed, Mark.positioned, Option.getD_some,
      checkExpr_positioned scope _ receiver, checkArgs_positioned scope _ args, map_eq_pure_bind,
      bind_assoc, pure_bind, apply_positioned]
  | .newArray m elem size, outer => by
    simp only [Expr.positioned, checkExpr, typed, Mark.positioned, Option.getD_some,
      Expr.mark_positioned, checkExpr_positioned scope _ size]

theorem checkPlace_positioned (scope : Scope) (outer' : Pos) : (place : Place) → (outer : Pos) →
    checkPlace ctx scope outer' (place.positioned outer) = checkPlace ctx scope outer place
  | .var _ _, _ => rfl
  | .field m receiver name, outer => by
    simp only [Place.positioned, checkPlace, typed, Mark.positioned, Option.getD_some,
      Expr.mark_positioned, checkExpr_positioned scope _ receiver]
  | .index m array index, outer => by
    simp only [Place.positioned, checkPlace, typed, Mark.positioned, Option.getD_some,
      Expr.mark_positioned, checkExpr_positioned scope _ array, checkExpr_positioned scope _ index]

theorem checkArgs_positioned (scope : Scope) (outer' : Pos) : (args : List Expr) →
    (outer : Pos) → checkArgs ctx scope outer' (Source.positionedArgs outer args) =
      List.map (positionedArg outer) <$> checkArgs ctx scope outer args
  | [], _ => rfl
  | arg :: args, outer => by
    simp only [Source.positionedArgs, checkArgs, checkExpr_positioned scope _ arg,
      checkArgs_positioned scope _ args, Expr.mark_positioned, Mark.positioned, map_eq_pure_bind,
      bind_assoc, pure_bind, List.map_cons, positionedArg]

end

/-! ## Statements -/

theorem checkCondition_positioned (scope : Scope) (outer outer' : Pos) (of : ConditionOf)
    (cond : Expr) : checkCondition ctx scope outer' of (cond.positioned outer) =
      checkCondition ctx scope outer of cond := by
  simp only [checkCondition, checkExpr_positioned, Expr.mark_positioned, Mark.positioned,
    Option.getD_some]

theorem declareVar_positioned (scope : Scope) (outer outer' : Pos) (role : TypeRole)
    (taken : String → TypeFault) (var : VarDecl) :
    declareVar ctx scope outer' role taken (var.positioned outer) =
      declareVar ctx scope outer role taken var := by
  simp only [declareVar, VarDecl.positioned, Option.getD_some]

mutual

/-- **A statement with all positions** is checked like the statement, at any
position. -/
theorem checkStmt_positioned : (s : Stmt) → (scope : Scope) → (outer outer' : Pos) →
    checkStmt ctx scope outer' (s.positioned outer) = checkStmt ctx scope outer s
  | .block pos (.mk stmts bodyPos), scope, outer, outer' => by
    simp only [Stmt.positioned, Block.positioned, checkStmt, checkBlock, Option.getD_some,
      checkStmts_positioned stmts]
  | .decl pos var, scope, outer, outer' => by
    simp only [Stmt.positioned, checkStmt, Option.getD_some, declareVar_positioned]
  | .assign pos target value, scope, outer, outer' => by
    simp only [Stmt.positioned, checkStmt, Option.getD_some, checkPlace_positioned,
      checkExpr_positioned]
  | .expr pos value, scope, outer, outer' => by
    simp only [Stmt.positioned, checkStmt, Option.getD_some, checkExpr_positioned]
  | .ifThen pos cond body, scope, outer, outer' => by
    simp only [Stmt.positioned, checkStmt, Option.getD_some, checkCondition_positioned,
      checkStmt_positioned body]
  | .ifElse pos cond yes no, scope, outer, outer' => by
    simp only [Stmt.positioned, checkStmt, Option.getD_some, checkCondition_positioned,
      checkStmt_positioned yes, checkStmt_positioned no]
  | .loop pos cond body, scope, outer, outer' => by
    simp only [Stmt.positioned, checkStmt, Option.getD_some, checkCondition_positioned,
      checkStmt_positioned body]
  | .ret pos value, scope, outer, outer' => by
    simp only [Stmt.positioned, checkStmt, Option.getD_some, checkExpr_positioned]

theorem checkStmts_positioned : (stmts : List Stmt) → (scope : Scope) → (outer outer' : Pos) →
    checkStmts ctx scope outer' (Source.positionedStmts outer stmts) =
      checkStmts ctx scope outer stmts
  | [], _, _, _ => rfl
  | s :: rest, scope, outer, outer' => by
    simp only [Source.positionedStmts, checkStmts, checkStmt_positioned s,
      checkStmts_positioned rest]

end

/-! ## Declarations -/

theorem declareParams_positioned (scope : Scope) (outer outer' : Pos) (params : List VarDecl) :
    declareParams ctx scope outer' (params.map (·.positioned outer)) =
      declareParams ctx scope outer params := by
  induction params generalizing scope with
  | nil => rfl
  | cons param rest ih =>
    simp only [List.map_cons, declareParams, declareVar_positioned, ih]

theorem checkFunction_positioned (scope : Scope) (outer outer' : Pos) (f : FunctionDecl) :
    checkFunction ctx scope outer' (f.positioned outer) = checkFunction ctx scope outer f := by
  cases hbody : f.body with
  | mk stmts pos =>
    simp only [checkFunction, FunctionDecl.positioned, hbody, Block.positioned, checkBlock,
      Option.getD_some, declareParams_positioned, checkStmts_positioned]

theorem checkFunctions_positioned (scope : Scope) (outer outer' : Pos) (fs : List FunctionDecl) :
    checkFunctions ctx scope outer' (fs.map (·.positioned outer)) =
      checkFunctions ctx scope outer fs := by
  induction fs with
  | nil => rfl
  | cons f rest ih =>
    rw [List.map_cons, checkFunctions, checkFunctions, checkFunction_positioned, ih]

theorem checkClasses_positioned (outer outer' : Pos) (cs : List ClassDecl) (k : Nat) :
    checkClasses ctx outer' ((cs.map (·.positioned outer)).zipIdx k) =
      checkClasses ctx outer (cs.zipIdx k) := by
  induction cs generalizing k with
  | nil => rfl
  | cons c rest ih =>
    rw [List.map_cons, List.zipIdx_cons, List.zipIdx_cons, checkClasses, checkClasses, ih]
    simp only [checkClass, ClassDecl.positioned, Option.getD_some, checkFunctions_positioned]

theorem checkFields_positioned (q : Program) (outer outer' : Pos) (fields : List VarDecl)
    (seen : Table String Pos) :
    checkFields (ctx.over q) outer' seen (fields.map (·.positioned outer)) =
      checkFields ctx outer seen fields := by
  induction fields generalizing seen with
  | nil => rfl
  | cons field rest ih =>
    rw [List.map_cons, checkFields, checkFields]
    simp only [ih]
    rfl

theorem checkMethodNames_positioned (outer outer' : Pos) (methods : List FunctionDecl)
    (seen : Table String Pos) :
    checkMethodNames outer' seen (methods.map (·.positioned outer)) =
      checkMethodNames outer seen methods := by
  induction methods generalizing seen with
  | nil => rfl
  | cons method rest ih =>
    rw [List.map_cons, checkMethodNames, checkMethodNames]
    simp only [ih]
    rfl

theorem checkMembers_positioned (q : Program) (outer outer' : Pos) (cs : List ClassDecl) :
    checkMembers (ctx.over q) outer' (cs.map (·.positioned outer)) =
      checkMembers ctx outer cs := by
  induction cs with
  | nil => rfl
  | cons c rest ih =>
    rw [List.map_cons, checkMembers, checkMembers, ih]
    simp only [ClassDecl.positioned, Option.getD_some, checkFields_positioned,
      checkMethodNames_positioned]

/-- The position of the main function is that of the program if it has none. -/
theorem checkMain_positioned : checkMain (ctx.over ctx.program.positioned)
    (ctx.program.pos.getD .origin) = checkMain ctx (ctx.program.pos.getD .origin) := by
  have hget (i : Nat) : ctx.program.positioned.functions[i]? =
      ctx.program.functions[i]?.map (·.positioned (ctx.program.pos.getD .origin)) :=
    List.getElem?_map ..
  unfold checkMain
  rw [Context.over]
  cases ctx.functions.lookup "main" with
  | none => rfl
  | some callee =>
    cases callee with
    | builtin b => rfl
    | method ref => rfl
    | function i =>
      dsimp only
      rw [hget]
      cases ctx.program.functions[i]? with
      | none => rfl
      | some main =>
        have hparams : (main.positioned (ctx.program.pos.getD .origin)).params =
            main.params.map (·.positioned (main.pos.getD (ctx.program.pos.getD .origin))) := rfl
        have hreturn : (main.positioned (ctx.program.pos.getD .origin)).body.stmts.getLast?.any
            Stmt.isReturn = main.body.stmts.getLast?.any Stmt.isReturn :=
          main.body.isReturn_positioned _
        simp only [Option.map_some, hreturn, hparams]
        cases main.params <;> rfl

end Typing

/-! ## Programs -/

namespace Source.Program

/-- **Methods are placed** as seen from a class that may override them: if one with
a superclass has a position, each method has one, or else its class. -/
def MethodsPlaced (p : Program) : Prop :=
  ∀ c ∈ p.classes, c.extends? ≠ none → c.pos ≠ none →
    ∀ d ∈ p.classes, ∀ m ∈ d.methods, m.pos = none → d.pos ≠ none

/-- A class that may override methods, and has a position, finds one for each method. -/
theorem MethodsPlaced.methodPos?_ne_none {p : Program} (h : p.MethodsPlaced) {c : ClassDecl}
    (hc : c ∈ p.classes) (hextends : c.extends? ≠ none) (hpos : c.pos ≠ none) {ref : MemberRef}
    {m : FunctionDecl} (hm : methodDecl? p ref = some m) : p.methodPos? ref ≠ none := by
  obtain ⟨d, hd, hmem⟩ := Option.bind_eq_some_iff.1 hm
  have hplaced := h c hc hextends hpos d (List.mem_of_getElem? hd) m (List.mem_of_getElem? hmem)
  rw [methodPos?, hm, hd]
  show (m.pos <|> d.pos) ≠ none
  cases hmpos : m.pos with
  | some pos => exact Option.some_ne_none pos
  | none => exact hplaced hmpos

theorem getElem?_classes_positioned (p : Program) (id : ClassId) :
    p.positioned.classes[id]? = p.classes[id]?.map (·.positioned (p.pos.getD .origin)) :=
  List.getElem?_map ..

/-- In a program with all positions, a method is at its own, that of its class, or
that of the program. -/
theorem methodPos?_positioned (p : Program) (ref : MemberRef) : p.positioned.methodPos? ref =
    (methodDecl? p ref).map fun _ => (p.methodPos? ref).getD (p.pos.getD .origin) := by
  simp only [methodPos?, methodDecl?, getElem?_classes_positioned]
  cases p.classes[ref.class_]? with
  | none => rfl
  | some c =>
    have hmethods : (c.positioned (p.pos.getD .origin)).methods =
        c.methods.map (·.positioned (c.pos.getD (p.pos.getD .origin))) := rfl
    simp only [Option.map_some, Option.bind_some, hmethods, List.getElem?_map]
    cases c.methods[ref.index]? with
    | none => rfl
    | some m =>
      show some (m.pos.getD (c.pos.getD (p.pos.getD .origin))) =
        some ((m.pos <|> c.pos).getD (p.pos.getD .origin))
      cases m.pos <;> rfl

/-- **The program with all positions has the headers** of a program whose methods
are placed. -/
theorem sameHeaders_positioned {p : Program} (h : p.MethodsPlaced) :
    p.SameHeaders (p.pos.getD .origin) (p.pos.getD .origin) p.positioned where
  functions := List.forall₂_map_right_iff.2 <| List.forall₂_same.2 fun f _ => by
    exact ⟨rfl, by simp [FunctionDecl.types, FunctionDecl.positioned, VarDecl.positioned], rfl⟩
  classes := List.forall₂_map_right_iff.2 <| List.forall₂_same.2 fun c _ =>
    ⟨rfl, rfl, List.forall₂_map_right_iff.2 (List.forall₂_same.2 fun _ _ => ⟨rfl, rfl⟩),
      List.forall₂_map_right_iff.2 (List.forall₂_same.2 fun f _ => ⟨rfl, by
        simp [FunctionDecl.types, FunctionDecl.positioned, VarDecl.positioned], rfl⟩), rfl⟩
  methodPos ref id c d hc hd hextends := by
    rw [getElem?_classes_positioned, hc] at hd
    obtain rfl := Option.some.inj hd
    show _ = (p.methodPos? ref).getD (c.pos.getD (p.pos.getD .origin))
    rw [methodPos?_positioned]
    cases hm : methodDecl? p ref with
    | none =>
      rw [methodPos?, hm]
      rfl
    | some m =>
      show (p.methodPos? ref).getD (p.pos.getD .origin) = _
      cases hpos : p.methodPos? ref with
      | some pos => rfl
      | none =>
        have hcpos : c.pos = none := by
          by_contra hcpos
          exact h.methodPos?_ne_none (List.mem_of_getElem? hc) hextends hcpos hm hpos
        rw [hcpos]
        rfl

end Source.Program

namespace Typing

section Placed

variable {p : Program} (h : p.MethodsPlaced) (printName : String)

include h

theorem programContext_positioned :
    programContext p.positioned printName (p.pos.getD .origin) =
      (programContext p printName (p.pos.getD .origin)).over p.positioned := by
  have hsame := Source.Program.sameHeaders_positioned h
  rw [programContext, ClassTable.ofProgram_congr hsame, ClassTable.resolveAll_congr hsame,
    FunctionTable.ofProgram_congr hsame]
  rfl

theorem programFindings_positioned :
    programFindings p.positioned printName (p.pos.getD .origin) =
      programFindings p printName (p.pos.getD .origin) := by
  have hsame := Source.Program.sameHeaders_positioned h
  have hnames : p.positioned.classes.map (·.name) = p.classes.map (·.name) :=
    map_eq_of_forall₂ hsame.classes fun _ _ hcd => hcd.name
  rw [programFindings, ClassTable.ofProgram_congr hsame, ClassTable.resolveAll_congr hsame,
    FunctionTable.ofProgram_congr hsame, ClassTable.duplicateErrors_congr hsame, hnames]
  rfl

theorem checkProgram_positioned : checkProgram p.positioned printName (p.pos.getD .origin) =
    checkProgram p printName (p.pos.getD .origin) := by
  have hsame : (programContext p printName (p.pos.getD .origin)).program.SameTypes p.positioned :=
    (Source.Program.sameHeaders_positioned h).sameTypes
  rw [checkProgram, checkProgram, programContext_positioned h, checkFunctions_over hsame,
    checkClasses_over hsame]
  generalize hctx : programContext p printName (p.pos.getD .origin) = ctx at hsame ⊢
  have hp : ctx.program = p := hctx ▸ rfl
  have hmembers : checkMembers (ctx.over p.positioned) (p.pos.getD .origin) p.positioned.classes =
      checkMembers ctx (p.pos.getD .origin) p.classes :=
    checkMembers_positioned ctx _ _ _ p.classes
  have hmain : checkMain (ctx.over p.positioned) (p.pos.getD .origin) =
      checkMain ctx (p.pos.getD .origin) :=
    hp ▸ checkMain_positioned ctx
  have hfunctions : checkFunctions ctx .empty (p.pos.getD .origin) p.positioned.functions =
      checkFunctions ctx .empty (p.pos.getD .origin) p.functions :=
    checkFunctions_positioned ctx _ _ _ p.functions
  have hclasses : checkClasses ctx (p.pos.getD .origin) p.positioned.classes.zipIdx =
      checkClasses ctx (p.pos.getD .origin) p.classes.zipIdx :=
    checkClasses_positioned ctx _ _ p.classes 0
  rw [hmembers, hmain, hfunctions, hclasses]

end Placed

/-- **Errors are reported at the nearest node that has a position**: if methods
are placed, the analysis finds in a program what it finds in the program with all
positions. -/
theorem analyze_positioned {p : Program} (h : p.MethodsPlaced) (options : Options) :
    analyze p options = analyze p.positioned options := by
  obtain ⟨printName⟩ := options
  have houter : p.positioned.pos.getD .origin = p.pos.getD .origin := rfl
  rw [analyze_eq, analyze_eq, houter, programFindings_positioned h, checkProgram_positioned h,
    programContext_positioned h]
  rfl

/-- A method that overrides another one with another return type. Of the
methods none has a position, the class of the overriding one has, and that of the
other is given. -/
def overridingAt (pos : Option Pos) : Program where
  functions := [⟨0, .int, "main", [], .mk [.ret none (.int ⟨1, none⟩ 0)] none, none⟩]
  classes := [⟨2, "A", none, [], [⟨3, .int, "f", [], .mk [] none, none⟩], pos⟩,
    ⟨4, "B", some "A", [], [⟨5, .bool, "f", [], .mk [] none, none⟩], some ⟨5, 1⟩⟩]
  pos := some ⟨1, 1⟩

theorem analyze_positioned_overridingAt : (overridingAt (some ⟨2, 1⟩)).MethodsPlaced ∧
    analyze (overridingAt (some ⟨2, 1⟩)) .default =
      analyze (overridingAt (some ⟨2, 1⟩)).positioned .default :=
  have hplaced : (overridingAt (some ⟨2, 1⟩)).MethodsPlaced := by
    unfold Source.Program.MethodsPlaced
    decide
  ⟨hplaced, analyze_positioned hplaced .default⟩

/-- **A method that is not placed**: it is said to be declared where the class of
the method that overrides it is, and not at the nearest node around it. -/
theorem analyze_overridingAt_none :
    (analyze (overridingAt none) .default).errors =
        [⟨.incompatibleOverride "f" ⟨5, 1⟩, ⟨5, 1⟩⟩] ∧
      (analyze (overridingAt none).positioned .default).errors =
        [⟨.incompatibleOverride "f" ⟨1, 1⟩, ⟨5, 1⟩⟩] := by
  constructor <;> decide +kernel

end Typing

end ClassLang
