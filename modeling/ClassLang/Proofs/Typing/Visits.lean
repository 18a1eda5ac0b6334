import ClassLang.Proofs.Typing.Bodies
/-!
# Typing — every part is visited

Checking types every expression and place below it, also where it reports
something and gives up on the rest: `Check.Visits nodes` says that a check
notes the types of exactly these nodes, and every check visits the nodes of
what it checks (`visits_checkProgram`).
-/


namespace ClassLang.Typing

open Source (NodeId Mark Expr Place Stmt Block FunctionDecl ClassDecl Program)

/-- The check notes the types of these nodes, and of no others. -/
def Check.Visits {α : Type} (nodes : List NodeId) (x : Check α) : Prop :=
  ∀ f id, ((x.run f).2.types.get? id).isSome ↔ id ∈ nodes ∨ (f.types.get? id).isSome

namespace Check.Visits

variable {α β : Type} {nodes nodes' : List NodeId} {x : Check α} {k : α → Check β}

/-- What makes no notes visits nothing. -/
theorem of_within (h : Within [] x) : Visits [] x := fun f id => by
  rw [(h f).types id (by simp)]
  simp

theorem pure (a : α) : Visits [] (pure a : Check α) := of_within (.pure a)

theorem bind (hx : Visits nodes x) (hk : ∀ a, Visits nodes' (k a)) :
    Visits (nodes ++ nodes') (x >>= k) := fun f id => by
  rw [Check.run_bind, hk _ _ id, hx f id, List.mem_append, ← or_assoc, or_comm (a := id ∈ nodes')]

/-- A check that is followed by one that visits nothing. -/
theorem ending (hx : Visits nodes x) (hk : ∀ a, Visits [] (k a)) : Visits nodes (x >>= k) := by
  simpa using hx.bind hk

/-- A check that is followed by one without notes. -/
theorem before (hx : Visits nodes x) (hk : ∀ a, Within [] (k a)) : Visits nodes (x >>= k) :=
  hx.ending fun a => of_within (hk a)

/-- A check that comes after one without notes. -/
theorem behind (hx : Within [] x) (hk : ∀ a, Visits nodes (k a)) : Visits nodes (x >>= k) := by
  simpa using (of_within hx).bind hk

/-! ## Expressions -/

/-- A node is visited after the nodes below it. -/
theorem typed {m : Mark} (outer : Pos) {infer : Pos → Check Ty}
    (h : ∀ here, Visits nodes (infer here)) : Visits (m.id :: nodes) (typed m outer infer) :=
  fun f id => by
    have hrun : ((Typing.typed m outer infer).run f).2.types =
        ((infer (m.pos.getD outer)).run f).2.types.insert m.id
          ((infer (m.pos.getD outer)).run f).1 := rfl
    rw [hrun, List.mem_cons, or_assoc, ← h (m.pos.getD outer) f id]
    by_cases hid : id = m.id
    · simp [hid]
    · simp [hid, Table.get?_insert_of_ne _ _ (Ne.symm hid)]

theorem noteCall (id : NodeId) (callee : Callee) : Visits [] (noteCall id callee) :=
  fun _ _ => ⟨.inr, fun h => h.resolve_left (by simp)⟩

theorem noteVar (id : NodeId) (decl : DeclRef) : Visits [] (noteVar id decl) :=
  fun _ _ => ⟨.inr, fun h => h.resolve_left (by simp)⟩

theorem noteField (id : NodeId) (ref : MemberRef) : Visits [] (noteField id ref) :=
  fun _ _ => ⟨.inr, fun h => h.resolve_left (by simp)⟩

variable (ctx : Context)

theorem callFound (m : Mark) (here : Pos) (name : String) (args : List (Option Pos × Ty)) :
    Visits [] (callFound ctx m here name args) := by
  unfold Typing.callFound
  split
  · exact (noteCall _ _).before fun _ => .apply ctx _ _ _
  · exact .of_within <| .bind (.report _ _) fun _ => .pure _

theorem methodFound (m : Mark) (here : Pos) (method : String) (args : List (Option Pos × Ty))
    (found : Ty) : Visits [] (methodFound ctx m here method args found) := by
  unfold Typing.methodFound
  split
  · exact pure _
  · split
    · exact (noteCall _ _).before fun _ => .apply ctx _ _ _
    · exact .of_within <| .bind (.shown _) fun _ => .bind (.report _ _) fun _ => .pure _
  · exact .of_within <| .bind (.report _ _) fun _ => .pure _

theorem fieldFound (m : Mark) (pos : Pos) (name : String) (found : Ty) :
    Visits [] (fieldFound ctx m pos name found) := by
  unfold Typing.fieldFound
  split
  · exact pure _
  · split
    · exact (noteField _ _).before fun _ => .fieldType ctx _
    · exact .of_within <| .bind (.shown _) fun _ => .bind (.report _ _) fun _ => .pure _
  · exact .of_within <| .bind (.report _ _) fun _ => .pure _

mutual

/-- **Checking an expression visits the expressions and places in it.** -/
theorem checkExpr (scope : Scope) (outer : Pos) : (e : Expr) →
    Visits e.nodes (checkExpr ctx scope outer e)
  | .int m _ => typed _ fun _ => pure _
  | .bool m _ => typed _ fun _ => pure _
  | .null m => typed _ fun _ => pure _
  | .this m => typed _ fun _ => .of_within <| .ite (.bind (.report _ _) fun _ => .pure _) (.pure _)
  | .read m place => typed _ fun here => checkPlace scope here place
  | .arrayLength m array => by
    rw [checkExpr_arrayLength]
    exact typed _ fun here => (checkExpr scope here array).before fun _ => .lengthFound _ _
  | .unary m op operand => typed _ fun here => (checkExpr scope here operand).before fun _ =>
      .bind (.require ctx _ _ _) fun _ => .pure _
  | .binary m op lhs rhs => by
    rw [Typing.checkExpr]
    refine typed _ fun here => ?_
    split
    · exact (checkExpr scope here lhs).bind fun _ => behind (.require ctx _ _ _) fun _ =>
        (checkExpr scope here rhs).before fun _ => .bind (.require ctx _ _ _) fun _ => .pure _
    · exact (checkExpr scope here lhs).bind fun _ => (checkExpr scope here rhs).before fun _ =>
        .comparableFound ctx _ _ _
  | .call m name args => by
    rw [checkExpr_call]
    exact typed _ fun here => (checkArgs scope here args).ending fun _ => callFound ctx _ _ _ _
  | .methodCall m receiver method args => by
    rw [checkExpr_methodCall]
    exact typed _ fun here => (checkExpr scope here receiver).bind fun _ =>
      (checkArgs scope here args).ending fun _ => methodFound ctx _ _ _ _ _
  | .newObject m name => by
    rw [Typing.checkExpr]
    refine typed _ fun here => ?_
    split
    · exact pure _
    · exact .of_within <| .bind (.report _ _) fun _ => .pure _
  | .newArray m elem size => typed _ fun here => (checkExpr scope here size).before fun _ =>
      .bind (.require ctx _ _ _) fun _ => .bind (.resolveReported ctx _ _ _) fun _ => .arrayOf _

/-- **Checking a place visits the expressions and places in it.** -/
theorem checkPlace (scope : Scope) (outer : Pos) : (place : Place) →
    Visits place.nodes (checkPlace ctx scope outer place)
  | .var m name => by
    rw [Typing.checkPlace]
    refine typed _ fun here => ?_
    split
    · exact (noteVar _ _).before fun _ => .pure _
    · exact .of_within <| .bind (.report _ _) fun _ => .pure _
  | .field m receiver name => by
    rw [checkPlace_field]
    exact typed _ fun here => (checkExpr scope here receiver).ending fun _ => fieldFound ctx _ _ _ _
  | .index m array index => by
    rw [checkPlace_index]
    exact typed _ fun here => (checkExpr scope here array).bind fun _ =>
      (checkExpr scope here index).before fun _ => .bind (.require ctx _ _ _) fun _ =>
        .indexFound _ _

theorem checkArgs (scope : Scope) (outer : Pos) : (args : List Expr) →
    Visits (Source.argNodes args) (checkArgs ctx scope outer args)
  | [] => pure _
  | e :: rest => (checkExpr scope outer e).bind fun _ =>
      (checkArgs scope outer rest).before fun _ => .pure _

end

/-! ## Statements -/

theorem checkCondition (scope : Scope) (outer : Pos) (of : ConditionOf) (cond : Expr) :
    Visits cond.nodes (checkCondition ctx scope outer of cond) :=
  (checkExpr ctx scope outer cond).before fun _ => .conditionFound ctx _ _ _

mutual

/-- **Checking a statement visits the expressions and places in it.** -/
theorem checkStmt (scope : Scope) (outer : Pos) : (s : Stmt) →
    Visits s.nodes (checkStmt ctx scope outer s)
  | .block pos (.mk stmts bodyPos) => by
    rw [Typing.checkStmt, checkBlock]
    exact (checkStmts scope.push _ stmts).before fun _ => .pure _
  | .decl pos var => of_within (.declareVar ctx _ _ _ _ _)
  | .assign pos target value => by
    rw [checkStmt_assign]
    exact (checkPlace ctx scope _ target).bind fun _ => (checkExpr ctx scope _ value).before fun _ =>
      .valueFound ctx _ _ _ _ _
  | .expr pos value => (checkExpr ctx scope _ value).before fun _ => .pure _
  | .ifThen pos cond body => (checkCondition ctx scope _ _ cond).bind fun _ =>
      (checkStmt scope.push _ body).before fun _ => .pure _
  | .ifElse pos cond yes no => (checkCondition ctx scope _ _ cond).bind fun _ =>
      (checkStmt scope.push _ yes).bind fun _ => (checkStmt scope.push _ no).before fun _ => .pure _
  | .loop pos cond body => (checkCondition ctx scope _ _ cond).bind fun _ =>
      (checkStmt scope.push _ body).before fun _ => .pure _
  | .ret pos value => by
    rw [checkStmt_ret]
    exact (checkExpr ctx scope _ value).before fun _ => .valueFound ctx _ _ _ _ _

theorem checkStmts (scope : Scope) (outer : Pos) : (stmts : List Stmt) →
    Visits (Source.stmtNodes stmts) (checkStmts ctx scope outer stmts)
  | [] => pure _
  | s :: rest => (checkStmt scope outer s).bind fun scope => checkStmts scope outer rest

end

/-! ## Declarations -/

theorem checkFunction (scope : Scope) (outer : Pos) (f : FunctionDecl) :
    Visits f.nodes (checkFunction ctx scope outer f) := by
  refine behind (.resolveReported ctx _ _ _) fun _ => behind (.declareParams ctx _ _ _)
    fun scope => ?_
  obtain ⟨_, _, _, _, ⟨stmts, pos⟩, _⟩ := f
  exact checkStmts ctx scope.push _ stmts

theorem checkFunctions (scope : Scope) (outer : Pos) (fs : List FunctionDecl) :
    Visits (Source.bodyNodes fs) (checkFunctions ctx scope outer fs) := by
  induction fs with
  | nil => exact pure _
  | cons f rest ih => exact (checkFunction ctx scope outer f).bind fun _ => ih

theorem checkClasses (outer : Pos) (classes : List (ClassDecl × Nat)) :
    Visits (classes.flatMap fun c => Source.bodyNodes c.1.methods)
      (checkClasses ctx outer classes) := by
  induction classes with
  | nil => exact pure _
  | cons c rest ih =>
    exact (behind (.declareFields ctx _ _) fun _ => checkFunctions ctx _ _ _ :
      Visits (Source.bodyNodes c.1.methods) (checkClass ctx outer c.2 c.1)).bind fun _ => ih

end Check.Visits

/-- **The checks of a program visit the expressions and places of all
bodies**, errors or not. -/
theorem visits_checkProgram (p : Program) (printName : String) (fallback : Pos) :
    Check.Visits p.nodes (checkProgram p printName fallback) := by
  refine .behind (.checkMembers _ _ _) fun _ => .behind (.checkMain _ _) fun _ =>
    .bind (.checkFunctions _ _ _ _) fun _ => ?_
  rw [← flatMap_zipIdx]
  exact .checkClasses _ _ _

/-- The parts that the analysis knows types of. -/
theorem type?_isSome_iff (p : Program) (printName : String) (id : NodeId) :
    ((analyze p ⟨printName⟩).type? id).isSome ↔ id ∈ p.nodes := by
  rw [analyze_eq, Analysis.type?, visits_checkProgram]
  simp [programFindings, Findings.ofTable]

end ClassLang.Typing
