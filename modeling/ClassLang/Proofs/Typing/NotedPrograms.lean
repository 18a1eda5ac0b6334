import ClassLang.Proofs.Typing.Bodies
import ClassLang.Proofs.Source.Programs
/-!
# Typing — what is known of a program without errors

Statements and functions are noted when they were checked, and notes stay
when the analysis goes on. So the analysis of a program that reports
nothing holds the notes of all bodies, and every type that is written in a
declaration is interned (`noted_analyze`). This is all that lowering needs
to know of the analysis.
-/


namespace ClassLang.Typing

open Source (NodeId TypeExpr Expr Place Stmt Block VarDecl FunctionDecl ClassDecl Program)

/-! ## Statements -/

section Statements

variable {ctx : Context} {printName : String} {names : Names} {scope : Scope} {ret : TypeExpr}

theorem noted_checkCondition (hctx : ctx.Sound printName) {f : Findings}
    (hf : Clean ctx.program f) (hscope : ScopeOk ctx.program f.table names scope) (outer : Pos)
    (of : ConditionOf) {cond : Expr} (hnodup : cond.nodes.Nodup)
    (h : HasType ctx.program printName names cond (.written .bool)) :
    ExprNoted ctx.program printName ((checkCondition ctx scope outer of cond).run f).2 names cond
      (.written .bool) :=
  (noted_checkExpr hctx hf hscope outer cond hnodup h).before
    (fun _ => (.conditionFound ctx _ _ _ : Check.Within [] _)) (by simp)

theorem StmtNoted.before {α β : Type} {x : Check α} {k : α → Check β} {f : Findings}
    {nodes : List NodeId} {p : Program} {behind : Names} {s : Stmt}
    (h : StmtNoted p printName (x.run f).2 ret names s behind)
    (hk : ∀ a, Check.Within nodes (k a)) (hoff : ∀ id ∈ s.nodes, id ∉ nodes) :
    StmtNoted p printName ((x >>= k).run f).2 ret names s behind :=
  h.mono (hk _ _) s hoff

mutual

/-- **A well-typed statement is noted when it was checked.** -/
theorem noted_checkStmt (hctx : ctx.Sound printName) {names : Names} {scope : Scope} {f : Findings}
    (hf : Clean ctx.program f) (hscope : BodyScope ctx.program f.table ret names scope)
    (outer : Pos) : (s : Stmt) → {behind : Names} → s.nodes.Nodup →
    StmtOk ctx.program printName ret names s behind →
    StmtNoted ctx.program printName ((checkStmt ctx scope outer s).run f).2 ret names s behind
  | .block pos (.mk stmts bodyPos), _, hnodup, h => by
    cases h with
    | block h =>
      rw [checkStmt, checkBlock]
      exact .block (noted_checkStmts hctx hf hscope.push _ stmts hnodup h)
  | .decl pos var, _, _, h => by
    cases h with
    | decl hty hvar =>
      rw [checkStmt]
      exact .decl (interned_declareVar hctx hf scope _ _ _ hty) hvar
  | .assign pos target value, _, hnodup, h => by
    rw [Stmt.nodes, List.nodup_append'] at hnodup
    obtain ⟨ht, hv, hdisj⟩ := hnodup
    cases h with
    | assign htarget hvalue hfits =>
      -- The target is well typed, so the value is checked with findings that are still clean.
      obtain ⟨hclean, hle⟩ := (decides_checkPlace hctx hf hscope.toScopeOk (pos.getD outer)
        target).onward ⟨_, htarget⟩
      have hvalue := noted_checkExpr hctx hclean (hscope.mono hle).toScopeOk (pos.getD outer) value
        hv hvalue
      rw [checkStmt_assign]
      exact .assign (.before (noted_checkPlace hctx hf hscope.toScopeOk _ target ht htarget)
          (fun _ => .bind (.checkExpr ctx _ _ _) fun _ => .valueFound ctx _ _ _ _ _) hdisj)
        (.behind (hvalue.before (fun _ => (.valueFound ctx _ _ _ _ _ : Check.Within [] _))
          (by simp))) hfits
  | .expr pos value, _, hnodup, h => by
    cases h with
    | expr h =>
      rw [checkStmt]
      exact .expr (noted_checkExpr hctx hf hscope.toScopeOk _ value hnodup h)
  | .ifThen pos cond body, _, hnodup, h => by
    rw [Stmt.nodes, List.nodup_append'] at hnodup
    obtain ⟨hc, hb, hdisj⟩ := hnodup
    cases h with
    | ifThen hcond hbody =>
      obtain ⟨hclean, hle⟩ := (decides_checkCondition hctx hf hscope.toScopeOk (pos.getD outer)
        .if_ cond).onward hcond
      rw [checkStmt]
      refine .ifThen (.before (noted_checkCondition hctx hf hscope.toScopeOk _ _ hc hcond)
        (fun _ => (?_ : Check.Within body.nodes _)) hdisj)
        (noted_checkStmt hctx hclean (hscope.mono hle).push _ body hb hbody)
      exact .bind (.checkStmt ctx _ _ _) fun _ => .pure _
  | .ifElse pos cond yes no, _, hnodup, h => by
    rw [Stmt.nodes, List.nodup_append', List.nodup_append'] at hnodup
    obtain ⟨hc, ⟨hy, hn, hdisj'⟩, hdisj⟩ := hnodup
    cases h with
    | ifElse hcond hyes hno =>
      obtain ⟨hclean, hle⟩ := (decides_checkCondition hctx hf hscope.toScopeOk (pos.getD outer)
        .if_ cond).onward hcond
      obtain ⟨hclean', hle'⟩ := (decides_checkStmt hctx hclean (hscope.mono hle).push
        (pos.getD outer) yes).onward ⟨_, hyes⟩
      have hno := noted_checkStmt hctx hclean' (hscope.mono (hle.trans hle')).push
        (pos.getD outer) no hn hno
      have hyes := noted_checkStmt hctx hclean (hscope.mono hle).push (pos.getD outer) yes hy hyes
      rw [checkStmt]
      -- Later checks note about other nodes, so the notes of the earlier parts stay.
      refine .ifElse (.before (noted_checkCondition hctx hf hscope.toScopeOk _ _ hc hcond)
        (fun _ => (?_ : Check.Within (yes.nodes ++ no.nodes) _)) hdisj)
        (hyes.mono (Check.Within.checkStmt ctx scope.push (pos.getD outer) no _) yes hdisj') hno
      exact .bind ((Check.Within.checkStmt ctx _ _ _).weaken (by simp)) fun _ =>
        .bind ((Check.Within.checkStmt ctx _ _ _).weaken (by simp)) fun _ => .pure _
  | .loop pos cond body, _, hnodup, h => by
    rw [Stmt.nodes, List.nodup_append'] at hnodup
    obtain ⟨hc, hb, hdisj⟩ := hnodup
    cases h with
    | loop hcond hbody =>
      obtain ⟨hclean, hle⟩ := (decides_checkCondition hctx hf hscope.toScopeOk (pos.getD outer)
        .while_ cond).onward hcond
      rw [checkStmt]
      refine .loop (.before (noted_checkCondition hctx hf hscope.toScopeOk _ _ hc hcond)
        (fun _ => (?_ : Check.Within body.nodes _)) hdisj)
        (noted_checkStmt hctx hclean (hscope.mono hle).push _ body hb hbody)
      exact .bind (.checkStmt ctx _ _ _) fun _ => .pure _
  | .ret pos value, _, hnodup, h => by
    cases h with
    | ret h hfits =>
      rw [checkStmt_ret]
      exact .ret (.before (noted_checkExpr hctx hf hscope.toScopeOk _ value hnodup h)
        (fun _ => (.valueFound ctx _ _ _ _ _ : Check.Within [] _)) (by simp)) hfits

theorem noted_checkStmts (hctx : ctx.Sound printName) {names : Names} {scope : Scope} {f : Findings}
    (hf : Clean ctx.program f) (hscope : BodyScope ctx.program f.table ret names scope)
    (outer : Pos) : (stmts : List Stmt) → (Source.stmtNodes stmts).Nodup →
    StmtsOk ctx.program printName ret names stmts →
    StmtsNoted ctx.program printName ((checkStmts ctx scope outer stmts).run f).2 ret names stmts
  | [], _, h => by cases h; exact .nil
  | s :: rest, hnodup, h => by
    rw [Source.stmtNodes, List.nodup_append'] at hnodup
    obtain ⟨hs, hr, hdisj⟩ := hnodup
    cases h with
    | cons hok hrest =>
      have hdecided := decides_checkStmt hctx hf hscope outer s
      have hbehind := (hdecided.post ⟨_, hok⟩).2.2 _ hok
      rw [checkStmts]
      exact .cons (.before (noted_checkStmt hctx hf hscope outer s hs hok)
          (fun _ => .checkStmts ctx _ _ _) hdisj)
        (noted_checkStmts hctx (hdecided.clean ⟨_, hok⟩) hbehind outer rest hr hrest)

end

end Statements

/-! ## Functions -/

section Functions

variable {ctx : Context} {printName : String} {f : Findings} {ret : TypeExpr}

theorem noted_checkBlock (hctx : ctx.Sound printName) (hf : Clean ctx.program f)
    {names : Names} {scope : Scope} (hscope : BodyScope ctx.program f.table ret names scope)
    (outer : Pos) : (body : Block) → (Source.stmtNodes body.stmts).Nodup →
    StmtsOk ctx.program printName ret names body.stmts → StmtsNoted ctx.program printName
      ((checkBlock ctx scope outer body).run f).2 ret names body.stmts
  | .mk stmts _, hnodup, h => noted_checkStmts hctx hf hscope.push _ stmts hnodup h

/-- **A well-typed function is noted when it was checked.** -/
theorem noted_checkFunction (hctx : ctx.Sound printName) (hf : Clean ctx.program f)
    {this? : Option String} {scope : Scope}
    (hscope : ScopeOk ctx.program f.table ⟨this?, []⟩ scope) (outer : Pos) {g : FunctionDecl}
    (hnodup : g.nodes.Nodup) (h : FunctionOk ctx.program printName this? g) :
    FunctionNoted ctx.program printName ((checkFunction ctx scope outer g).run f).2 this? g := by
  obtain ⟨inner, f', hclean, hinner, hreturn, hparams, hrun⟩ := exists_body hctx hf hscope outer h
  have hgrows := within_checkBlock ctx inner (g.pos.getD outer) g.body f'
  rw [hrun]
  exact ⟨hreturn.mono hgrows.elems, fun param hparam => (hparams param hparam).mono hgrows.elems,
    noted_checkBlock hctx hclean hinner _ g.body hnodup h.body⟩

/-- Checking functions establishes their notes. -/
theorem establishes_noted (hctx : ctx.Sound printName) :
    Establishes ctx printName fun this? g f => FunctionNoted ctx.program printName f this? g :=
  ⟨fun hgrows hoff h => h.mono hgrows hoff,
    fun outer hf hscope hnodup h => noted_checkFunction hctx hf hscope outer hnodup h⟩

end Functions

/-! ## Programs -/

/-- **What is known of a program**: the notes of all bodies, and that every
type of a declaration is interned. -/
structure Findings.Covers (p : Program) (printName : String) (f : Findings) : Prop where
  table : TableOk p f.table
  fieldTypes : ∀ c ∈ p.classes, ∀ field ∈ c.fields, Interned p f field.ty
  functions : ∀ g ∈ p.functions, FunctionNoted p printName f none g
  methods : ∀ c ∈ p.classes, ∀ m ∈ c.methods, FunctionNoted p printName f (some c.name) m

/-- The table of the analysis knows the names of the classes. -/
theorem classNames_analyze (p : Program) (printName : String) :
    (analyze p ⟨printName⟩).findings.table.classNames = p.classes.map (·.name) := by
  have hmethods : p.classes.flatMap (fun c => Source.bodyNodes c.methods) ⊆ p.nodes := by
    simp [Program.nodes]
  have hwithin : Check.Within p.nodes (checkProgram p printName (p.pos.getD .origin)) :=
    .bind (.checkMembers _ _ _) fun _ => .bind (.checkMain _ _) fun _ =>
      .bind ((Check.Within.checkFunctions _ _ _ _).weaken (by simp [Program.nodes])) fun _ =>
        (Check.Within.checkClasses _ _ _).weaken fun id hid => hmethods <| by
          obtain ⟨⟨c, i⟩, hc, hid⟩ := List.mem_flatMap.1 hid
          exact List.mem_flatMap.2 ⟨c, List.fst_mem_of_mem_zipIdx hc, hid⟩
  rw [analyze_eq]
  exact (hwithin _).classNames

/-- **The analysis that reports nothing covers the program.** -/
theorem covers_analyze {p : Program} {printName : String} (hnodup : p.nodes.Nodup)
    (hok : (analyze p ⟨printName⟩).ok = true) :
    (analyze p ⟨printName⟩).classes.Describes p ∧
      (analyze p ⟨printName⟩).findings.Covers p printName := by
  have h := WellTyped.of_ok hok
  have hctx := h.sound_programContext (p.pos.getD .origin)
  obtain ⟨hfunctions, hmethods⟩ := (establishes_noted hctx).analyze hnodup hok
  exact ⟨hctx.classes, tableOk_analyze hok, interned_fieldTypes hok, hfunctions, hmethods⟩

end ClassLang.Typing
