import ClassLang.Proofs.Typing.Expressions
/-!
# Typing — checking decides the typing of statements

`decides_checkStmts` and `decides_checkFunction`: checking the body of a
function reports nothing exactly if the rules hold for it. A scope holds
what is in scope by the rules before and behind every statement; blocks
push a frame, and what they declare is gone behind them because the scope
in front of them is taken up again.
-/


namespace ClassLang.Typing

open Source (NodeId TypeExpr Expr Place Stmt Block VarDecl FunctionDecl Program)

/-- A scope holds what is in scope in a function with return type `ret`. -/
structure BodyScope (p : Program) (t : TypeTable) (ret : TypeExpr) (names : Names)
    (scope : Scope) : Prop extends ScopeOk p t names scope where
  returns : Denotes p t scope.returnTy ret

section Scopes

variable {p : Program} {t t' : TypeTable} {ret : TypeExpr} {names : Names} {scope : Scope}

theorem BodyScope.mono (h : BodyScope p t ret names scope) (hle : t.elems <+: t'.elems) :
    BodyScope p t' ret names scope :=
  ⟨h.toScopeOk.mono hle, h.returns.mono hle⟩

theorem ScopeOk.push (h : ScopeOk p t names scope) : ScopeOk p t names scope.push :=
  ⟨h.var, h.noVar, h.outside, h.this⟩

theorem BodyScope.push (h : BodyScope p t ret names scope) : BodyScope p t ret names scope.push :=
  ⟨h.toScopeOk.push, h.returns⟩

theorem lookupVar_putVar_self (scope : Scope) (name : String) (info : VarInfo) :
    (scope.putVar name info).lookupVar name = some info := by
  simp [Scope.lookupVar, Scope.putVar]

theorem lookupVar_putVar_of_ne (scope : Scope) {name other : String} (info : VarInfo)
    (h : name ≠ other) : (scope.putVar name info).lookupVar other = scope.lookupVar other := by
  simp [Scope.lookupVar, Scope.putVar, List.findSome?_cons, Table.get?_insert_of_ne _ _ h]

theorem Names.var?_declare (names : Names) (var : VarDecl) (name : String) :
    (names.declare var).var? name = if var.name = name then some var else names.var? name := by
  by_cases h : var.name = name
  · simp [Names.var?, Names.declare, h]
  · simp [Names.var?, Names.declare, h]

/-- **Declaring a variable** brings it into scope. -/
theorem ScopeOk.declare (h : ScopeOk p t names scope) {var : VarDecl} {ty : Ty}
    (hd : Denotes p t ty var.ty) :
    ScopeOk p t (names.declare var) (scope.putVar var.name ⟨ty, .local_ var.id⟩) := by
  refine ⟨fun name other hvar => ?_, fun name hvar => ?_, h.outside, h.this⟩
  · rw [Names.var?_declare] at hvar
    by_cases hname : var.name = name
    · rw [if_pos hname] at hvar
      obtain rfl := Option.some.inj hvar
      exact ⟨ty, hname ▸ lookupVar_putVar_self scope _ _, hd⟩
    · rw [if_neg hname] at hvar
      rw [lookupVar_putVar_of_ne scope _ hname]
      exact h.var name other hvar
  · rw [Names.var?_declare] at hvar
    by_cases hname : var.name = name
    · rw [if_pos hname] at hvar
      cases hvar
    · rw [if_neg hname] at hvar
      rw [lookupVar_putVar_of_ne scope _ hname]
      exact h.noVar name hvar

theorem ScopeOk.lookupVar_isSome (h : ScopeOk p t names scope) (name : String) :
    scope.lookupVar name = none ↔ names.var? name = none := by
  refine ⟨fun hnone => ?_, h.noVar name⟩
  cases hvar : names.var? name with
  | none => rfl
  | some var =>
    obtain ⟨ty, hsome, -⟩ := h.var name var hvar
    rw [hnone] at hsome
    cases hsome

end Scopes

section Statements

variable {ctx : Context} {printName : String} {names : Names} {scope : Scope} {ret : TypeExpr}

/-- A condition has to be a boolean. -/
theorem decides_conditionFound (hctx : ctx.Sound printName) {f : Findings}
    (hf : Clean ctx.program f) {cond : Expr} {found : Ty} {τ : ExprTy}
    (hcond : FoundFor ctx printName names f.table cond found τ) (pos : Pos) (of : ConditionOf) :
    Decides ctx.program (conditionFound ctx pos of found) f
      (HasType ctx.program printName names cond (.written .bool)) fun _ _ => True := by
  refine .reads rfl (.unless_ (fun _ => .pure hf trivial) ?_ (.reads rfl (.report _ _)))
  rw [isSubtype_iff hctx.classes hctx.sound.hierarchy.acyclic hf.table hcond.denotes
    (.written .bool), fits_bool_iff]
  exact ⟨fun h => h ▸ hcond.typed, fun h => (hcond.only _ h).symm⟩

/-- A value has to fit, and nothing is declared. -/
theorem decides_valueFound (hctx : ctx.Sound printName) {f : Findings}
    (hf : Clean ctx.program f) {value : Expr} {expected found : Ty} {ty : TypeExpr} {τ : ExprTy}
    (hexpected : Denotes ctx.program f.table expected ty)
    (hvalue : FoundFor ctx printName names f.table value found τ) (pos : Pos)
    (fault : String → String → TypeFault) :
    Decides ctx.program (valueFound ctx scope pos fault expected found) f
      (∃ τ, HasType ctx.program printName names value τ ∧ Fits ctx.program τ (.written ty))
      fun scope' _ => scope' = scope := by
  refine .reads rfl (.unless_ (fun _ => .pure hf rfl) ?_ (.reads rfl (.reads rfl (.refused id))))
  rw [isSubtype_iff hctx.classes hctx.sound.hierarchy.acyclic hf.table hvalue.denotes
    (.written hexpected)]
  exact ⟨fun h => ⟨τ, hvalue.typed, h⟩, fun ⟨τ', hτ', h⟩ => hvalue.only τ' hτ' ▸ h⟩

/-- **A condition is reported exactly if it is no boolean.** -/
theorem decides_checkCondition (hctx : ctx.Sound printName) {f : Findings}
    (hf : Clean ctx.program f) (hscope : ScopeOk ctx.program f.table names scope) (outer : Pos)
    (of : ConditionOf) (cond : Expr) :
    Decides ctx.program (checkCondition ctx scope outer of cond) f
      (HasType ctx.program printName names cond (.written .bool)) fun _ _ => True := by
  rw [checkCondition_eq]
  exact ((decides_checkExpr hctx hf hscope outer cond).andThen (fun _ => .conditionFound ctx _ _ _)
    fun found τ f' hf' _ hfound => decides_conditionFound hctx hf' hfound _ of).congr
      ⟨fun h => h.2, fun h => ⟨⟨_, h⟩, h⟩⟩

/-- **A variable is reported exactly if its type does not resolve or its
name is taken.** -/
theorem decides_declareVar (hctx : ctx.Sound printName) {f : Findings}
    (hf : Clean ctx.program f) (hscope : BodyScope ctx.program f.table ret names scope)
    (outer : Pos) (role : TypeRole) (taken : String → TypeFault) (var : VarDecl) :
    Decides ctx.program (declareVar ctx scope outer role taken var) f
      (ctx.program.Resolves var.ty ∧ names.var? var.name = none)
      fun scope' t => BodyScope ctx.program t ret (names.declare var) scope' := by
  refine (decides_resolveReported hctx.classes.lookup hf _ _ _).bind ?_
    fun _ ty f' hf' hle hd => ?_
  · intro ty
    split
    · exact .bind (.report _ _) fun _ => .pure _
    · exact .pure _
  · have hscope' := hscope.mono hle
    cases hlookup : scope.lookupVar var.name with
    | some info =>
      refine .refused fun h => ?_
      rw [hscope.noVar _ h] at hlookup
      cases hlookup
    | none =>
      refine (Decides.pure hf' ⟨hscope'.toScopeOk.declare hd, hscope'.returns⟩).congr
        ⟨fun _ => (hscope.lookupVar_isSome _).1 hlookup, fun _ => trivial⟩

/-- What is in scope behind a statement. -/
def Names.behind (names : Names) : Stmt → Names
  | .decl _ var => names.declare var
  | _ => names

theorem StmtOk.eq_behind {p : Program} {behind : Names} {s : Stmt}
    (h : StmtOk p printName ret names s behind) : behind = names.behind s := by
  cases h <;> rfl

/-- Checking a statement decides whether it is well typed, and leaves what
is in scope behind it. -/
abbrev StmtDecided (ctx : Context) (printName : String) (ret : TypeExpr) (names : Names) (s : Stmt)
    (x : Check Scope) (f : Findings) : Prop :=
  Decides ctx.program x f (∃ behind, StmtOk ctx.program printName ret names s behind)
    fun scope' t => ∀ behind, StmtOk ctx.program printName ret names s behind →
      BodyScope ctx.program t ret behind scope'

/-! ### The forms of statements -/

section Forms

variable {f : Findings} {outer : Pos} {pos : Option Pos}

theorem StmtDecided.assign (hctx : ctx.Sound printName)
    (hscope : BodyScope ctx.program f.table ret names scope) {target : Place} {value : Expr}
    (htarget : PlaceDecided ctx printName names target
      (checkPlace ctx scope (pos.getD outer) target) f)
    (hvalue : ∀ f', Clean ctx.program f' → f.table.elems <+: f'.table.elems →
      ExprDecided ctx printName names value (checkExpr ctx scope (pos.getD outer) value) f') :
    StmtDecided ctx printName ret names (.assign pos target value)
      (checkStmt ctx scope outer (.assign pos target value)) f := by
  rw [checkStmt_assign]
  refine ((htarget.bind (fun _ => .bind (.checkExpr ctx _ _ _) fun _ => .valueFound ctx _ _ _ _ _)
    fun ⟨ty, hty⟩ expected f₁ hf₁ hle₁ hexpected => ((hvalue f₁ hf₁ hle₁).andThen
      (fun _ => .valueFound ctx _ _ _ _ _) fun found τ f₂ hf₂ hle₂ hfound =>
        decides_valueFound hctx hf₂ ((hexpected ty hty).mono hle₂) hfound _ .assignMismatch).congr
          (show _ ↔ ∃ ty τ, PlaceType ctx.program printName names target ty ∧
            HasType ctx.program printName names value τ ∧ Fits ctx.program τ (.written ty)
            from ⟨?_, ?_⟩)).congr ⟨?_, ?_⟩).mono ?_
  · exact fun ⟨_, τ, hτ, h⟩ => ⟨ty, τ, hty, hτ, h⟩
  · rintro ⟨ty', τ, hty', hτ, h⟩
    rw [(hexpected ty' hty').right_unique (hexpected ty hty)] at h
    exact ⟨⟨τ, hτ⟩, τ, hτ, h⟩
  · exact fun ⟨_, _, _, hp, hv, h⟩ => ⟨_, .assign hp hv h⟩
  · rintro ⟨_, h⟩
    cases h with
    | assign hp hv h => exact ⟨⟨_, hp⟩, _, _, hp, hv, h⟩
  · rintro - _ t hle rfl behind h
    cases h
    exact hscope.mono hle

theorem StmtDecided.returns (hctx : ctx.Sound printName)
    (hscope : BodyScope ctx.program f.table ret names scope) {value : Expr}
    (hvalue : ExprDecided ctx printName names value
      (checkExpr ctx scope (pos.getD outer) value) f) :
    StmtDecided ctx printName ret names (.ret pos value)
      (checkStmt ctx scope outer (.ret pos value)) f := by
  rw [checkStmt_ret]
  refine ((hvalue.andThen (fun _ => .valueFound ctx _ _ _ _ _) fun found τ f' hf' hle hfound =>
    decides_valueFound hctx hf' (hscope.returns.mono hle) hfound _ .returnMismatch).congr
      ⟨?_, ?_⟩).mono ?_
  · exact fun ⟨_, _, hv, h⟩ => ⟨_, .ret hv h⟩
  · rintro ⟨_, h⟩
    cases h with
    | ret hv h => exact ⟨⟨_, hv⟩, _, hv, h⟩
  · rintro - _ t hle rfl behind h
    cases h
    exact hscope.mono hle

theorem StmtDecided.expr (hscope : BodyScope ctx.program f.table ret names scope) {value : Expr}
    (hvalue : ExprDecided ctx printName names value
      (checkExpr ctx scope (pos.getD outer) value) f) :
    StmtDecided ctx printName ret names (.expr pos value)
      (checkStmt ctx scope outer (.expr pos value)) f := by
  rw [checkStmt]
  refine (hvalue.bind (fun _ => .pure _)
    fun _ _ f' hf' hle _ => .pure hf' fun behind h => ?_).congr
      ⟨fun ⟨⟨_, h⟩, _⟩ => ⟨_, .expr h⟩, fun ⟨_, h⟩ => ⟨?_, trivial⟩⟩
  · cases h
    exact hscope.mono hle
  · cases h with
    | expr h => exact ⟨_, h⟩

/-- **A condition and what is done under it.** -/
theorem decides_guarded (hctx : ctx.Sound printName) (hf : Clean ctx.program f)
    (hscope : BodyScope ctx.program f.table ret names scope) (here : Pos) (of : ConditionOf)
    (cond : Expr) {body : Stmt}
    (hbody : ∀ f', Clean ctx.program f' → f.table.elems <+: f'.table.elems →
      StmtDecided ctx printName ret names body (checkStmt ctx scope.push here body) f') :
    Decides ctx.program (do
        checkCondition ctx scope here of cond
        let _ ← checkStmt ctx scope.push here body
        return scope) f
      (HasType ctx.program printName names cond (.written .bool) ∧
        ∃ inner, StmtOk ctx.program printName ret names body inner)
      fun scope' _ => scope' = scope :=
  ((decides_checkCondition hctx hf hscope.toScopeOk here of cond).bind
    (fun _ => .bind (.checkStmt ctx _ _ _) fun _ => .pure _) fun _ _ f₁ hf₁ hle₁ _ =>
      (hbody f₁ hf₁ hle₁).bind (fun _ => .pure _) fun _ _ _ hf₂ _ _ => .pure hf₂ rfl).congr
        ⟨fun ⟨hc, hb, _⟩ => ⟨hc, hb⟩, fun ⟨hc, hb⟩ => ⟨hc, hb, trivial⟩⟩

end Forms

mutual

/-- **Checking a statement reports nothing exactly if it is well typed.** -/
theorem decides_checkStmt (hctx : ctx.Sound printName) {names : Names} {scope : Scope} {f : Findings}
    (hf : Clean ctx.program f) (hscope : BodyScope ctx.program f.table ret names scope)
    (outer : Pos) : (s : Stmt) →
    StmtDecided ctx printName ret names s (checkStmt ctx scope outer s) f
  | .block pos (.mk stmts bodyPos) => by
    rw [checkStmt, checkBlock]
    refine ((decides_checkStmts hctx hf hscope.push _ stmts).bind (fun _ => .pure _)
      fun _ _ f' hf' hle _ => .pure hf' fun behind h => ?_).congr
        ⟨fun h => ⟨_, .block h.1⟩, fun ⟨_, h⟩ => ?_⟩
    · cases h
      exact hscope.mono hle
    · cases h with
      | block h => exact ⟨h, trivial⟩
  | .decl pos var => by
    rw [checkStmt]
    refine ((decides_declareVar hctx hf hscope _ _ _ var).congr
      ⟨fun h => ⟨_, .decl h.1 h.2⟩, fun ⟨_, h⟩ => ?_⟩).mono ?_
    · intro _ scope' t _ hscope' behind h
      cases h
      exact hscope'
    · cases h with
      | decl hty hvar => exact ⟨hty, hvar⟩
  | .assign _ target value =>
    StmtDecided.assign hctx hscope (decides_checkPlace hctx hf hscope.toScopeOk _ target)
      fun _ hf' hle => decides_checkExpr hctx hf' (hscope.mono hle).toScopeOk _ value
  | .expr _ value => StmtDecided.expr hscope (decides_checkExpr hctx hf hscope.toScopeOk _ value)
  | .ifThen pos cond body => by
    rw [checkStmt]
    -- A branch has a scope of its own, so the names behind it are those before it.
    refine ((decides_guarded hctx hf hscope _ .if_ cond fun _ hf' hle =>
      decides_checkStmt hctx hf' (hscope.mono hle).push _ body).congr
        ⟨fun ⟨hc, _, hb⟩ => ⟨_, .ifThen hc hb⟩, ?_⟩).mono ?_
    · rintro ⟨_, h⟩
      cases h with
      | ifThen hc hb => exact ⟨hc, _, hb⟩
    · rintro - _ t hle rfl behind h
      cases h
      exact hscope.mono hle
  | .ifElse pos cond yes no => by
    rw [checkStmt]
    refine ((decides_checkCondition hctx hf hscope.toScopeOk _ _ cond).bind
      (fun _ => .bind (.checkStmt ctx _ _ _) fun _ => .bind (.checkStmt ctx _ _ _) fun _ =>
        .pure _) fun _ _ f₁ hf₁ hle₁ _ =>
        (decides_checkStmt hctx hf₁ (hscope.mono hle₁).push _ yes).bind
          (fun _ => .bind (.checkStmt ctx _ _ _) fun _ => .pure _) fun _ _ f₂ hf₂ hle₂ _ =>
          (decides_checkStmt hctx hf₂ (hscope.mono (hle₁.trans hle₂)).push _ no).bind
            (fun _ => .pure _) fun _ _ f₃ hf₃ hle₃ _ => .pure hf₃ fun behind h => ?_).congr
              ⟨fun ⟨hc, ⟨_, hy⟩, ⟨_, hn⟩, _⟩ => ⟨_, .ifElse hc hy hn⟩, fun ⟨_, h⟩ => ?_⟩
    · cases h
      exact hscope.mono ((hle₁.trans hle₂).trans hle₃)
    · cases h with
      | ifElse hc hy hn => exact ⟨hc, ⟨_, hy⟩, ⟨_, hn⟩, trivial⟩
  | .loop pos cond body => by
    rw [checkStmt]
    refine ((decides_guarded hctx hf hscope _ .while_ cond fun _ hf' hle =>
      decides_checkStmt hctx hf' (hscope.mono hle).push _ body).congr
        ⟨fun ⟨hc, _, hb⟩ => ⟨_, .loop hc hb⟩, ?_⟩).mono ?_
    · rintro ⟨_, h⟩
      cases h with
      | loop hc hb => exact ⟨hc, _, hb⟩
    · rintro - _ t hle rfl behind h
      cases h
      exact hscope.mono hle
  | .ret _ value => StmtDecided.returns hctx hscope (decides_checkExpr hctx hf hscope.toScopeOk _ value)

/-- **Checking statements reports nothing exactly if they are well typed
in turn.** -/
theorem decides_checkStmts (hctx : ctx.Sound printName) {names : Names} {scope : Scope} {f : Findings}
    (hf : Clean ctx.program f) (hscope : BodyScope ctx.program f.table ret names scope)
    (outer : Pos) : (stmts : List Stmt) → Decides ctx.program (checkStmts ctx scope outer stmts) f
      (StmtsOk ctx.program printName ret names stmts) fun _ _ => True
  | [] => (Decides.pure hf trivial).congr ⟨fun _ => .nil, fun _ => trivial⟩
  | s :: rest => by
    rw [checkStmts]
    refine ((decides_checkStmt hctx hf hscope outer s).bind (fun _ => .checkStmts ctx _ _ _)
      ?_).congr (show (∃ behind, StmtOk ctx.program printName ret names s behind) ∧
        StmtsOk ctx.program printName ret (names.behind s) rest ↔ _ from
        ⟨fun ⟨⟨_, hs⟩, hrest⟩ => .cons hs (hs.eq_behind ▸ hrest), fun h => ?_⟩)
    · rintro ⟨behind, hs⟩ scope' f' hf' hle hscope'
      exact decides_checkStmts hctx hf' (hs.eq_behind ▸ hscope' behind hs) outer rest
    · cases h with
      | cons hs hrest => exact ⟨⟨_, hs⟩, hs.eq_behind ▸ hrest⟩

end

end Statements

end ClassLang.Typing
