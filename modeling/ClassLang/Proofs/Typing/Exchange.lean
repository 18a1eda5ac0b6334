import ClassLang.Proofs.Typing.Occurrences
import ClassLang.Proofs.Typing.Sparing
/-!
# Typing — another expression in the same place

Two trees that differ in what fills one hole are checked in the same way up to
the hole: the one run checks the one expression there, the other run the other
expression from the very same findings. If nothing is known of the second
expression, then what the second run reports behind it is among what the first
one reports (`Exchange.Swaps`). Each statement is a case of the same three
steps: into the hole, in front of it, and behind it.
-/


namespace ClassLang

open Source (NodeId TypeExpr Mark Expr Place Stmt Block VarDecl FunctionDecl ClassDecl)
open Source (ExprHole PlaceHole ArgsHole StmtHole StmtsHole FunctionHole ClassHole ProgramHole)
open Typing (Names)

namespace Typing

/-- The variables in scope are these, and the fields in scope are those that
are visible in the class. -/
structure Scope.Holds (ctx : Context) (owner : Option ClassId) (names : Names) (scope : Scope) :
    Prop where
  var : ∀ name, scope.lookupVar name = none ↔ names.var? name = none
  field : ∀ name, scope.lookupField name = none ↔
    ∀ id, owner = some id → (ctx.visible id).get? name = none

section Holds

variable {ctx : Context} {owner : Option ClassId} {names : Names} {scope : Scope}

theorem Scope.Holds.push (h : Scope.Holds ctx owner names scope) :
    Scope.Holds ctx owner names scope.push := ⟨h.var, h.field⟩

theorem Scope.Holds.setReturn (h : Scope.Holds ctx owner names scope) (ty : Ty) :
    Scope.Holds ctx owner names (scope.setReturn ty) := ⟨h.var, h.field⟩

/-- The check ends with such a result, whatever it started from. -/
def Check.Returns {α : Type} (P : α → Prop) (x : Check α) : Prop := ∀ f, P (x.run f).1

namespace Check.Returns

variable {α β : Type} {P : α → Prop} {Q : β → Prop}

theorem pure {a : α} (h : P a) : Returns P (pure a : Check α) := fun _ => h

theorem behind {x : Check α} {k : α → Check β} (hk : ∀ a, Returns Q (k a)) :
    Returns Q (x >>= k) := fun _ => hk _ _

theorem bind {x : Check α} {k : α → Check β} (hx : Returns P x) (hk : ∀ a, P a → Returns Q (k a)) :
    Returns Q (x >>= k) := fun f => hk _ (hx f) _

theorem ite {c : Prop} [Decidable c] {x y : Check α} (hx : Returns P x) (hy : Returns P y) :
    Returns P (if c then x else y) := by
  split
  · exact hx
  · exact hy

end Check.Returns

/-- Declaring a variable brings its name into scope, if it is not there. -/
theorem holds_declareVar (h : Scope.Holds ctx owner names scope) (outer : Pos) (role : TypeRole)
    (taken : String → TypeFault) (var : VarDecl) :
    Check.Returns (Scope.Holds ctx owner (names.declare var))
      (declareVar ctx scope outer role taken var) := by
  refine .behind fun ty => ?_
  cases hvar : scope.lookupVar var.name with
  | some info =>
    refine .behind fun _ => .pure ⟨fun name => ?_, h.field⟩
    rw [Names.var?_declare]
    split
    next hname => simp [← hname, hvar]
    next => exact h.var name
  | none =>
    refine .pure ⟨fun name => ?_, h.field⟩
    rw [Names.var?_declare]
    split
    next hname =>
      rw [hname, lookupVar_putVar_self]
      simp
    next hname =>
      rw [lookupVar_putVar_of_ne scope _ hname]
      exact h.var name

theorem holds_checkStmt (h : Scope.Holds ctx owner names scope) (outer : Pos) (s : Stmt) :
    Check.Returns (Scope.Holds ctx owner (names.behind s)) (checkStmt ctx scope outer s) := by
  cases s with
  | decl pos var => exact holds_declareVar h _ _ _ var
  | block | expr =>
    rw [checkStmt]
    exact .behind fun _ => .pure h
  | ifThen | loop =>
    rw [checkStmt]
    exact .behind fun _ => .behind fun _ => .pure h
  | ifElse =>
    rw [checkStmt]
    exact .behind fun _ => .behind fun _ => .behind fun _ => .pure h
  | assign =>
    rw [checkStmt]
    exact .behind fun _ => .behind fun _ => .behind fun _ => .ite (.pure h) <|
      .behind fun _ => .behind fun _ => .behind fun _ => .pure h
  | ret =>
    rw [checkStmt]
    exact .behind fun _ => .behind fun _ => .ite (.pure h) <|
      .behind fun _ => .behind fun _ => .behind fun _ => .pure h

theorem holds_declareParams (h : Scope.Holds ctx owner names scope) (outer : Pos)
    (params : List VarDecl) :
    Check.Returns (Scope.Holds ctx owner { names with vars := params.reverse ++ names.vars })
      (declareParams ctx scope outer params) := by
  induction params generalizing names scope with
  | nil => exact .pure h
  | cons param rest ih =>
    rw [declareParams, List.reverse_cons, List.append_assoc]
    exact .bind (holds_declareVar h outer _ _ param) fun _ hscope => ih hscope

end Holds

/-! ## Two runs around a hole -/

/-- Two expressions of which the second takes the place of the first. -/
structure Exchange where
  ctx : Context
  old : Expr
  new : Expr
  /-- The scopes of the place where they stand. -/
  site : Scope → Prop

/-- **Nothing is known** of the second expression, which stands where the first
stood. -/
structure Exchange.Loses (x : Exchange) : Prop where
  pos : x.new.mark.pos = x.old.mark.pos
  lost : ∀ scope outer f, x.site scope → ((checkExpr x.ctx scope outer x.new).run f).1 = .any
  table : ∀ scope outer f, x.site scope →
    ((checkExpr x.ctx scope outer x.new).run f).2.table = Findings.table f

/-- From the findings `f` on, two checks are the same until from `g` on the one
checks the first expression and the other the second one. What the second run
reports behind it is among what the first run reports there, in the same
order. -/
structure Exchange.At {α : Type} (x : Exchange) (c c' : Check α) (f : Findings) (scope : Scope)
    (outer : Pos) (g : Findings) : Prop where
  site : x.site scope
  before : f.Leads g
  left : ((checkExpr x.ctx scope outer x.old).run g).2.Leads (c.run f).2
  right : ((checkExpr x.ctx scope outer x.new).run g).2.Leads (c'.run f).2
  reported : ∃ errors errors',
    (c.run f).2.errors = ((checkExpr x.ctx scope outer x.old).run g).2.errors ++ errors ∧
    (c'.run f).2.errors = ((checkExpr x.ctx scope outer x.new).run g).2.errors ++ errors' ∧
    errors'.Sublist errors

/-- **The two checks exchange the expressions** and report no more behind them;
the tables stay paired, and the results are as `post` says. -/
structure Exchange.Swaps {α : Type} (x : Exchange) (c c' : Check α) (f : Findings)
    (post : TypeTable → TypeTable → α → α → Prop) : Prop where
  exchanged : ∃ scope outer g, x.At c c' f scope outer g
  tables : Paired (c.run f).2.table (c'.run f).2.table
  post : post (c.run f).2.table (c'.run f).2.table (c.run f).1 (c'.run f).1

theorem Check.Within.leads {α : Type} {nodes : List NodeId} {c : Check α} (h : Check.Within nodes c)
    (f : Findings) : f.Leads (c.run f).2 := ⟨nodes, h f⟩

namespace Exchange.Swaps

variable {α β : Type} {x : Exchange} {c c' : Check α} {f : Findings}
variable {post : TypeTable → TypeTable → α → α → Prop} {post' : TypeTable → TypeTable → β → β → Prop}

/-- **At the hole.** -/
theorem here (hx : x.Loses) (ht : Paired f.table f.table) {scope : Scope}
    (hscope : Scope.Pairs f.table f.table scope scope) (hsite : x.site scope) (outer : Pos) :
    x.Swaps (checkExpr x.ctx scope outer x.old) (checkExpr x.ctx scope outer x.new) f Fades := by
  have hself := spares_checkExpr x.ctx ht hscope outer x.old
  refine ⟨⟨scope, outer, f, hsite, .refl f, .refl _, .refl _, [], [], ?_, ?_, .slnil⟩, ?_, ?_⟩
  · rw [List.append_nil]
  · rw [List.append_nil]
  · rw [hx.table scope outer f hsite]
    exact ⟨hself.tables.left, ht.left, hself.left.classNames.symm⟩
  · rw [hx.lost scope outer f hsite]
    exact .lost hself.post.left

/-- **In front of the hole** stands what both runs check alike. -/
theorem behind {k k' : α → Check β} {post : TypeTable → TypeTable → α → α → Prop}
    (hc : Check.Spares c f c f post)
    (hk : Paired (c.run f).2.table (c.run f).2.table → f.Leads (c.run f).2 →
      post (c.run f).2.table (c.run f).2.table (c.run f).1 (c.run f).1 →
      x.Swaps (k (c.run f).1) (k' (c.run f).1) (c.run f).2 post') :
    x.Swaps (c >>= k) (c >>= k') f post' := by
  obtain ⟨⟨scope, outer, g, hat⟩, htables, hpost⟩ := hk hc.tables hc.left hc.post
  exact ⟨⟨scope, outer, g, hat.site, hc.left.trans hat.before, hat.left, hat.right, hat.reported⟩,
    htables, hpost⟩

/-- **Behind the hole** the second run knows less and reports no more. -/
theorem bind {k k' : α → Check β} (hc : x.Swaps c c' f post)
    (hk : ∀ a a' g g', Paired g.table g'.table → f.Leads g → f.Leads g' →
      post g.table g'.table a a' → Check.Spares (k a) g (k' a') g' post') :
    x.Swaps (c >>= k) (c' >>= k') f post' := by
  obtain ⟨⟨scope, outer, g, hat⟩, htables, hpost⟩ := hc
  obtain ⟨errors, errors', herr, herr', hsub⟩ := hat.reported
  have hold := (Check.Within.checkExpr x.ctx scope outer x.old).leads g
  have hnew := (Check.Within.checkExpr x.ctx scope outer x.new).leads g
  have h := hk _ _ _ _ htables (hat.before.trans (hold.trans hat.left))
    (hat.before.trans (hnew.trans hat.right)) hpost
  obtain ⟨more, more', hmore, hmore', hsub'⟩ := h.reported
  refine ⟨⟨scope, outer, g, hat.site, hat.before, hat.left.trans h.left, hat.right.trans h.right,
    errors ++ more, errors' ++ more', ?_, ?_, hsub.append hsub'⟩, h.tables, h.post⟩
  · exact hmore.trans (by rw [herr, List.append_assoc])
  · exact hmore'.trans (by rw [herr', List.append_assoc])

theorem typed {m : Mark} {outer : Pos} {infer infer' : Pos → Check Ty}
    (h : x.Swaps (infer (m.pos.getD outer)) (infer' (m.pos.getD outer)) f Fades) :
    x.Swaps (typed m outer infer) (typed m outer infer') f Fades := by
  refine h.bind fun ty ty' g g' ht _ _ hty => ?_
  refine .quiet ht (.noteType _ _) (.noteType _ _) fun _ _ k k' hk hk' => ?_
  rw [← hk, ← hk'] at ht hty
  exact .pure ht hty

end Exchange.Swaps

/-! ## Expressions -/

section Expressions

variable {x : Exchange} {scope : Scope}

mutual

/-- **An expression with a hole** is checked alike but for the hole. -/
theorem swaps_checkExpr (hx : x.Loses) (hsite : x.site scope) {f : Findings}
    (ht : Paired f.table f.table) (hscope : Scope.Pairs f.table f.table scope scope) (outer : Pos) :
    (hole : ExprHole) → x.Swaps (checkExpr x.ctx scope outer (hole.fill x.old))
      (checkExpr x.ctx scope outer (hole.fill x.new)) f Fades
  | .here => .here hx ht hscope hsite outer
  | .read m place => by
    rw [ExprHole.fill, ExprHole.fill, checkExpr, checkExpr]
    exact .typed (swaps_checkPlace hx hsite ht hscope _ place)
  | .arrayLength m array => by
    rw [ExprHole.fill, ExprHole.fill, checkExpr_arrayLength, checkExpr_arrayLength,
      array.pos_fill hx.pos]
    refine .typed ((swaps_checkExpr hx hsite ht hscope _ array).bind
      fun found found' g g' ht _ _ hfound => ?_)
    refine (spares_lengthFound ht hfound _).mono ?_
    rintro t t' _ _ ⟨rfl, rfl⟩
    exact .alike .int
  | .unary m op operand => by
    rw [ExprHole.fill, ExprHole.fill, checkExpr, checkExpr, operand.pos_fill hx.pos]
    exact .typed ((swaps_checkExpr hx hsite ht hscope _ operand).bind
      fun found found' g g' ht _ _ hfound => spares_unaryFound x.ctx ht op hfound _)
  | .lhs m op lhs rhs => by
    rw [ExprHole.fill, ExprHole.fill, checkExpr, checkExpr, lhs.pos_fill hx.pos]
    refine .typed ?_
    dsimp only
    split
    -- Operators with fixed operands: the right one is checked whatever the left one is.
    next operand result hop =>
      refine (swaps_checkExpr hx hsite ht hscope _ lhs).bind fun l l' g g' ht hg hg' hl => ?_
      exact spares_lhsFound x.ctx hop ht hl _ _ fun k k' ht hk hk' =>
        spares_checkExpr x.ctx ht (hscope.mono (hg.trans hk).elems (hg'.trans hk').elems) _ rhs
    next =>
      refine (swaps_checkExpr hx hsite ht hscope _ lhs).bind fun l l' g g' ht hg hg' hl => ?_
      refine (spares_checkExpr x.ctx ht (hscope.mono hg.elems hg'.elems) _ rhs).bind
        fun r r' k k' ht hk hk' hr => ?_
      exact spares_comparableFound x.ctx ht (hl.mono hk.elems hk'.elems) hr _
  | .rhs m op lhs rhs => by
    rw [ExprHole.fill, ExprHole.fill, checkExpr, checkExpr, rhs.pos_fill hx.pos]
    refine .typed ?_
    dsimp only
    split
    -- Here the left operand is required before the hole is reached.
    next operand result hop =>
      refine .behind (spares_checkExpr x.ctx ht hscope _ lhs) fun ht hg hl => ?_
      have hoperand {t t' : TypeTable} : Fades t t' operand operand :=
        .alike (alike_binaryTypes hop t t').1
      refine .behind (spares_require x.ctx ht hoperand hl _) fun ht hk _ => ?_
      have hle := (hg.trans hk).elems
      exact (swaps_checkExpr hx hsite ht (hscope.mono hle hle) _ rhs).bind
        fun r r' _ _ ht _ _ hr => spares_rhsFound x.ctx hop ht hr _
    next =>
      refine .behind (spares_checkExpr x.ctx ht hscope _ lhs) fun ht hg hl => ?_
      refine (swaps_checkExpr hx hsite ht (hscope.mono hg.elems hg.elems) _ rhs).bind
        fun r r' k k' ht hk hk' hr => ?_
      exact spares_comparableFound x.ctx ht (hl.mono hk.elems hk'.elems) hr _
  | .call m name args => by
    rw [ExprHole.fill, ExprHole.fill, checkExpr_call, checkExpr_call]
    exact .typed ((swaps_checkArgs hx hsite ht hscope _ args).bind
      fun tys tys' g g' ht _ _ htys => spares_callFound x.ctx ht m _ name htys)
  | .receiver m receiver method args => by
    rw [ExprHole.fill, ExprHole.fill, checkExpr_methodCall, checkExpr_methodCall]
    refine .typed ((swaps_checkExpr hx hsite ht hscope _ receiver).bind
      fun found found' g g' ht hg hg' hfound => ?_)
    refine (spares_checkArgs x.ctx ht (hscope.mono hg.elems hg'.elems) _ args).bind
      fun tys tys' k k' ht hk hk' htys => ?_
    exact spares_methodFound x.ctx ht (hfound.mono hk.elems hk'.elems) m _ method htys
  | .methodCall m receiver method args => by
    rw [ExprHole.fill, ExprHole.fill, checkExpr_methodCall, checkExpr_methodCall]
    refine .typed (.behind (spares_checkExpr x.ctx ht hscope _ receiver) fun ht hg hfound => ?_)
    refine (swaps_checkArgs hx hsite ht (hscope.mono hg.elems hg.elems) _ args).bind
      fun tys tys' k k' ht hk hk' htys => ?_
    exact spares_methodFound x.ctx ht (hfound.mono hk.elems hk'.elems) m _ method htys
  | .newArray m elem size => by
    rw [ExprHole.fill, ExprHole.fill, checkExpr, checkExpr, size.pos_fill hx.pos]
    exact .typed ((swaps_checkExpr hx hsite ht hscope _ size).bind
      fun found found' g g' ht _ _ hfound => spares_sizeFound x.ctx ht hfound _ _ elem)

/-- **A place with a hole** is checked alike but for the hole. -/
theorem swaps_checkPlace (hx : x.Loses) (hsite : x.site scope) {f : Findings}
    (ht : Paired f.table f.table) (hscope : Scope.Pairs f.table f.table scope scope) (outer : Pos) :
    (hole : PlaceHole) → x.Swaps (checkPlace x.ctx scope outer (hole.fill x.old))
      (checkPlace x.ctx scope outer (hole.fill x.new)) f Fades
  | .field m receiver name => by
    rw [PlaceHole.fill, PlaceHole.fill, checkPlace_field, checkPlace_field, receiver.pos_fill hx.pos]
    exact .typed ((swaps_checkExpr hx hsite ht hscope _ receiver).bind
      fun found found' g g' ht _ _ hfound => spares_fieldFound x.ctx ht hfound m _ name)
  | .array m array index => by
    rw [PlaceHole.fill, PlaceHole.fill, checkPlace_index, checkPlace_index]
    refine .typed ((swaps_checkExpr hx hsite ht hscope _ array).bind
      fun found found' g g' ht hg hg' hfound => ?_)
    refine (spares_checkExpr x.ctx ht (hscope.mono hg.elems hg'.elems) _ index).bind
      fun i i' k k' ht hk hk' hi => ?_
    exact spares_indexChecked x.ctx ht (hfound.mono hk.elems hk'.elems) hi _ _
  | .index m array index => by
    rw [PlaceHole.fill, PlaceHole.fill, checkPlace_index, checkPlace_index, index.pos_fill hx.pos]
    refine .typed (.behind (spares_checkExpr x.ctx ht hscope _ array) fun ht hg hfound => ?_)
    refine (swaps_checkExpr hx hsite ht (hscope.mono hg.elems hg.elems) _ index).bind
      fun i i' k k' ht hk hk' hi => ?_
    exact spares_indexChecked x.ctx ht (hfound.mono hk.elems hk'.elems) hi _ _

theorem swaps_checkArgs (hx : x.Loses) (hsite : x.site scope) {f : Findings}
    (ht : Paired f.table f.table) (hscope : Scope.Pairs f.table f.table scope scope) (outer : Pos) :
    (hole : ArgsHole) → x.Swaps (checkArgs x.ctx scope outer (hole.fill x.old))
      (checkArgs x.ctx scope outer (hole.fill x.new)) f ArgsFade
  | .head arg rest => by
    rw [ArgsHole.fill, ArgsHole.fill, checkArgs, checkArgs, arg.pos_fill hx.pos]
    refine (swaps_checkExpr hx hsite ht hscope outer arg).bind fun ty ty' g g' ht hg hg' hty => ?_
    refine (spares_checkArgs x.ctx ht (hscope.mono hg.elems hg'.elems) outer rest).bind
      fun tys tys' k k' ht hk hk' htys => ?_
    exact .pure ht (.cons ⟨rfl, hty.mono hk.elems hk'.elems⟩ htys)
  | .tail arg rest => by
    rw [ArgsHole.fill, ArgsHole.fill, checkArgs, checkArgs]
    refine .behind (spares_checkExpr x.ctx ht hscope outer arg) fun ht hg hty => ?_
    refine (swaps_checkArgs hx hsite ht (hscope.mono hg.elems hg.elems) outer rest).bind
      fun tys tys' k k' ht hk hk' htys => ?_
    exact .pure ht (.cons ⟨rfl, hty.mono hk.elems hk'.elems⟩ htys)

end

end Expressions

/-! ## Statements and declarations -/

section Statements

variable {x : Exchange} {owner : Option ClassId}

theorem swaps_checkCondition (hx : x.Loses) {scope : Scope} (hsite : x.site scope) {f : Findings}
    (ht : Paired f.table f.table) (hscope : Scope.Pairs f.table f.table scope scope) (outer : Pos)
    (of : ConditionOf) (cond : ExprHole) :
    x.Swaps (checkCondition x.ctx scope outer of (cond.fill x.old))
      (checkCondition x.ctx scope outer of (cond.fill x.new)) f AnyResults := by
  rw [checkCondition, checkCondition, cond.pos_fill hx.pos]
  exact (swaps_checkExpr hx hsite ht hscope outer cond).bind fun found found' g g' ht _ _ hfound =>
    spares_conditionFound x.ctx ht hfound _ of

mutual

/-- **A statement with a hole** is checked alike but for the hole. -/
theorem swaps_checkStmt (hx : x.Loses) {names : Names} {scope : Scope} {f : Findings}
    (ht : Paired f.table f.table) (hscope : Scope.Pairs f.table f.table scope scope)
    (hholds : Scope.Holds x.ctx owner names scope) (outer : Pos) : (hole : StmtHole) →
    (∀ s, Scope.Holds x.ctx owner (hole.names names) s → x.site s) →
    x.Swaps (checkStmt x.ctx scope outer (hole.fill x.old))
      (checkStmt x.ctx scope outer (hole.fill x.new)) f Scope.Pairs
  | .block pos stmts bodyPos, hsite => by
    rw [StmtHole.fill, StmtHole.fill, checkStmt, checkStmt, checkBlock, checkBlock]
    exact (swaps_checkStmts hx ht hscope.push hholds.push _ stmts hsite).bind
      fun _ _ _ _ ht hg hg' _ => .pure ht (hscope.mono hg.elems hg'.elems)
  -- The hole comes first: what is behind it is checked against types that fade.
  | .target pos target value, hsite => by
    rw [StmtHole.fill, StmtHole.fill, checkStmt, checkStmt]
    refine (swaps_checkPlace hx (hsite _ hholds) ht hscope _ target).bind
      fun expected expected' g g' ht hg hg' hexpected => ?_
    have hscope := hscope.mono hg.elems hg'.elems
    refine (spares_checkExpr x.ctx ht hscope _ value).bind fun found found' k k' ht hk hk' hfound => ?_
    exact spares_valueFound x.ctx ht (hscope.mono hk.elems hk'.elems) (hexpected.mono hk.elems hk'.elems)
      hfound _ .assignMismatch
  -- What comes before the hole is the same text, so both runs agree up to there.
  | .assign pos target value, hsite => by
    rw [StmtHole.fill, StmtHole.fill, checkStmt, checkStmt]
    refine .behind (spares_checkPlace x.ctx ht hscope _ target) fun ht hg hexpected => ?_
    have hscope := hscope.mono hg.elems hg.elems
    refine (swaps_checkExpr hx (hsite _ hholds) ht hscope _ value).bind
      fun found found' k k' ht hk hk' hfound => ?_
    exact spares_valueFound x.ctx ht (hscope.mono hk.elems hk'.elems) (hexpected.mono hk.elems hk'.elems)
      hfound _ .assignMismatch
  | .expr pos value, hsite => by
    rw [StmtHole.fill, StmtHole.fill, checkStmt, checkStmt]
    exact (swaps_checkExpr hx (hsite _ hholds) ht hscope _ value).bind
      fun _ _ _ _ ht hg hg' _ => .pure ht (hscope.mono hg.elems hg'.elems)
  | .ifCond pos cond body, hsite => by
    rw [StmtHole.fill, StmtHole.fill, checkStmt, checkStmt]
    refine (swaps_checkCondition hx (hsite _ hholds) ht hscope _ .if_ cond).bind
      fun _ _ g g' ht hg hg' _ => ?_
    have hscope := hscope.mono hg.elems hg'.elems
    exact (spares_checkStmt x.ctx ht hscope.push _ body).bind fun _ _ _ _ ht hk hk' _ =>
      .pure ht (hscope.mono hk.elems hk'.elems)
  | .ifThen pos cond body, hsite => by
    rw [StmtHole.fill, StmtHole.fill, checkStmt, checkStmt]
    refine .behind (spares_checkCondition x.ctx ht hscope _ .if_ cond) fun ht hg _ => ?_
    have hscope := hscope.mono hg.elems hg.elems
    exact (swaps_checkStmt hx ht hscope.push hholds.push _ body hsite).bind
      fun _ _ _ _ ht hk hk' _ => .pure ht (hscope.mono hk.elems hk'.elems)
  | .elseCond pos cond yes no, hsite => by
    rw [StmtHole.fill, StmtHole.fill, checkStmt, checkStmt]
    refine (swaps_checkCondition hx (hsite _ hholds) ht hscope _ .if_ cond).bind
      fun _ _ g g' ht hg hg' _ => ?_
    have hscope := hscope.mono hg.elems hg'.elems
    refine (spares_checkStmt x.ctx ht hscope.push _ yes).bind fun _ _ k k' ht hk hk' _ => ?_
    have hscope := hscope.mono hk.elems hk'.elems
    exact (spares_checkStmt x.ctx ht hscope.push _ no).bind fun _ _ _ _ ht hl hl' _ =>
      .pure ht (hscope.mono hl.elems hl'.elems)
  | .yes pos cond yes no, hsite => by
    rw [StmtHole.fill, StmtHole.fill, checkStmt, checkStmt]
    refine .behind (spares_checkCondition x.ctx ht hscope _ .if_ cond) fun ht hg _ => ?_
    have hscope := hscope.mono hg.elems hg.elems
    refine (swaps_checkStmt hx ht hscope.push hholds.push _ yes hsite).bind
      fun _ _ k k' ht hk hk' _ => ?_
    have hscope := hscope.mono hk.elems hk'.elems
    exact (spares_checkStmt x.ctx ht hscope.push _ no).bind fun _ _ _ _ ht hl hl' _ =>
      .pure ht (hscope.mono hl.elems hl'.elems)
  | .no pos cond yes no, hsite => by
    rw [StmtHole.fill, StmtHole.fill, checkStmt, checkStmt]
    refine .behind (spares_checkCondition x.ctx ht hscope _ .if_ cond) fun ht hg _ => ?_
    have hscope := hscope.mono hg.elems hg.elems
    refine .behind (spares_checkStmt x.ctx ht hscope.push _ yes) fun ht hk _ => ?_
    have hscope := hscope.mono hk.elems hk.elems
    exact (swaps_checkStmt hx ht hscope.push hholds.push _ no hsite).bind
      fun _ _ _ _ ht hl hl' _ => .pure ht (hscope.mono hl.elems hl'.elems)
  | .loopCond pos cond body, hsite => by
    rw [StmtHole.fill, StmtHole.fill, checkStmt, checkStmt]
    refine (swaps_checkCondition hx (hsite _ hholds) ht hscope _ .while_ cond).bind
      fun _ _ g g' ht hg hg' _ => ?_
    have hscope := hscope.mono hg.elems hg'.elems
    exact (spares_checkStmt x.ctx ht hscope.push _ body).bind fun _ _ _ _ ht hk hk' _ =>
      .pure ht (hscope.mono hk.elems hk'.elems)
  | .loop pos cond body, hsite => by
    rw [StmtHole.fill, StmtHole.fill, checkStmt, checkStmt]
    refine .behind (spares_checkCondition x.ctx ht hscope _ .while_ cond) fun ht hg _ => ?_
    have hscope := hscope.mono hg.elems hg.elems
    exact (swaps_checkStmt hx ht hscope.push hholds.push _ body hsite).bind
      fun _ _ _ _ ht hk hk' _ => .pure ht (hscope.mono hk.elems hk'.elems)
  | .ret pos value, hsite => by
    rw [StmtHole.fill, StmtHole.fill, checkStmt, checkStmt]
    refine (swaps_checkExpr hx (hsite _ hholds) ht hscope _ value).bind
      fun found found' g g' ht hg hg' hfound => ?_
    have hscope := hscope.mono hg.elems hg'.elems
    exact spares_valueFound x.ctx ht hscope (.alike hscope.returns) hfound _ .returnMismatch

theorem swaps_checkStmts (hx : x.Loses) {names : Names} {scope : Scope} {f : Findings}
    (ht : Paired f.table f.table) (hscope : Scope.Pairs f.table f.table scope scope)
    (hholds : Scope.Holds x.ctx owner names scope) (outer : Pos) : (hole : StmtsHole) →
    (∀ s, Scope.Holds x.ctx owner (hole.names names) s → x.site s) →
    x.Swaps (checkStmts x.ctx scope outer (hole.fill x.old))
      (checkStmts x.ctx scope outer (hole.fill x.new)) f AnyResults
  | .head s rest, hsite => by
    rw [StmtsHole.fill, StmtsHole.fill, checkStmts, checkStmts]
    exact (swaps_checkStmt hx ht hscope hholds outer s hsite).bind fun _ _ _ _ ht _ _ hbehind =>
      spares_checkStmts x.ctx ht hbehind outer rest
  | .tail s rest, hsite => by
    rw [StmtsHole.fill, StmtsHole.fill, checkStmts, checkStmts]
    exact .behind (spares_checkStmt x.ctx ht hscope outer s) fun ht _ hbehind =>
      swaps_checkStmts hx ht hbehind (holds_checkStmt hholds outer s f) outer rest hsite

end

end Statements

end Typing

end ClassLang
