import ClassLang.Proofs.Source.Bare
import ClassLang.Proofs.Source.Grammar
import ClassLang.Proofs.Source.Phrases
/-!
# Source — phrases of derived tokens

What the grammar derives are phrases: every rule makes phrases of phrases
(`written_of_rule`). The rules leave open which `if` an `else` belongs to;
in a phrase it is the nearest one (`StmtPhrase.attach`).
-/


namespace ClassLang.Source

open Token (Kind)

/-- The tokens are a phrase of the nonterminal. -/
def Written : Nonterminal → List Kind → Prop
  | .program, w => ∃ items, Phrases ItemPhrase w items
  | .class_, w => ∃ c, ClassPhrase w c
  | .field, w => ∃ var : VarDecl, w = var.kinds ++ [.symbol .semicolon]
  | .method, w | .function, w => ∃ f, FunctionPhrase w f
  | .params, w => ∃ params, w = paramKinds params
  | .type_, w => ∃ ty : TypeExpr, w = ty.kinds
  | .block, w => ∃ b, BlockPhrase w b
  | .stmt, w => ∃ s, StmtPhrase w s
  | .place, w => ∃ m place, PostfixPhrase w (.read m place)
  | .expr, w => ∃ e, BinaryPhrase 0 w e
  | .and, w => ∃ e, BinaryPhrase BinaryOp.and.level w e
  | .eq, w => ∃ e, BinaryPhrase BinaryOp.equals.level w e
  | .rel, w => ∃ e, BinaryPhrase BinaryOp.less.level w e
  | .add, w => ∃ e, BinaryPhrase BinaryOp.plus.level w e
  | .mul, w => ∃ e, BinaryPhrase BinaryOp.times.level w e
  | .unary, w => ∃ e, UnaryPhrase w e
  | .suffixed, w => ∃ e, PostfixPhrase w e
  | .primary, w => ∃ e, AtomPhrase w e
  | .base, w => ∃ ty : TypeExpr, ty.pairs = [] ∧ w = [ty.base]
  | .args, w => ∃ args, ArgsPhrase (.symbol .lparen :: (w ++ [.symbol .rparen])) args

/-- A row of words that each have a reading has one itself. -/
theorem exists_phrases {α : Type} {R : List Kind → α → Prop} {ws : List (List Kind)}
    (h : ∀ u ∈ ws, ∃ a, R u a) : ∃ as, Phrases R ws.flatten as := by
  induction ws with
  | nil => exact ⟨[], .nil⟩
  | cons u rest ih =>
    rw [List.forall_mem_cons] at h
    obtain ⟨⟨a, ha⟩, hrest⟩ := h
    obtain ⟨as, has⟩ := ih hrest
    exact ⟨a :: as, .cons ha has⟩

theorem exists_stmtsPhrase {ws : List (List Kind)} (h : ∀ u ∈ ws, ∃ s, StmtPhrase u s) :
    ∃ stmts, StmtsPhrase ws.flatten stmts := by
  induction ws with
  | nil => exact ⟨[], .nil⟩
  | cons u rest ih =>
    rw [List.forall_mem_cons] at h
    obtain ⟨⟨s, hs⟩, hrest⟩ := h
    obtain ⟨stmts, hstmts⟩ := ih hrest
    exact ⟨s :: stmts, .cons hs hstmts⟩

/-- A row of bracket pairs is what a type writes behind its base. -/
theorem flatten_pairs {ws : List (List Kind)}
    (h : ∀ u ∈ ws, u = [.symbol .lbracket, .symbol .rbracket]) : ws.flatten = brackets ws.length := by
  induction ws with
  | nil => rfl
  | cons u rest ih =>
    rw [List.forall_mem_cons] at h
    rw [List.flatten_cons, ih h.2, h.1]
    rfl

/-- Operators of one level and their right operands go on with an operand. -/
theorem BinaryPhrase.chain {level : Nat} {ws : List (List Kind)}
    (h : ∀ x ∈ ws, ∃ op : BinaryOp, op.level = level ∧ ∃ v e, BinaryPhrase (level + 1) v e ∧
      x = .symbol op.symbol :: v) {u : List Kind} {e : Expr} (hu : BinaryPhrase level u e) :
    ∃ e', BinaryPhrase level (u ++ ws.flatten) e' := by
  induction ws generalizing u e with
  | nil => exact ⟨e, by simpa using hu⟩
  | cons x rest ih =>
    rw [List.forall_mem_cons] at h
    obtain ⟨⟨op, rfl, v, rhs, hv, rfl⟩, hrest⟩ := h
    obtain ⟨e', he'⟩ := ih hrest (.binary (m := .blank) op (Nat.le_refl _) hu hv)
    exact ⟨e', by simpa using he'⟩

/-- **An `else` behind a statement with an open end** belongs to the `if` at
its end. -/
theorem StmtPhrase.attach {w : List Kind} {no : Stmt} (hno : StmtPhrase w no) {v : List Kind}
    {s : Stmt} : StmtPhrase v s → s.openEnd = true →
    ∃ s', StmtPhrase (v ++ .keyword .else_ :: w) s'
  | @StmtPhrase.ifThen _ _ _ cond body hcond hbody, _ => by
    by_cases hopen : body.openEnd = true
    · obtain ⟨s', hs'⟩ := hno.attach hbody hopen
      refine ⟨.ifThen none cond s', ?_⟩
      simpa using StmtPhrase.ifThen hcond hs'
    · refine ⟨.ifElse none cond body no, ?_⟩
      simpa using StmtPhrase.ifElse hcond hbody (Bool.not_eq_true _ ▸ hopen) hno
  | @StmtPhrase.ifElse _ _ _ _ cond yes _ hcond hyes hclosed hlast, hopen => by
    obtain ⟨s', hs'⟩ := hno.attach hlast hopen
    refine ⟨.ifElse none cond yes s', ?_⟩
    simpa using StmtPhrase.ifElse hcond hyes hclosed hs'
  | @StmtPhrase.loop _ _ _ cond _ hcond hbody, hopen => by
    obtain ⟨s', hs'⟩ := hno.attach hbody hopen
    refine ⟨.loop none cond s', ?_⟩
    simpa using StmtPhrase.loop hcond hs'

/-- Members, calls and indices go on with an expression. -/
theorem PostfixPhrase.chain {ws : List (List Kind)}
    (h : ∀ x ∈ ws, ∀ {u e}, PostfixPhrase u e → ∃ e', PostfixPhrase (u ++ x) e') {u : List Kind}
    {e : Expr} (hu : PostfixPhrase u e) : ∃ e', PostfixPhrase (u ++ ws.flatten) e' := by
  induction ws generalizing u e with
  | nil => exact ⟨e, by simpa using hu⟩
  | cons x rest ih =>
    rw [List.forall_mem_cons] at h
    obtain ⟨e₁, he₁⟩ := h.1 hu
    obtain ⟨e', he'⟩ := ih h.2 he₁
    exact ⟨e', by simpa using he'⟩

/-- Arguments behind commas. -/
theorem exists_argListPhrase {ws : List (List Kind)}
    (h : ∀ x ∈ ws, ∃ v e, BinaryPhrase 0 v e ∧ x = .symbol .comma :: v) {u : List Kind} {e : Expr}
    (hu : BinaryPhrase 0 u e) :
    ∃ args, ArgListPhrase (u ++ (ws.flatten ++ [.symbol .rparen])) args := by
  induction ws generalizing u e with
  | nil => exact ⟨[e], .one hu⟩
  | cons x rest ih =>
    rw [List.forall_mem_cons] at h
    obtain ⟨⟨v, e', he', rfl⟩, hrest⟩ := h
    obtain ⟨args, hargs⟩ := ih hrest he'
    exact ⟨e :: args, by simpa using ArgListPhrase.cons hu hargs⟩

/-- Parameters behind commas. -/
theorem exists_params {ws : List (List Kind)}
    (h : ∀ x ∈ ws, ∃ var : VarDecl, x = .symbol .comma :: var.kinds) (param : VarDecl) :
    ∃ params, param.kinds ++ ws.flatten = paramKinds params := by
  induction ws generalizing param with
  | nil => exact ⟨[param], by simp [paramKinds]⟩
  | cons x rest ih =>
    rw [List.forall_mem_cons] at h
    obtain ⟨⟨var, rfl⟩, hrest⟩ := h
    obtain ⟨params, hparams⟩ := ih hrest var
    refine ⟨param :: params, ?_⟩
    cases params with
    | nil => simp [VarDecl.kinds, TypeExpr.kinds, paramKinds] at hparams
    | cons next tail => simp [paramKinds, ← hparams]

/-- Behind the name of a class stands its superclass, or nothing. -/
theorem exists_extends {w : List Kind}
    (h : (∃ u v, u = [.keyword .extends_] ∧ (∃ name, v = [Kind.ident name]) ∧ w = u ++ v) ∨ w = []) :
    ∃ super?, w = extendsKinds super? := by
  rcases h with ⟨_, _, rfl, ⟨name, rfl⟩, rfl⟩ | rfl
  · exact ⟨some name, rfl⟩
  · exact ⟨none, rfl⟩

/-- A base with pairs of brackets is the writing of a type. -/
theorem exists_kinds {base : TypeExpr} (hbase : base.pairs = []) (n : Nat) :
    ∃ ty : TypeExpr, base.base :: brackets n = ty.kinds :=
  ⟨.arrays n base, by
    rw [TypeExpr.kinds, TypeExpr.base_arrays, TypeExpr.pairs_arrays, hbase, List.append_nil]⟩

/-- A literal has a value where its digits fit a signed word. -/
theorem literal?_isSome {digits : String} :
    digitsValue digits ≤ 2147483647 ↔ ∃ value, literal? digits = some value := by
  unfold literal?
  dsimp only
  split
  · exact ⟨fun _ => ⟨_, rfl⟩, fun _ => by omega⟩
  · exact ⟨fun _ => by omega, fun ⟨_, h⟩ => by cases h⟩

section Written

open Ebnf

variable {w : List Kind}

theorem written_class (h : Nonterminal.class_.rule.Holds Written w) : Written .class_ w := by
  simp only [Nonterminal.rule, holds_append, holds_keyword, holds_symbol, holds_ident, holds_opt,
    holds_star, holds_or, holds_nonterminal] at h
  obtain ⟨_, _, ⟨_, _, ⟨_, _, ⟨_, _, ⟨_, _, rfl, ⟨name, rfl⟩, rfl⟩, hextends, rfl⟩, rfl, rfl⟩,
    ⟨ws, hws, rfl⟩, rfl⟩, rfl, rfl⟩ := h
  obtain ⟨super?, rfl⟩ := exists_extends hextends
  have hmembers : ∀ u ∈ ws, ∃ m, MemberPhrase u m := by
    intro u hu
    rcases hws u hu with ⟨var, rfl⟩ | ⟨f, hf⟩
    · exact ⟨_, .field var⟩
    · exact ⟨_, .method hf⟩
  obtain ⟨ms, hms⟩ := exists_phrases hmembers
  have hclass := ClassPhrase.mk (c := ⟨0, name, super?, ms.filterMap Member.field?,
    ms.filterMap Member.method?, none⟩) hms rfl rfl
  exact ⟨_, by simpa using hclass⟩

theorem written_function (h : Nonterminal.function.rule.Holds Written w) : Written .function w := by
  simp only [Nonterminal.rule, holds_append, holds_symbol, holds_ident, holds_opt,
    holds_nonterminal] at h
  obtain ⟨_, _, ⟨_, _, ⟨_, _, ⟨_, _, ⟨_, _, ⟨ty, rfl⟩, ⟨name, rfl⟩, rfl⟩, rfl, rfl⟩, hparams, rfl⟩,
    rfl, rfl⟩, ⟨body, hbody⟩, rfl⟩ := h
  have hfunction (params : List VarDecl) :=
    FunctionPhrase.mk (f := ⟨0, ty, name, params, body, none⟩) hbody
  rcases hparams with ⟨params, rfl⟩ | rfl
  · exact ⟨⟨0, ty, name, params, body, none⟩, by simpa using hfunction params⟩
  · exact ⟨⟨0, ty, name, [], body, none⟩, by simpa [paramKinds] using hfunction []⟩

theorem written_params (h : Nonterminal.params.rule.Holds Written w) : Written .params w := by
  simp only [Nonterminal.rule, holds_append, holds_symbol, holds_ident, holds_star,
    holds_nonterminal] at h
  obtain ⟨_, _, ⟨_, _, ⟨ty, rfl⟩, ⟨name, rfl⟩, rfl⟩, ⟨ws, hws, rfl⟩, rfl⟩ := h
  refine exists_params (fun x hx => ?_) ⟨0, ty, name, none⟩
  obtain ⟨_, _, ⟨_, _, rfl, ⟨ty, rfl⟩, rfl⟩, ⟨name, rfl⟩, rfl⟩ := hws x hx
  exact ⟨⟨0, ty, name, none⟩, rfl⟩

/-- What the rule for statements derives is the phrase of a statement. -/
theorem written_stmt (h : Nonterminal.stmt.rule.Holds Written w) : Written .stmt w := by
  simp only [Nonterminal.rule, holds_append, holds_keyword, holds_symbol, holds_ident, holds_opt,
    holds_or, holds_nonterminal] at h
  rcases h with ((((((hblock | hdecl) | hif) | hwhile) | hret) | hassign) | hexpr)
  · obtain ⟨b, hb⟩ := hblock
    exact ⟨.block none b, .block hb⟩
  · obtain ⟨_, _, ⟨_, _, ⟨ty, rfl⟩, ⟨name, rfl⟩, rfl⟩, rfl, rfl⟩ := hdecl
    exact ⟨.decl none ⟨0, ty, name, none⟩, .decl ⟨0, ty, name, none⟩⟩
  · obtain ⟨_, _, ⟨_, _, ⟨_, _, ⟨_, _, ⟨_, _, rfl, rfl, rfl⟩, ⟨cond, hcond⟩, rfl⟩, rfl, rfl⟩,
      ⟨yes, hyes⟩, rfl⟩, helse, rfl⟩ := hif
    rcases helse with ⟨_, _, rfl, ⟨no, hno⟩, rfl⟩ | rfl
    · by_cases hopen : yes.openEnd = true
      · obtain ⟨s, hs⟩ := hno.attach hyes hopen
        refine ⟨.ifThen none cond s, ?_⟩
        simpa using StmtPhrase.ifThen hcond hs
      · refine ⟨.ifElse none cond yes no, ?_⟩
        simpa using StmtPhrase.ifElse hcond hyes (Bool.not_eq_true _ ▸ hopen) hno
    · refine ⟨.ifThen none cond yes, ?_⟩
      simpa using StmtPhrase.ifThen hcond hyes
  · obtain ⟨_, _, ⟨_, _, ⟨_, _, ⟨_, _, rfl, rfl, rfl⟩, ⟨cond, hcond⟩, rfl⟩, rfl, rfl⟩,
      ⟨body, hbody⟩, rfl⟩ := hwhile
    refine ⟨.loop none cond body, ?_⟩
    simpa using StmtPhrase.loop hcond hbody
  · obtain ⟨_, _, ⟨_, _, rfl, ⟨value, hvalue⟩, rfl⟩, rfl, rfl⟩ := hret
    exact ⟨.ret none value, .ret hvalue⟩
  · obtain ⟨_, _, ⟨_, _, ⟨_, _, ⟨m, target, htarget⟩, rfl, rfl⟩, ⟨value, hvalue⟩, rfl⟩, rfl, rfl⟩ :=
      hassign
    refine ⟨.assign none target value, ?_⟩
    simpa using StmtPhrase.assign (.unary (.suffixed htarget)) hvalue
  · obtain ⟨_, _, ⟨value, hvalue⟩, rfl, rfl⟩ := hexpr
    exact ⟨.expr none value, .expr hvalue⟩

/-- What the rule for places derives is the phrase of a place that is read. -/
theorem written_place (h : Nonterminal.place.rule.Holds Written w) : Written .place w := by
  simp only [Nonterminal.rule, holds_append, holds_symbol, holds_ident, holds_field, holds_or,
    holds_nonterminal] at h
  rcases h with (((hvar | hfield) | hindex) | hparens)
  · obtain ⟨name, rfl⟩ := hvar
    exact ⟨.blank, .var .blank name, .atom .var⟩
  · obtain ⟨_, _, ⟨_, _, ⟨e, he⟩, rfl, rfl⟩, ⟨name, hname, rfl⟩, rfl⟩ := hfield
    exact ⟨.blank, .field .blank e name, by simpa using PostfixPhrase.field he hname⟩
  · obtain ⟨_, _, ⟨_, _, ⟨_, _, ⟨e, he⟩, rfl, rfl⟩, ⟨i, hi⟩, rfl⟩, rfl, rfl⟩ := hindex
    exact ⟨.blank, .index .blank e i, by simpa using PostfixPhrase.index he hi⟩
  · obtain ⟨_, _, ⟨_, _, rfl, ⟨m, place, hplace⟩, rfl⟩, rfl, rfl⟩ := hparens
    exact ⟨m, place, .atom (.parens (.unary (.suffixed hplace)))⟩

/-- Operands with operators of one level between them. -/
theorem written_operators {n m : Nonterminal} {ops : Ebnf} {level : Nat}
    (hrule : n.rule = nonterminal m ++ star (ops ++ nonterminal m))
    (hoperand : ∀ v, Written m v → ∃ e, BinaryPhrase (level + 1) v e)
    (hops : ∀ k, ops.Holds Written k → ∃ op : BinaryOp, op.level = level ∧ k = [.symbol op.symbol])
    (h : n.rule.Holds Written w) : ∃ e, BinaryPhrase level w e := by
  simp only [hrule, holds_append, holds_star, holds_nonterminal] at h
  obtain ⟨u, _, hu, ⟨ws, hws, rfl⟩, rfl⟩ := h
  obtain ⟨e, he⟩ := hoperand u hu
  refine BinaryPhrase.chain (fun x hx => ?_) (he.weaken (Nat.le_succ _))
  obtain ⟨k, v, hk, hv, rfl⟩ := hws x hx
  obtain ⟨op, hlevel, rfl⟩ := hops k hk
  obtain ⟨rhs, hrhs⟩ := hoperand v hv
  exact ⟨op, hlevel, v, rhs, hrhs, rfl⟩

theorem written_and (h : Nonterminal.and.rule.Holds Written w) : Written .and w :=
  written_operators (n := .and) (m := .eq) rfl (fun _ ⟨e, he⟩ => ⟨e, he.weaken (by decide)⟩)
    (fun _ hk => ⟨.and, rfl, holds_symbol.1 hk⟩) h

theorem written_eq (h : Nonterminal.eq.rule.Holds Written w) : Written .eq w :=
  written_operators (n := .eq) (m := .rel) rfl (fun _ ⟨e, he⟩ => ⟨e, he.weaken (by decide)⟩)
    (fun _ hk => ⟨.equals, rfl, holds_symbol.1 hk⟩) h

theorem written_rel (h : Nonterminal.rel.rule.Holds Written w) : Written .rel w :=
  written_operators (n := .rel) (m := .add) rfl (fun _ ⟨e, he⟩ => ⟨e, he.weaken (by decide)⟩)
    (fun _ hk => ⟨.less, rfl, holds_symbol.1 hk⟩) h

theorem written_add (h : Nonterminal.add.rule.Holds Written w) : Written .add w :=
  written_operators (n := .add) (m := .mul) rfl (fun _ ⟨e, he⟩ => ⟨e, he.weaken (by decide)⟩)
    (fun _ hk => (holds_or.1 hk).elim (fun hk => ⟨.plus, rfl, holds_symbol.1 hk⟩)
      fun hk => ⟨.minus, rfl, holds_symbol.1 hk⟩) h

theorem written_mul (h : Nonterminal.mul.rule.Holds Written w) : Written .mul w :=
  written_operators (n := .mul) (m := .unary) rfl (fun _ ⟨e, he⟩ => ⟨e, .unary he⟩)
    (fun _ hk => (holds_or.1 hk).elim (fun hk => ⟨.times, rfl, holds_symbol.1 hk⟩)
      fun hk => ⟨.div, rfl, holds_symbol.1 hk⟩) h

theorem written_unary (h : Nonterminal.unary.rule.Holds Written w) : Written .unary w := by
  simp only [Nonterminal.rule, holds_append, holds_symbol, holds_leastMagnitude, holds_or,
    holds_nonterminal] at h
  rcases h with ((hop | hleast) | hsuffixed)
  · obtain ⟨_, v, rfl | rfl, ⟨e, he⟩, rfl⟩ := hop
    · exact ⟨.unary .blank .minus e, .unary .minus he⟩
    · exact ⟨.unary .blank .negate e, .unary .negate he⟩
  · obtain ⟨_, _, rfl, rfl, rfl⟩ := hleast
    exact ⟨.int .blank Int32.minValue, .least⟩
  · obtain ⟨e, he⟩ := hsuffixed
    exact ⟨e, .suffixed he⟩

theorem written_args (h : Nonterminal.args.rule.Holds Written w) : Written .args w := by
  simp only [Nonterminal.rule, holds_append, holds_symbol, holds_opt, holds_star,
    holds_nonterminal] at h
  rcases h with ⟨u, _, ⟨e, he⟩, ⟨ws, hws, rfl⟩, rfl⟩ | rfl
  · have hargs : ∀ x ∈ ws, ∃ v e, BinaryPhrase 0 v e ∧ x = .symbol .comma :: v := by
      intro x hx
      obtain ⟨_, v, rfl, ⟨e', he'⟩, rfl⟩ := hws x hx
      exact ⟨v, e', he', rfl⟩
    obtain ⟨args, hargs⟩ := exists_argListPhrase hargs he
    exact ⟨args, by simpa using ArgsPhrase.list hargs⟩
  · exact ⟨[], .nil⟩

/-- What the rule for accesses derives is a postfix phrase. -/
theorem written_suffixed (h : Nonterminal.suffixed.rule.Holds Written w) : Written .suffixed w := by
  simp only [Nonterminal.rule, holds_append, holds_symbol, holds_ident, holds_field, holds_length,
    holds_or, holds_star, holds_nonterminal] at h
  obtain ⟨u, _, ⟨e, he⟩, ⟨ws, hws, rfl⟩, rfl⟩ := h
  refine PostfixPhrase.chain (fun x hx u e he => ?_) (.atom he)
  rcases hws x hx with (((hlength | hcall) | hfield) | hindex)
  · obtain ⟨_, _, rfl, rfl, rfl⟩ := hlength
    exact ⟨.arrayLength .blank e, .length he⟩
  · obtain ⟨_, _, ⟨_, _, ⟨_, _, ⟨_, _, rfl, ⟨name, rfl⟩, rfl⟩, rfl, rfl⟩, ⟨args, hargs⟩, rfl⟩,
      rfl, rfl⟩ := hcall
    exact ⟨.methodCall .blank e name args, by simpa using PostfixPhrase.call he hargs⟩
  · obtain ⟨_, _, rfl, ⟨name, hname, rfl⟩, rfl⟩ := hfield
    exact ⟨.read .blank (.field .blank e name), .field he hname⟩
  · obtain ⟨_, _, ⟨_, _, rfl, ⟨i, hi⟩, rfl⟩, rfl, rfl⟩ := hindex
    exact ⟨.read .blank (.index .blank e i), .index he hi⟩

theorem written_primary (h : Nonterminal.primary.rule.Holds Written w) : Written .primary w := by
  simp only [Nonterminal.rule, holds_append, holds_keyword, holds_symbol, holds_ident,
    holds_integer, holds_or, holds_star, holds_nonterminal] at h
  rcases h with (((((((((hint | rfl) | rfl) | rfl) | rfl) | hvar) | hcall) | hparens) | hobject) |
    harray)
  · obtain ⟨digits, hvalue, rfl⟩ := hint
    obtain ⟨value, hvalue⟩ := literal?_isSome.1 hvalue
    exact ⟨.int .blank value, .int hvalue⟩
  · exact ⟨.bool .blank true, .true_⟩
  · exact ⟨.bool .blank false, .false_⟩
  · exact ⟨.null .blank, .null⟩
  · exact ⟨.this .blank, .this⟩
  · obtain ⟨name, rfl⟩ := hvar
    exact ⟨.read .blank (.var .blank name), .var⟩
  · obtain ⟨_, _, ⟨_, _, ⟨_, _, ⟨name, rfl⟩, rfl, rfl⟩, ⟨args, hargs⟩, rfl⟩, rfl, rfl⟩ := hcall
    exact ⟨.call .blank name args, by simpa using AtomPhrase.call hargs⟩
  · obtain ⟨_, _, ⟨_, _, rfl, ⟨e, he⟩, rfl⟩, rfl, rfl⟩ := hparens
    exact ⟨e, .parens he⟩
  · obtain ⟨_, _, ⟨_, _, ⟨_, _, rfl, ⟨name, rfl⟩, rfl⟩, rfl, rfl⟩, rfl, rfl⟩ := hobject
    exact ⟨.newObject .blank name, .newObject⟩
  · obtain ⟨_, _, ⟨_, _, ⟨_, _, ⟨_, _, ⟨_, _, rfl, ⟨base, hbase, rfl⟩, rfl⟩, rfl, rfl⟩,
      ⟨size, hsize⟩, rfl⟩, rfl, rfl⟩, ⟨ws, hws, rfl⟩, rfl⟩ := harray
    have hpairs : ∀ x ∈ ws, x = [.symbol .lbracket, .symbol .rbracket] := by
      intro x hx
      obtain ⟨_, _, rfl, rfl, rfl⟩ := hws x hx
      rfl
    have hnew := AtomPhrase.newArray (m := .blank) (.arrays ws.length base) hsize
    rw [TypeExpr.base_arrays, TypeExpr.pairs_arrays, hbase] at hnew
    refine ⟨.newArray .blank (.arrays ws.length base) size, ?_⟩
    rw [flatten_pairs hpairs]
    simpa using hnew

/-- **Every rule makes phrases of phrases.** -/
theorem written_of_rule (n : Nonterminal) (w : List Kind) (h : n.rule.Holds Written w) :
    Written n w := by
  -- One case for each nonterminal: its rule is opened, and parts are phrases by assumption.
  cases n with
  | program =>
    simp only [Nonterminal.rule, holds_star, holds_or, holds_nonterminal] at h
    obtain ⟨ws, hws, rfl⟩ := h
    refine exists_phrases fun u hu => ?_
    rcases hws u hu with ⟨c, hc⟩ | ⟨f, hf⟩
    · exact ⟨_, .class_ hc⟩
    · exact ⟨_, .function hf⟩
  | class_ => exact written_class h
  | field =>
    simp only [Nonterminal.rule, holds_append, holds_symbol, holds_ident, holds_nonterminal] at h
    obtain ⟨_, _, ⟨_, _, ⟨ty, rfl⟩, ⟨name, rfl⟩, rfl⟩, rfl, rfl⟩ := h
    exact ⟨⟨0, ty, name, none⟩, rfl⟩
  | method => exact h
  | function => exact written_function h
  | params => exact written_params h
  | type_ =>
    simp only [Nonterminal.rule, holds_append, holds_symbol, holds_star, holds_nonterminal] at h
    obtain ⟨_, _, ⟨base, hbase, rfl⟩, ⟨ws, hws, rfl⟩, rfl⟩ := h
    have hpairs : ∀ x ∈ ws, x = [.symbol .lbracket, .symbol .rbracket] := by
      intro x hx
      obtain ⟨_, _, rfl, rfl, rfl⟩ := hws x hx
      rfl
    rw [flatten_pairs hpairs]
    exact exists_kinds hbase ws.length
  | block =>
    simp only [Nonterminal.rule, holds_append, holds_symbol, holds_star, holds_nonterminal] at h
    obtain ⟨_, _, ⟨_, _, rfl, ⟨ws, hws, rfl⟩, rfl⟩, rfl, rfl⟩ := h
    obtain ⟨stmts, hstmts⟩ := exists_stmtsPhrase hws
    exact ⟨.mk stmts none, .mk hstmts⟩
  | stmt => exact written_stmt h
  | place => exact written_place h
  | expr =>
    obtain ⟨e, he⟩ := h
    exact ⟨e, he.weaken (Nat.zero_le _)⟩
  | and => exact written_and h
  | eq => exact written_eq h
  | rel => exact written_rel h
  | add => exact written_add h
  | mul => exact written_mul h
  | unary => exact written_unary h
  | suffixed => exact written_suffixed h
  | primary => exact written_primary h
  | base =>
    simp only [Nonterminal.rule, holds_keyword, holds_ident, holds_or] at h
    rcases h with ((rfl | rfl) | ⟨name, rfl⟩)
    · exact ⟨.int, rfl, rfl⟩
    · exact ⟨.bool, rfl, rfl⟩
    · exact ⟨.class_ name, rfl, rfl⟩
  | args => exact written_args h

end Written

end ClassLang.Source
