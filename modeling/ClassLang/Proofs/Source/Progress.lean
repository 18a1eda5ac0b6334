import ClassLang.Proofs.Source.Acceptance
import ClassLang.Proofs.Source.Attempts
/-!
# Source — reading makes progress

Reading by single moves comes to what the reading routines come to, if the bound is no
less than the number of tokens that are left: `Comes` or `Follows` for each routine and
`Turns` for each round of a loop. An expression in an expression and a statement in a
statement stand behind a token at least, so the bound is also enough for the depth.
-/


namespace ClassLang.Source

open Token (Kind)

namespace Attempt

variable {c : Cursor} {bound : Nat}

/-- A kind that stands for something is not the end of the file, which stands for
nothing. -/
theorem ne_eof_of_some {α : Type} {f : Kind → Option α} {k : Kind} {a : α} (hf : f .eof = none)
    (h : f k = some a) : k ≠ .eof := by
  rintro rfl
  cases hf.symm.trans h

/-! ## Types -/

theorem comes_baseType (hc : c.Ending) : Comes baseType c (parseBaseType c).outcome := by
  refine .get ?_
  split
  next ty h =>
    obtain ⟨t, l, n, rfl, -, hne⟩ := Cursor.exists_cons rfl (ne_eof_of_some rfl h)
    rw [outcome_parseBaseType_cons h]
    exact .bump hc hne (.pure ty ⟨l, n⟩)
  next h =>
    rw [outcome_parseBaseType_of_none h]
    exact .fail c _

/-- What is read behind a base type. -/
def brackets (ty : TypeExpr) (c : Cursor) : Outcome TypeExpr :=
  .ok ((parseBrackets ty c).value, (parseBrackets ty c).cursor)

/-- One turn of the loop over bracket pairs takes one pair or ends it. -/
theorem turns_pairRound (ty : TypeExpr) (hc : c.Ending) : ∃ o, Turns (pairRound ty) c o ∧
    brackets ty c = Outcome.andThen o (Round.behind brackets fun ty c => .ok (ty, c)) := by
  by_cases h : c.kind = .symbol .lbracket ∧ c.kind₁ = .symbol .rbracket
  · obtain ⟨hopen, hclose⟩ := h
    obtain ⟨_ | ⟨t, _ | ⟨u, l⟩⟩, n⟩ := c
    · cases hopen
    · cases hclose
    · have ht : t.kind ≠ .eof := fun heof => by cases hopen.symm.trans heof
      have hu : u.kind ≠ .eof := fun heof => by cases hclose.symm.trans heof
      refine ⟨.ok (.again (.array ty), ⟨l, n⟩), .get ?_, ?_⟩
      · rw [if_pos ⟨hopen, hclose⟩]
        exact .bump hc ht (.bump (hc.tail ht) hu (.pure _ ⟨l, n⟩))
      · have hpair : bracketPairs ty (t :: u :: l) = bracketPairs (.array ty) l := by
          rw [bracketPairs, if_pos ⟨hopen, hclose⟩]
        simp only [brackets, parseBrackets, hpair]
        rfl
  · refine ⟨.ok (.leave ty, c), .get ?_, ?_⟩
    · rw [if_neg h]
      exact .leave ty c
    · obtain ⟨_ | ⟨t, _ | ⟨u, l⟩⟩, n⟩ := c
      · rfl
      · rfl
      · have hnone : bracketPairs ty (t :: u :: l) = (ty, t :: u :: l) := by
          rw [bracketPairs, if_neg (show ¬(t.kind = _ ∧ u.kind = _) from h)]
        simp only [brackets, parseBrackets, hnone]
        rfl

theorem comes_pairs (ty : TypeExpr) (hc : c.Within bound) :
    Comes (loop pairRound bound ty) c (brackets ty c) :=
  .loop_last (fun ty _ hc => turns_pairRound ty hc.ending) ty hc hc.left_le

theorem comes_type (hc : c.Within bound) : Comes (type bound) c (parseType c).outcome :=
  ((comes_baseType hc.ending).bind fun ty _ _ hr => comes_pairs ty (hc.of_reaches hr)).congr
    (outcome_parseType c).symm

theorem comes_varDecl (hc : c.Within bound) : Comes (varDecl bound) c (parseVarDecl c).outcome := by
  refine ((comes_type hc).bind fun ty c₁ _ hr => .node ?_).congr (outcome_parseVarDecl c).symm
  have hid : Cursor.Ending ⟨c₁.tokens, c₁.next + 1⟩ := hc.ending.of_reaches (hr.of_tokens rfl)
  exact (comes_ident hid).map

theorem follows_varDecl (bound : Nat) :
    Follows (varDecl bound) (fun c => (parseVarDecl c).outcome) bound :=
  ⟨fun _ => comes_varDecl, fun _ _ _ => lt_of_outcome⟩

/-! ## Expressions -/

section

variable {e : Nat → Attempt Expr} {close : Kind}

/-- Expressions one level below are read within the bound. -/
abbrev ReadsExprs (e : Nat → Attempt Expr) (bound : Nat) : Prop :=
  ∀ level, Follows (e level) (fun c => (parseBinary level c).outcome) bound

/-- An expression, the token that closes it, and what follows. -/
theorem comes_closed {β : Type} {f : Expr → Attempt β} {k : Expr → Cursor → Outcome β}
    (he : ReadsExprs e bound) (hc : c.Within bound) (hclose : close ≠ .eof)
    (hf : ∀ value c', c.Reaches c' → Comes (f value) c' (k value c')) :
    Comes (do
      let value ← e 0
      let _ ← expect close
      f value) c (Outcome.andThen (parseClosed close c).outcome k) := by
  rw [outcome_parseClosed, Outcome.andThen_assoc]
  refine ((he 0).comes c hc).bind fun value c₁ _ hr => ?_
  rw [Outcome.andThen_assoc]
  exact (comes_expect (hc.ending.of_reaches hr) hclose).bind fun _ c₂ _ hr' =>
    hf value c₂ (hr.trans hr')

theorem comes_args (he : ReadsExprs e bound) (hc : c.Within (bound + 1)) :
    Comes (args (bound + 1) e) c (parseArgs c).outcome :=
  (comes_enclosed (he 0) outcome_parseArgList hc hc.left_le).congr (outcome_parseArgs c).symm

/-- A class name that was read as a type is the token before the rest. -/
theorem kinds_of_parseBaseType {name : String} {c₁ : Cursor}
    (h : (parseBaseType c).outcome = .ok (.class_ name, c₁)) :
    c.kind = .ident name ∧ c.kind₁ = c₁.kind := by
  cases hty : TypeExpr.ofKind? c.kind with
  | none => cases (outcome_parseBaseType_of_none hty).symm.trans h
  | some ty =>
    obtain ⟨_ | ⟨t, l⟩, n⟩ := c
    · cases hty
    · obtain ⟨rfl, rfl⟩ := Prod.mk.inj
        (Except.ok.inj ((outcome_parseBaseType_cons hty).symm.trans h))
      change TypeExpr.ofKind? t.kind = _ at hty
      refine ⟨?_, rfl⟩
      unfold TypeExpr.ofKind? at hty
      split at hty
      next => cases hty
      next => cases hty
      next name' hk => cases hty; exact hk
      next => cases hty

/-- Where no parenthesis stands behind a class, what is new is an array. -/
theorem comes_newArray (he : ReadsExprs e bound) (pos : Pos) (hc : c.Within (bound + 1))
    (hnone : ∀ name, c.kind = .ident name → c.kind₁ ≠ .symbol .lparen) :
    Comes (newArray (bound + 1) e pos) c (newRest pos c) := by
  refine (comes_baseType hc.ending).bind fun base c₁ hbase hr => ?_
  have hc₁ := hc.of_reaches hr
  rw [newBody_array]
  · refine (comes_expect hc₁.ending (by decide)).bind fun _ c₂ hopen hr' => ?_
    have hc₂ := hc₁.behind hr' (lt_of_outcome hopen)
    refine comes_closed he hc₂ (by decide) fun size c₃ hr'' => ?_
    exact (comes_pairs base (hc₂.of_reaches hr'').succ).bind fun elem c₄ _ _ => .node_last _ c₄
  · -- The parenthesis that is not there two tokens ahead is not there behind the base type.
    rintro name rfl hopen
    obtain ⟨hname, hkind⟩ := kinds_of_parseBaseType hbase
    exact hnone name hname (hkind.trans hopen)

theorem comes_created (he : ReadsExprs e bound) (pos : Pos) (hc : c.Within (bound + 1)) :
    Comes (created (bound + 1) e pos) c (newRest pos c) := by
  refine .get ?_
  split
  next class_ hname hopen =>
    obtain ⟨_ | ⟨t, _ | ⟨u, l⟩⟩, n⟩ := c
    · cases hname
    · cases hopen
    · have ht : t.kind ≠ .eof := fun heof => by cases hname.symm.trans heof
      have hbase : TypeExpr.ofKind? t.kind = some (.class_ class_) := by
        rw [show t.kind = _ from hname]
        rfl
      have hobject : newRest pos ⟨t :: u :: l, n⟩ =
          Outcome.andThen (Cursor.expect (.symbol .lparen) ⟨u :: l, n⟩).outcome fun _ c =>
            objectRest class_ pos c := by
        rw [newRest, outcome_parseBaseType_cons hbase, outcome_expect_cons hopen, Outcome.andThen,
          newBody]
        exact opt_cons hopen
      rw [hobject]
      have hc₁ := hc.ending.tail ht
      refine .bump hc.ending ht ((comes_expect hc₁ (by decide)).bind fun _ c₂ _ hr => ?_)
      exact (comes_expect (hc₁.of_reaches hr) (by decide)).bind fun _ c₃ _ _ => .node_last _ c₃
  next hnone => exact comes_newArray he pos hc hnone

/-- An atom of one token is read in one step. -/
theorem comes_leaf {f : Mark → Expr} (hc : c.Ending) (hleaf : leaf? c.kind = some f) :
    Comes (do
      let pos ← bump
      node fun id => f ⟨id, some pos⟩) c (parseAtom c).outcome := by
  obtain ⟨t, l, n, rfl, -, hne⟩ := Cursor.exists_cons rfl (ne_eof_of_some rfl hleaf)
  rw [outcome_parseAtom_leaf hleaf]
  exact .bump hc hne (.node_last _ ⟨l, n⟩)

theorem comes_named (he : ReadsExprs e bound) (name : String) (pos : Pos)
    (hc : c.Within (bound + 1)) :
    Comes (named (bound + 1) e name pos) c (nameRest name pos c) :=
  .get <| .ite (fun _ => (comes_args he hc).bind fun _ c₁ _ _ => .node_last _ c₁)
    fun _ => .node (.node_last _ _)

theorem comes_atom (he : ReadsExprs e bound) (hc : c.Within (bound + 1)) :
    Comes (atom (bound + 1) e) c (parseAtom c).outcome := by
  refine .get ?_
  split
  next digits h =>
    cases hvalue : literal? digits with
    | some value => exact comes_leaf (f := (.int · value)) hc.ending (by rw [h, leaf?, hvalue]; rfl)
    | none =>
      rw [outcome_parseAtom_range h hvalue]
      exact .fail c _
  next h => exact comes_leaf (f := (.bool · true)) hc.ending (by rw [h]; rfl)
  next h => exact comes_leaf (f := (.bool · false)) hc.ending (by rw [h]; rfl)
  next h => exact comes_leaf (f := .null) hc.ending (by rw [h]; rfl)
  next h => exact comes_leaf (f := .this) hc.ending (by rw [h]; rfl)
  next name h =>
    obtain ⟨t, l, n, rfl, ht, hne⟩ := Cursor.exists_cons h (by simp)
    rw [outcome_parseAtom_name ht]
    exact .bump hc.ending hne (comes_named he name t.pos (hc.tail hne).succ)
  next h =>
    obtain ⟨t, l, n, rfl, ht, hne⟩ := Cursor.exists_cons h (by simp)
    rw [outcome_parseAtom_parens ht]
    exact .bump hc.ending hne ((comes_closed he (hc.tail hne) (by decide) fun inner c₁ _ =>
      .pure inner c₁).congr (Outcome.andThen_ok _))
  next h =>
    obtain ⟨t, l, n, rfl, ht, hne⟩ := Cursor.exists_cons h (by simp)
    rw [outcome_parseAtom_new ht]
    exact .bump hc.ending hne (comes_created he t.pos (hc.tail hne).succ)
  next =>
    -- The token is of none of the kinds above, and these are all that start an atom.
    have hint : ∀ digits, c.kind ≠ .integer digits := by grind
    have hstarts : startsAtom c.kind = false := by
      unfold startsAtom
      split
      all_goals grind
    rw [outcome_parseAtom_of_none hstarts hint]
    exact .fail c _

/-- What a round comes to at a member, behind its name. -/
def memberTurn (lhs : Expr) (name : String) (pos : Pos) (c : Cursor) : Outcome (Round Expr Expr) :=
  if c.kind = .symbol .lparen then
    Outcome.andThen (parseArgs c).outcome fun args c₁ =>
      .ok (.again (.methodCall ⟨c₁.next, some pos⟩ lhs name args), ⟨c₁.tokens, c₁.next + 1⟩)
  else if name = "length" then
    .ok (.again (.arrayLength ⟨c.next, some pos⟩ lhs), ⟨c.tokens, c.next + 1⟩)
  else
    .ok (.again (.read ⟨c.next + 1, some pos⟩ (.field ⟨c.next, some pos⟩ lhs name)),
      ⟨c.tokens, c.next + 2⟩)

theorem comes_memberRound (he : ReadsExprs e bound) (lhs : Expr) (name : String) (pos : Pos)
    (hc : c.Within (bound + 1)) :
    Comes (memberRound (bound + 1) e lhs name pos) c (memberTurn lhs name pos c) :=
  .get <| .ite (fun _ => (comes_args he hc).bind fun _ _ _ _ => .node (.pure _ _)) fun _ =>
    .ite (fun _ => .node (.pure _ _)) fun _ => .node (.node (.pure _ _))

/-- What is read behind an expression: members, calls and indices. -/
def accesses (lhs : Expr) (c : Cursor) : Outcome Expr := (parsePostfix lhs c).outcome

/-- A member access is one turn and the accesses behind it. -/
theorem memberRest_eq (lhs : Expr) (name : String) (pos : Pos) (c : Cursor) :
    memberRest lhs name pos c = Outcome.andThen (memberTurn lhs name pos c)
      (Round.behind accesses fun lhs c => .ok (lhs, c)) := by
  unfold memberRest memberTurn
  split
  · rw [Outcome.andThen_assoc]
    rfl
  · split <;> rfl

/-- One turn of the loop over accesses takes one access or ends it. -/
theorem turns_accessRound (he : ReadsExprs e bound) (lhs : Expr) (hc : c.Within (bound + 1)) :
    ∃ o, Turns (accessRound (bound + 1) e lhs) c o ∧
      accesses lhs c = Outcome.andThen o (Round.behind accesses fun lhs c => .ok (lhs, c)) := by
  by_cases hdot : c.kind = .symbol .dot
  · obtain ⟨t, l, n, rfl, ht, hne⟩ := Cursor.exists_cons hdot (by decide)
    refine ⟨Outcome.andThen (Cursor.ident ⟨l, n⟩).outcome fun r c₁ => memberTurn lhs r.1 r.2 c₁,
      .get ?_, ?_⟩
    · rw [hdot]
      refine .bump hc.ending hne ((comes_ident (hc.tail hne).ending).bind fun r c₁ _ hr => ?_)
      exact comes_memberRound he lhs r.1 r.2 ((hc.tail hne).of_reaches hr).succ
    · rw [accesses, outcome_parsePostfix_dot ht, dotRest, Outcome.andThen_assoc]
      simp only [memberRest_eq]
  · by_cases hindex : c.kind = .symbol .lbracket
    · obtain ⟨t, l, n, rfl, ht, hne⟩ := Cursor.exists_cons hindex (by decide)
      refine ⟨Outcome.andThen (parseClosed (.symbol .rbracket) ⟨l, n⟩).outcome fun index c₁ =>
        .ok (.again (.read ⟨c₁.next + 1, some t.pos⟩ (.index ⟨c₁.next, some t.pos⟩ lhs index)),
          ⟨c₁.tokens, c₁.next + 2⟩), .get ?_, ?_⟩
      · rw [hindex]
        exact .bump hc.ending hne (comes_closed he (hc.tail hne) (by decide)
          fun index c₁ _ => .node (.node (.pure _ _)))
      · rw [accesses, outcome_parsePostfix_index ht, indexRest, Outcome.andThen_assoc]
        rfl
    · refine ⟨.ok (.leave lhs, c), .get ?_, outcome_parsePostfix_of_ne hdot hindex⟩
      split
      next h => exact absurd h hdot
      next h => exact absurd h hindex
      next => exact .leave lhs c

theorem comes_accesses (he : ReadsExprs e bound) (lhs : Expr) (hc : c.Within (bound + 1)) :
    Comes (loop (accessRound (bound + 1) e) (bound + 1) lhs) c (accesses lhs c) :=
  .loop_last (fun lhs _ hc => turns_accessRound he lhs hc) lhs hc hc.left_le

theorem comes_operand (he : ReadsExprs e bound) (op : UnaryOp) (pos : Pos) (hc : c.Within bound) :
    Comes (operand e op pos) c (unaryRest op pos c) := by
  refine .get (.ite (fun h => ?_) fun _ => ?_)
  · obtain ⟨t, l, n, rfl, ht, hne⟩ := Cursor.exists_cons h.2 (by simp)
    rw [outcome_expect_cons ht]
    exact .bump hc.ending hne (.node_last _ ⟨l, n⟩)
  · exact ((he UnaryOp.level).comes c hc).bind fun operand c₁ _ _ => .node_last _ c₁

theorem comes_unary (he : ReadsExprs e bound) (hc : c.Within (bound + 1)) :
    Comes (unary (bound + 1) e) c (parseUnary c).outcome := by
  refine .get ?_
  cases hop : UnaryOp.ofKind? c.kind with
  | some op =>
    obtain ⟨t, l, n, rfl, -, hne⟩ := Cursor.exists_cons rfl (ne_eof_of_some rfl hop)
    rw [outcome_parseUnary_cons hop]
    exact .bump hc.ending hne (comes_operand he op t.pos (hc.tail hne))
  | none =>
    rw [outcome_parseUnary_of_none hop]
    exact (comes_atom he hc).bind fun value c₁ _ hr => comes_accesses he value (hc.of_reaches hr)

/-- What is read behind a left operand: operators and right operands. -/
def operators (level : Nat) (lhs : Expr) (c : Cursor) : Outcome Expr :=
  (parseOperators level lhs c).outcome

/-- One turn of the loop over operators takes an operator with its operand or ends it. -/
theorem turns_operatorRound (he : ReadsExprs e bound) (level : Nat) (lhs : Expr)
    (hc : c.Within (bound + 1)) : ∃ o, Turns (operatorRound e level lhs) c o ∧
      operators level lhs c =
        Outcome.andThen o (Round.behind (operators level) fun lhs c => .ok (lhs, c)) := by
  cases hop : BinaryOp.ofKind? level c.kind with
  | some op =>
    obtain ⟨t, l, n, rfl, -, hne⟩ := Cursor.exists_cons rfl (ne_eof_of_some rfl hop)
    refine ⟨Outcome.andThen (parseBinary (op.level + 1) ⟨l, n⟩).outcome fun rhs c₁ =>
      .ok (.again (.binary ⟨c₁.next, some t.pos⟩ op lhs rhs), ⟨c₁.tokens, c₁.next + 1⟩),
      .get ?_, ?_⟩
    · rw [hop]
      exact .bump hc.ending hne (((he (op.level + 1)).comes _ (hc.tail hne)).bind
        fun rhs c₁ _ _ => .node (.pure _ _))
    · rw [operators, outcome_parseOperators_cons hop, operatorRest, Outcome.andThen_assoc]
      rfl
  | none =>
    refine ⟨.ok (.leave lhs, c), .get ?_, outcome_parseOperators_of_none hop⟩
    rw [hop]
    exact .leave lhs c

theorem comes_operators (he : ReadsExprs e bound) (level : Nat) (lhs : Expr)
    (hc : c.Within (bound + 1)) :
    Comes (loop (operatorRound e level) (bound + 1) lhs) c (operators level lhs c) :=
  .loop_last (fun lhs _ hc => turns_operatorRound he level lhs hc) lhs hc hc.left_le

end

/-- **Expressions are read** within as many levels as there are tokens left, because
an expression in another one stands behind a token. -/
theorem reads_expr (bound : Nat) : ReadsExprs (expr bound) bound := by
  induction bound with
  | zero =>
    -- Where no token is left there is no end of the file either.
    exact fun level => ⟨fun c hc => absurd hc.ending.left_pos (Nat.not_lt.2 hc.left_le),
      fun _ _ _ => lt_of_outcome⟩
  | succ bound ih =>
    refine fun level => ⟨fun c hc => ?_, fun _ _ _ => lt_of_outcome⟩
    exact ((comes_unary ih hc).bind fun lhs c₁ _ hr =>
      comes_operators ih level lhs (hc.of_reaches hr)).congr (outcome_parseBinary level c).symm

/-! ## Statements -/

theorem comes_condition (hc : c.Within bound) :
    Comes (condition bound) c (parseCondition c).outcome := by
  refine Comes.congr ?_ (outcome_parseCondition c).symm
  refine (comes_expect hc.ending (by decide)).bind fun _ c₁ _ hr => ?_
  exact (comes_closed (reads_expr bound) (hc.of_reaches hr) (by decide) fun cond c₂ _ =>
    .pure cond c₂).congr (Outcome.andThen_ok _)

theorem comes_declared (pos : Pos) (hc : c.Within bound) :
    Comes (declared bound pos) c (Outcome.andThen (declStmt c) fun g c₁ => .ok (g pos, c₁)) := by
  rw [declStmt, Outcome.andThen_assoc]
  refine (comes_varDecl hc).bind fun var c₁ _ hr => ?_
  rw [Outcome.andThen_assoc]
  exact (comes_expect (hc.ending.of_reaches hr) (by decide)).map

/-- Without an assignment sign, the statement ends behind its expression. -/
theorem assignRest_of_kind_ne {lhs : Expr} (h : c.kind ≠ .symbol .assign) :
    assignRest lhs c = exprEnd lhs c := by
  cases lhs with
  | read m target =>
    rw [assignRest]
    exact opt_of_ne h
  | _ => exact if_neg h

theorem comes_assigned (pos : Pos) (lhs : Expr) (hc : c.Within bound) :
    Comes (assigned bound pos lhs) c
      (Outcome.andThen (assignRest lhs c) fun g c₁ => .ok (g pos, c₁)) := by
  refine .get ?_
  by_cases hassign : c.kind = .symbol .assign
  · rw [if_pos hassign]
    cases lhs with
    | read m target =>
      obtain ⟨t, l, n, rfl, ht, hne⟩ := Cursor.exists_cons hassign (by decide)
      rw [assignRest, opt_cons ht, assignEnd, Outcome.andThen_assoc]
      exact .bump hc.ending hne (comes_closed (reads_expr bound) (hc.succ.tail hne) (by decide)
        fun value c₁ _ => .pure _ c₁)
    | _ =>
      rw [assignRest_of_ne (fun _ _ h => by cases h), if_pos hassign]
      exact .fail c _
  · rw [if_neg hassign, assignRest_of_kind_ne hassign, exprEnd, Outcome.andThen_assoc]
    exact (comes_expect hc.ending (by decide)).map

theorem comes_simple (hc : c.Within bound) : Comes (simple bound) c (parseSimple c).outcome := by
  refine .get ?_
  by_cases hdecl : c.startsDecl = true
  · rw [if_pos hdecl, outcome_parseSimple_decl hdecl]
    exact comes_declared c.pos hc
  · rw [if_neg hdecl, outcome_parseSimple_expr hdecl, placed, exprStmt, Outcome.andThen_assoc]
    exact ((reads_expr bound 0).comes c hc).bind fun lhs c₁ _ hr =>
      comes_assigned c.pos lhs (hc.of_reaches hr)

theorem upToBrace_parseStmts : UpToBrace (fun c => (parseStmt c).outcome)
    (fun c => (parseStmts c).outcome) .blockEnd :=
  ⟨fun _ _ _ => outcome_parseStmts_rbrace, fun _ => outcome_parseStmts_eof,
    fun _ => outcome_parseStmts⟩

/-- Statements one level below are read within the bound. -/
abbrev ReadsStmts (x : Attempt Stmt) (bound : Nat) : Prop :=
  Follows x (fun c => (parseStmt c).outcome) bound

theorem comes_block {x : Attempt Stmt} {most : Nat} (hx : ReadsStmts x most)
    (hc : c.Within (most + 1)) (hbound : c.left ≤ bound) :
    Comes (block bound x) c (parseBlock c).outcome := by
  refine ((comes_braced hx upToBrace_parseStmts hc hbound).bind fun r c₁ _ _ => .pure _ c₁).congr ?_
  rw [outcome_parseBlock, Outcome.andThen_assoc]
  congr 1
  funext pos c₁
  rw [Outcome.andThen_assoc]
  rfl

theorem comes_alternative {x : Attempt Stmt} (hx : ReadsStmts x bound) (pos : Pos) (cond : Expr)
    (yes : Stmt) (hc : c.Within bound) :
    Comes (alternative x pos cond yes) c (elseRest pos cond yes c) := by
  refine .eat hc.ending (by decide) (fun t l heq hne => ?_) (.pure _ c)
  have hc' : Cursor.Within ⟨t :: l, c.next⟩ bound := heq ▸ hc
  exact (hx.comes _ (hc'.succ.tail hne)).map

theorem comes_compound {x : Attempt Stmt} (hx : ReadsStmts x bound) (hc : c.Within (bound + 1)) :
    Comes (compound (bound + 1) x) c (parseStmt c).outcome := by
  refine .get ?_
  split
  next h =>
    obtain ⟨t, l, n, rfl, ht, hne⟩ := Cursor.exists_cons h (by decide)
    refine (comes_block hx hc hc.left_le).map.congr ?_
    rw [outcome_parseStmt_block ht, outcome_parseBlock, outcome_expect_cons ht]
    exact Outcome.andThen_assoc (parseStmts ⟨l, n⟩).outcome _ _
  next h =>
    obtain ⟨t, l, n, rfl, ht, hne⟩ := Cursor.exists_cons h (by decide)
    have hc₁ := hc.tail hne
    rw [outcome_parseStmt_if ht]
    refine .bump hc.ending hne ((comes_condition hc₁.succ).bind fun cond c₁ _ hr => ?_)
    have hc₂ := hc₁.of_reaches hr
    exact (hx.comes c₁ hc₂).bind fun yes c₂ _ hr' =>
      comes_alternative hx t.pos cond yes (hc₂.of_reaches hr')
  next h =>
    obtain ⟨t, l, n, rfl, ht, hne⟩ := Cursor.exists_cons h (by decide)
    have hc₁ := hc.tail hne
    rw [outcome_parseStmt_while ht]
    exact .bump hc.ending hne ((comes_condition hc₁.succ).bind fun cond c₁ _ hr =>
      (hx.comes c₁ (hc₁.of_reaches hr)).map)
  next h =>
    obtain ⟨t, l, n, rfl, ht, hne⟩ := Cursor.exists_cons h (by decide)
    rw [outcome_parseStmt_return ht]
    exact .bump hc.ending hne (comes_closed (reads_expr (bound + 1)) (hc.tail hne).succ (by decide)
      fun value c₁ _ => .pure _ c₁)
  next hbrace hif hwhile hreturn =>
    have hsimple : startsCompound c.kind = false := by
      rcases stmt_cases c.kind with h | h | h | h | h
      · exact absurd h hbrace
      · exact absurd h hif
      · exact absurd h hwhile
      · exact absurd h hreturn
      · exact h
    rw [outcome_parseStmt_simple hsimple]
    exact comes_simple hc

/-- **Statements are read** within as many levels as there are tokens left. -/
theorem reads_stmt (bound : Nat) : ReadsStmts (stmt bound) bound := by
  induction bound with
  | zero =>
    exact ⟨fun c hc => absurd hc.ending.left_pos (Nat.not_lt.2 hc.left_le), fun _ _ _ => lt_of_outcome⟩
  | succ bound ih => exact ⟨fun c hc => comes_compound ih hc, fun _ _ _ => lt_of_outcome⟩

/-! ## Declarations -/

theorem comes_params (hc : c.Within bound) : Comes (params bound) c (parseParams c).outcome :=
  (comes_enclosed (follows_varDecl bound) outcome_parseParamList hc.succ hc.left_le).congr
    (outcome_parseParams c).symm

theorem comes_functionRest (heading : VarDecl) (hc : c.Within bound) :
    Comes (functionRest bound heading) c (parseFunctionRest heading c).outcome := by
  refine Comes.congr ?_ (outcome_parseFunctionRest heading c).symm
  refine (comes_params hc).bind fun params c₁ _ hr => ?_
  have hc₁ := hc.of_reaches hr
  exact (comes_block (reads_stmt bound) hc₁.succ hc₁.left_le).map

theorem comes_function (hc : c.Within bound) : Comes (function bound) c (parseFunction c).outcome :=
  ((comes_varDecl hc).bind fun heading _ _ hr =>
    comes_functionRest heading (hc.of_reaches hr)).congr (outcome_parseFunction c).symm

theorem comes_fieldOrMethod (heading : VarDecl) (hc : c.Within bound) :
    Comes (fieldOrMethod bound heading) c (classMemberRest heading c) :=
  .get <| .ite (fun _ => (comes_functionRest heading hc).map) fun _ =>
    (comes_expect hc.ending (by decide)).map

theorem comes_member (hc : c.Within bound) : Comes (member bound) c (parseMember c).outcome :=
  ((comes_varDecl hc).bind fun heading _ _ hr =>
    comes_fieldOrMethod heading (hc.of_reaches hr)).congr (outcome_parseMember c).symm

theorem follows_member (bound : Nat) :
    Follows (member bound) (fun c => (parseMember c).outcome) bound :=
  ⟨fun _ => comes_member, fun _ _ _ => lt_of_outcome⟩

theorem upToBrace_parseMembers : UpToBrace (fun c => (parseMember c).outcome)
    (fun c => (parseMembers c).outcome) .classEnd :=
  ⟨fun _ _ _ => outcome_parseMembers_rbrace, fun _ => outcome_parseMembers_eof,
    fun _ => outcome_parseMembers⟩

theorem comes_extends (hc : c.Ending) : Comes extends_ c (parseExtends c).outcome := by
  rw [outcome_parseExtends]
  refine .eat hc (by decide) (fun t l heq hne => ?_) (.pure _ c)
  have hc' : Cursor.Ending ⟨t :: l, c.next⟩ := heq ▸ hc
  exact (comes_ident (hc'.tail hne)).map

theorem comes_members (hc : c.Within bound) :
    Comes (braced bound (member bound) .classEnd) c
      (Outcome.andThen (c.expect (.symbol .lbrace)).outcome fun pos c₁ =>
        Outcome.andThen (parseMembers c₁).outcome fun ms c₂ => .ok ((pos, ms), c₂)) :=
  comes_braced (follows_member bound) upToBrace_parseMembers hc.succ hc.left_le

theorem comes_classBody (id : NodeId) (name : String) (pos : Pos) (hc : c.Within bound) :
    Comes (classBody bound id name pos) c (classRest id name pos c) := by
  refine (comes_extends hc.ending).bind fun extends? c₁ _ hr => ?_
  refine ((comes_members (hc.of_reaches hr)).bind fun r c₂ _ _ => .pure _ c₂).congr ?_
  rw [Outcome.andThen_assoc]
  congr 1
  funext _ c₂
  rw [Outcome.andThen_assoc]
  rfl

theorem comes_class (hc : c.Within bound) : Comes (class_ bound) c (parseClass c).outcome := by
  refine Comes.congr ?_ (outcome_parseClass c).symm
  refine (comes_expect hc.ending (by decide)).bind fun _ c₁ _ hr => .node ?_
  have hid : Cursor.Within ⟨c₁.tokens, c₁.next + 1⟩ bound :=
    hc.of_reaches (hr.of_tokens rfl)
  exact (comes_ident hid.ending).bind fun r c₂ _ hr' =>
    comes_classBody c₁.next r.1 r.2 (hid.of_reaches hr')

theorem comes_item (hc : c.Within bound) : Comes (item bound) c (parseItem c).outcome := by
  refine .get ?_
  by_cases h : c.kind = .keyword .class_
  · rw [if_pos h, outcome_parseItem_class h]
    exact (comes_class hc).map
  · rw [if_neg h, outcome_parseItem_function h]
    exact (comes_function hc).map

end Attempt

/-! ## Programs -/

/-- Where the reading of items stops: at the end of the file, or in front of the item
that cannot be read. -/
def Cursor.stop (c : Cursor) : Cursor :=
  if c.kind = .eof then c
  else
    match parseItem c with
    | .error _ => c
    | .ok ⟨_, c₁, _⟩ => stop c₁
termination_by c.left

namespace Attempt

variable {c c₁ : Cursor} {bound : Nat}

/-- The items behind the ones that were read, and where their reading stops. -/
def itemsBehind (items : List Item) (c : Cursor) : Outcome (List Item × Option ParseError) :=
  .ok ((items ++ (parseItems c).1, (parseItems c).2), c.stop)

theorem itemsBehind_eof (items : List Item) (h : c.kind = .eof) :
    itemsBehind items c = .ok ((items, none), c) := by
  rw [itemsBehind, parseItems_eof h, Cursor.stop, if_pos h, List.append_nil]

/-- The first item that is not read ends the program, and its error is kept. -/
theorem itemsBehind_of_error (items : List Item) {e : ParseError} (h : c.kind ≠ .eof)
    (he : (parseItem c).outcome = .error e) : itemsBehind items c = .ok ((items, some e), c) := by
  rw [itemsBehind, parseItems_of_error h he, Cursor.stop, if_neg h, List.append_nil]
  cases hitem : parseItem c with
  | error e' => rfl
  | ok s =>
    rw [hitem] at he
    cases he

/-- An item that is read is kept, and reading goes on behind it. -/
theorem itemsBehind_of_ok (items : List Item) {item : Item} (h : c.kind ≠ .eof)
    (hitem : (parseItem c).outcome = .ok (item, c₁)) :
    itemsBehind items c = itemsBehind (items ++ [item]) c₁ := by
  rw [itemsBehind, itemsBehind, parseItems_of_ok h hitem, Cursor.stop, if_neg h,
    List.append_assoc, List.singleton_append]
  cases hread : parseItem c with
  | error e =>
    rw [hread] at hitem
    cases hitem
  | ok s =>
    rw [hread] at hitem
    cases hitem
    rfl

theorem comes_observed {o : Outcome Item} (hc : c.Within bound) (ho : (parseItem c).outcome = o) :
    Comes (observe (item bound)) c (.ok (Comes.observed o c)) :=
  .observe ((comes_item hc).congr ho)

/-- One turn of the loop over items keeps an item or ends with its error. -/
theorem turns_itemRound (items : List Item) (hc : c.Within bound) :
    ∃ o, Turns (itemRound bound items) c o ∧
      itemsBehind items c = Outcome.andThen o (Round.behind itemsBehind fun r c => .ok (r, c)) := by
  by_cases heof : c.kind = .eof
  · refine ⟨.ok (.leave (items, none), c), .get ?_, itemsBehind_eof items heof⟩
    rw [if_pos heof]
    exact .leave _ c
  · cases ho : (parseItem c).outcome with
    | error e =>
      refine ⟨.ok (.leave (items, some e), c), .get ?_, itemsBehind_of_error items heof ho⟩
      rw [if_neg heof]
      exact ⟨(comes_observed hc ho).behind fun _ => .pure _ c, fun _ _ heq => by cases heq⟩
    | ok r =>
      obtain ⟨item, c₁⟩ := r
      refine ⟨.ok (.again (items ++ [item]), c₁), .get ?_, itemsBehind_of_ok items heof ho⟩
      rw [if_neg heof]
      refine ⟨(comes_observed hc ho).behind fun _ => .pure _ c₁, fun _ _ heq => ?_⟩
      obtain ⟨-, rfl⟩ := Prod.mk.inj (Except.ok.inj heq)
      exact lt_of_outcome ho

/-- The items are read up to where their reading stops. -/
theorem comes_items (hc : c.Within bound) :
    Comes (items bound) c (.ok (parseItems c, c.stop)) :=
  .loop_last (fun items _ hc => turns_itemRound items hc) [] hc hc.left_le

/-! ## Progress -/

/-- The attempt comes to the outcome and takes a token at least if it succeeds. -/
structure Takes {α : Type} (x : Attempt α) (c : Cursor) (o : Outcome α) : Prop
    extends Comes x c o where
  lt : ∀ a c', o = .ok (a, c') → c'.left < c.left

theorem Comes.takes {α : Type} {x : Attempt α} {r : Source.Reads α c.left}
    (h : Comes x c r.outcome) : Takes x c r.outcome := ⟨h, fun _ _ => lt_of_outcome⟩

/-- Every routine comes to what is read, and takes a token at least if it succeeds. -/
structure Advances (bound : Nat) (c : Cursor) : Prop where
  item : Takes (item bound) c (parseItem c).outcome
  class_ : Takes (class_ bound) c (parseClass c).outcome
  member : Takes (member bound) c (parseMember c).outcome
  function : Takes (function bound) c (parseFunction c).outcome
  params : Takes (params bound) c (parseParams c).outcome
  varDecl : Takes (varDecl bound) c (parseVarDecl c).outcome
  type : Takes (type bound) c (parseType c).outcome
  block : Takes (block bound (stmt bound)) c (parseBlock c).outcome
  stmt : Takes (stmt bound) c (parseStmt c).outcome
  args : Takes (args bound (expr bound)) c (parseArgs c).outcome
  atom : Takes (atom bound (expr bound)) c (parseAtom c).outcome
  unary : Takes (unary bound (expr bound)) c (parseUnary c).outcome
  expr : ∀ level, Takes (expr bound level) c (parseBinary level c).outcome

/-- A round of each loop leaves the loop, or takes a token at least. -/
structure LoopsAdvance (bound : Nat) (c : Cursor) : Prop where
  items : ∀ items, ∃ o, Turns (itemRound bound items) c o
  members : ∀ ms, ∃ o, Turns (braceRound (member bound) .classEnd ms) c o
  stmts : ∀ ss, ∃ o, Turns (braceRound (stmt bound) .blockEnd ss) c o
  params : ∀ ps, ∃ o, Turns (commaRound (varDecl bound) ps) c o
  args : ∀ es, ∃ o, Turns (commaRound (expr bound 0) es) c o
  pairs : ∀ ty, ∃ o, Turns (pairRound ty) c o
  accesses : ∀ lhs, ∃ o, Turns (accessRound bound (expr bound) lhs) c o
  operators : ∀ level lhs, ∃ o, Turns (operatorRound (expr bound) level lhs) c o

theorem advances (hc : c.Within (bound + 1)) : Advances (bound + 1) c :=
  have he : ReadsExprs (Attempt.expr (bound + 1)) bound := fun level =>
    (reads_expr (bound + 1) level).mono (Nat.le_succ bound)
  { item := (comes_item hc).takes
    class_ := (comes_class hc).takes
    member := (comes_member hc).takes
    function := (comes_function hc).takes
    params := (comes_params hc).takes
    varDecl := (comes_varDecl hc).takes
    type := (comes_type hc).takes
    block := (comes_block (reads_stmt (bound + 1)) hc.succ hc.left_le).takes
    stmt := ((reads_stmt (bound + 1)).comes c hc).takes
    args := (comes_args he hc).takes
    atom := (comes_atom he hc).takes
    unary := (comes_unary he hc).takes
    expr := fun level => ((reads_expr (bound + 1) level).comes c hc).takes }

theorem loopsAdvance (hc : c.Within (bound + 1)) : LoopsAdvance (bound + 1) c := by
  have he : ReadsExprs (expr (bound + 1)) bound := fun level =>
    (reads_expr (bound + 1) level).mono (Nat.le_succ bound)
  constructor
  case items =>
    intro items
    obtain ⟨o, hturns, -⟩ := turns_itemRound items hc
    exact ⟨o, hturns⟩
  case members => exact fun ms => ⟨_, turns_braceRound .classEnd (follows_member (bound + 1)) ms hc⟩
  case stmts => exact fun ss => ⟨_, turns_braceRound .blockEnd (reads_stmt (bound + 1)) ss hc⟩
  case params => exact fun ps => ⟨_, turns_commaRound (follows_varDecl (bound + 1)) ps hc⟩
  case args => exact fun es => ⟨_, turns_commaRound (reads_expr (bound + 1) 0) es hc⟩
  case pairs =>
    intro ty
    obtain ⟨o, hturns, -⟩ := turns_pairRound ty hc.ending
    exact ⟨o, hturns⟩
  case accesses =>
    intro lhs
    obtain ⟨o, hturns, -⟩ := turns_accessRound he lhs hc
    exact ⟨o, hturns⟩
  case operators =>
    intro level lhs
    obtain ⟨o, hturns, -⟩ := turns_operatorRound he level lhs hc
    exact ⟨o, hturns⟩

/-- **Reading makes progress.** In front of tokens that end with their only end of file,
a move goes on and never behind the end of the file; the reading of a program ends,
with the items and the error of the parser; every routine ends, and takes a token at
least if it succeeds; and a round of each loop leaves the loop or takes a token. -/
theorem reading_progresses (hc : c.Ending) (hbound : c.left ≤ bound) :
    c.Reaches c.bump ∧ Comes (items bound) c (.ok (parseItems c, c.stop)) ∧ Advances bound c ∧
      LoopsAdvance bound c := by
  have hwithin : c.Within bound := ⟨hc, hbound⟩
  refine ⟨Cursor.reaches_bump hc, comes_items hwithin, ?_⟩
  cases bound with
  | zero => exact absurd hc.left_pos (Nat.not_lt.2 hbound)
  | succ bound => exact ⟨advances hwithin, loopsAdvance hwithin⟩

/-- The tokens of `int f(){@`, a function that breaks off at a faulty token. -/
def brokenOff : Cursor :=
  ⟨[⟨⟨.keyword .int, ⟨0, 3⟩⟩, ⟨1, 1⟩⟩, ⟨⟨.ident "f", ⟨4, 5⟩⟩, ⟨1, 5⟩⟩,
    ⟨⟨.symbol .lparen, ⟨5, 6⟩⟩, ⟨1, 6⟩⟩, ⟨⟨.symbol .rparen, ⟨6, 7⟩⟩, ⟨1, 7⟩⟩,
    ⟨⟨.symbol .lbrace, ⟨7, 8⟩⟩, ⟨1, 8⟩⟩, ⟨⟨.invalid (.unexpected '@'), ⟨8, 9⟩⟩, ⟨1, 9⟩⟩,
    ⟨⟨.eof, ⟨9, 9⟩⟩, ⟨1, 10⟩⟩], 0⟩

theorem ending_brokenOff : brokenOff.Ending :=
  ⟨brokenOff.tokens.dropLast, ⟨⟨.eof, ⟨9, 9⟩⟩, ⟨1, 10⟩⟩, rfl, rfl, by decide⟩

/-- The reading of a function that breaks off ends with an error at the faulty token. -/
theorem reading_progresses_brokenOff :
    brokenOff.Ending ∧ brokenOff.left ≤ 7 ∧ brokenOff.Reaches brokenOff.bump ∧
      Comes (items 7) brokenOff
        (.ok (([], some ⟨.lexical (.unexpected '@'), ⟨8, 9⟩, ⟨1, 9⟩⟩), brokenOff)) ∧
      Advances 7 brokenOff ∧ LoopsAdvance 7 brokenOff := by
  obtain ⟨hmove, hitems, hadvances, hloops⟩ :=
    reading_progresses ending_brokenOff (show brokenOff.left ≤ 7 by decide)
  have hnone : (parseItems brokenOff).1 = [] := List.eq_nil_of_length_eq_zero (by decide +kernel)
  have herror : (parseItems brokenOff).2 = some ⟨.lexical (.unexpected '@'), ⟨8, 9⟩, ⟨1, 9⟩⟩ := by
    decide +kernel
  have hstop : brokenOff.stop = brokenOff := by decide +kernel
  refine ⟨ending_brokenOff, by decide, hmove, hitems.congr ?_, hadvances, hloops⟩
  rw [hstop, ← hnone, ← herror]

end Attempt

end ClassLang.Source
