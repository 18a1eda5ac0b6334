import ClassLang.Proofs.Source.Locality
/-!
# Source — reading is local

Every routine is local (`LocalAt`): expressions and statements look at one token
behind them, and what ends with a token of its own at none. A simple statement looks
at up to three tokens to tell a declaration from an expression, but it ends with a
semicolon, and up to an error it makes no difference how these tokens go on.
-/


namespace ClassLang.Source

open Token (Kind)

/-! ## Expressions -/

/-- A token of the kind, somewhere. -/
def Located.ofKind (k : Kind) : Located := ⟨⟨k, ⟨0, 0⟩⟩, .origin⟩

/-- Tokens made of kinds alone have these kinds. -/
theorem kinds_ofKind (w : List Kind) (n : NodeId) : Cursor.kinds ⟨w.map Located.ofKind, n⟩ = w := by
  show (w.map Located.ofKind).map (·.kind) = w
  rw [List.map_map]
  exact List.map_id w

/-- An index may stand behind every bracket. -/
theorem exists_parsePostfix_index {c : Cursor} (hc : c.kind = .symbol .lbracket) (lhs : Expr)
    (n : NodeId) : ∃ y, SameHead c.tokens y ∧ ∃ o, (parsePostfix lhs ⟨y, n⟩).outcome = .ok o := by
  let w : List Kind := [.symbol .lbracket, .keyword .null, .symbol .rbracket]
  have hnull : BinaryPhrase 0 [.keyword .null] (.null .blank) := .unary (.suffixed (.atom .null))
  have hindex : (parsePostfix lhs ⟨w.map Located.ofKind, n⟩).Gives _ [] :=
    (enters_index (kinds_ofKind w n) fun c' hc' =>
      gives_before (by simp) (enters_parseBinary hnull (Nat.zero_le _) hc')).gives
        fun a c' hc' => parsePostfix_of_apart (by rw [hc']; exact ⟨nofun, nofun, nofun⟩)
  obtain ⟨a, c', h⟩ := outcome_of_gives hindex
  exact ⟨w.map Located.ofKind, (kind_eq_of_tokens rfl).symm.trans hc, _, h⟩

/-- An index takes its bracket. -/
theorem lt_of_index {lhs e : Expr} {c c' : Cursor} (hc : c.kind = .symbol .lbracket)
    (h : (parsePostfix lhs c).outcome = .ok (e, c')) : c'.left < c.left := by
  obtain ⟨_ | ⟨t, l⟩, next⟩ := c
  · cases hc
  · rw [outcome_parsePostfix_index hc] at h
    obtain ⟨index, c₁, hindex, hrest⟩ := Outcome.andThen_eq_ok h
    have h₁ : c₁.left < Cursor.left ⟨l, next⟩ := lt_of_outcome hindex
    have h₂ : c'.left < c₁.left + 1 := lt_of_outcome hrest
    have h₃ : Cursor.left ⟨l, next⟩ < Cursor.left ⟨t :: l, next⟩ := Nat.lt_succ_self _
    omega

/-- An expression up to a symbol is closed by the symbol. -/
theorem local_closed {c : Cursor} (h : LocalAt .head (fun c => (parseBinary 0 c).outcome) c)
    (s : Symbol) : LocalAt .closed (fun c => (parseClosed (.symbol s) c).outcome) c :=
  .congr (fun c _ => outcome_parseClosed _ c)
    (.andThen (by decide) h fun e c₁ _ => (local_symbol s c₁).value fun _ => e)

mutual

/-- What an expression reads depends on one token behind it. -/
theorem local_parseBinary (level : Nat) (c : Cursor) :
    LocalAt .head (fun c => (parseBinary level c).outcome) c := by
  refine .congr (fun c _ => outcome_parseBinary level c)
    (.andThen (by decide) (local_parseUnary c) fun lhs c₁ hlhs => ?_)
  have hlt : c₁.left < c.left := lt_of_outcome hlhs
  exact local_parseOperators level lhs c₁
termination_by (c.left, 2)

theorem local_parseOperators (level : Nat) (lhs : Expr) (c : Cursor) :
    LocalAt .head (fun c => (parseOperators level lhs c).outcome) c := by
  cases hop : BinaryOp.ofKind? level c.kind with
  | none =>
    refine .congr (fun c' hc' => outcome_parseOperators_of_none (hc' ▸ hop)) ?_
    exact .done (by decide) (fun _ => lhs) id c
  | some op =>
    refine .take (g := fun t => operatorRest level lhs op t.pos)
      (fun heof => by rw [heof] at hop; cases hop)
      (fun t l n ht => outcome_parseOperators_cons (ht ▸ hop)) fun t l _ hlt => ?_
    refine .andThen (by decide) (local_parseBinary (op.level + 1) ⟨l, c.next⟩) fun rhs c₁ hrhs => ?_
    have hlt₁ : c₁.left < Cursor.left ⟨l, c.next⟩ := lt_of_outcome hrhs
    have hlt₂ : Cursor.left ⟨c₁.tokens, c₁.next + 1⟩ < c.left := Nat.lt_trans hlt₁ hlt
    exact .fresh
      (g := fun id c => (parseOperators level (.binary ⟨id, some t.pos⟩ op lhs rhs) c).outcome)
      (local_parseOperators level _ ⟨c₁.tokens, c₁.next + 1⟩)
termination_by (c.left, 2)

theorem local_parseUnary (c : Cursor) : LocalAt .head (fun c => (parseUnary c).outcome) c := by
  cases hop : UnaryOp.ofKind? c.kind with
  | some op =>
    refine .take (g := fun t => unaryRest op t.pos) (fun heof => by rw [heof] at hop; cases hop)
      (fun t l n ht => outcome_parseUnary_cons (ht ▸ hop)) fun t l _ hlt => ?_
    by_cases hleast : op = .minus ∧ Cursor.kind ⟨l, c.next⟩ = .integer leastMagnitude
    · refine .congr (fun c' hc' => if_pos ⟨hleast.1, hc'.trans hleast.2⟩) (.toHead ?_)
      exact (local_expect (.integer leastMagnitude) nofun ⟨l, c.next⟩).map
        (fun _ id => Expr.int ⟨id, some t.pos⟩ Int32.minValue) (· + 1)
    · refine .congr (fun c' hc' => if_neg fun h => hleast ⟨h.1, hc'.symm.trans h.2⟩) ?_
      exact (local_parseBinary UnaryOp.level ⟨l, c.next⟩).map
        (fun operand id => Expr.unary ⟨id, some t.pos⟩ op operand) (· + 1)
  | none =>
    refine .congr (fun c' hc' => outcome_parseUnary_of_none (hc' ▸ hop))
      ((local_parseAtom c).andThen_of (fun e c₁ he => ?_) (fun e c₁ e' c' u y _ he' hu _ hy => ?_)
        fun e c₁ err v u x y _ _ herr hu hrerun hy => ?_)
    · have hlt : c₁.left < c.left := lt_of_outcome he
      exact local_parsePostfix e c₁
    · by_cases hc₁ : c₁.kind = .symbol .lbracket
      · -- An index takes the bracket.
        refine hu ▸ SameHead.samePair_append hy ?_
        rintro rfl
        have hleft : c₁.left = c'.left := congrArg List.length hu
        exact absurd (lt_of_index hc₁ he') (hleft ▸ Nat.lt_irrefl _)
      · exact (hu ▸ SameHead.append hy u : SameHead c₁.tokens (u ++ y)).samePair hc₁
    · by_cases hc₁ : c₁.kind = .symbol .lbracket
      · cases u with
        | cons t u => exact hu ▸ hy.head.samePair_append (List.cons_ne_nil t u)
        | nil =>
          -- A bracket alone is no error: an index may follow.
          obtain ⟨y', hy', o, ho⟩ := exists_parsePostfix_index hc₁ e c₁.next
          obtain rfl : c₁.tokens = x := hu
          obtain ⟨e', he'⟩ := hrerun y' ⟨hy', fun hmid => absurd hmid.behind not_behindType_nil⟩
          cases ho.symm.trans he'
      · exact (hu ▸ hy.head.append u : SameHead c₁.tokens (u ++ y)).samePair hc₁
termination_by (c.left, 1)

/-- What an atom reads depends on two tokens behind it: brackets are taken in pairs. -/
theorem local_parseAtom (c : Cursor) : LocalAt .pair (fun c => (parseAtom c).outcome) c := by
  rcases atom_cases c.kind with ⟨e, he⟩ | ⟨name, hname⟩ | hparens | hnew | ⟨digits, hdigits, hrange⟩ |
    ⟨hnone, hint⟩
  · obtain ⟨_ | ⟨t, l⟩, next⟩ := c
    · cases he
    · refine LocalAt.toPair (.toHead (.token (fun l => outcome_parseAtom_leaf he) ?_))
      intro heof
      rw [show Cursor.kind ⟨t :: l, next⟩ = .eof from heof] at he
      cases he
  · refine .take (g := fun t => nameRest name t.pos) (by rw [hname]; nofun)
      (fun t l n ht => outcome_parseAtom_name (ht.trans hname)) fun t l _ hlt => ?_
    by_cases hcall : Cursor.kind ⟨l, c.next⟩ = .symbol .lparen
    · refine .congr (fun c' hc' => if_pos (hc'.trans hcall)) (.toPair (.toHead ?_))
      exact (local_parseArgs ⟨l, c.next⟩).map
        (fun args id => Expr.call ⟨id, some t.pos⟩ name args) (· + 1)
    · refine .congr (fun c' hc' => if_neg (hc' ▸ hcall)) ?_
      exact .done (by decide)
        (fun id => Expr.read ⟨id + 1, some t.pos⟩ (.var ⟨id, some t.pos⟩ name)) (· + 2) _
  · refine .take (g := fun _ c => (parseClosed (.symbol .rparen) c).outcome) (by rw [hparens]; nofun)
      (fun t l n ht => outcome_parseAtom_parens (ht.trans hparens)) fun t l _ hlt => ?_
    exact .toPair (.toHead (local_closed (local_parseBinary 0 ⟨l, c.next⟩) _))
  · refine .take (g := fun t => newRest t.pos) (by rw [hnew]; nofun)
      (fun t l n ht => outcome_parseAtom_new (ht.trans hnew)) fun t l _ hlt => ?_
    refine .andThen (by decide) (local_parseBaseType ⟨l, c.next⟩) fun base c₁ hbase => ?_
    have hlt₁ : c₁.left < c.left := Nat.lt_trans (lt_of_outcome hbase) hlt
    have harray : LocalAt .pair (arrayRest base t.pos) c₁ := by
      refine .andThen (by decide) (local_symbol _ c₁) fun _ c₂ hopen => ?_
      have hlt₂ : c₂.left < c.left := Nat.lt_trans (lt_of_outcome hopen) hlt₁
      refine .andThen (by decide) (local_closed (local_parseBinary 0 c₂) _) fun size c₃ _ => ?_
      exact (local_brackets base c₃).map
        (fun elem id => Expr.newArray ⟨id, some t.pos⟩ elem size) (· + 1)
    cases base with
    | class_ name =>
      unfold newBody
      refine .opt nofun (fun _ l _ => .toPair (.toHead ?_)) fun _ => harray
      exact (local_symbol _ ⟨l, c₁.next⟩).map (fun _ id => Expr.newObject ⟨id, some t.pos⟩ name) (· + 1)
    | _ => exact harray
  · exact .fail (outcome_parseAtom_range hdigits hrange) fun c' hc' =>
      ⟨_, outcome_parseAtom_range (hc'.trans hdigits) hrange⟩
  · exact .fail (outcome_parseAtom_of_none hnone hint) fun c' hc' =>
      ⟨_, outcome_parseAtom_of_none (hc' ▸ hnone) (hc' ▸ hint)⟩
termination_by (c.left, 0)

theorem local_parsePostfix (lhs : Expr) (c : Cursor) :
    LocalAt .head (fun c => (parsePostfix lhs c).outcome) c := by
  by_cases hdot : c.kind = .symbol .dot
  · refine .take (g := fun _ => dotRest lhs) (by rw [hdot]; nofun)
      (fun t l n ht => outcome_parsePostfix_dot (ht.trans hdot)) fun t l _ hlt => ?_
    refine .andThen (by decide) (local_ident ⟨l, c.next⟩) fun ⟨name, pos⟩ c₁ hname => ?_
    have hlt₁ : c₁.left < c.left := Nat.lt_trans (lt_of_outcome hname) hlt
    by_cases hcall : c₁.kind = .symbol .lparen
    · refine .congr (fun c' hc' => if_pos (hc'.trans hcall)) ?_
      refine .andThen (by decide) (local_parseArgs c₁) fun args c₂ hargs => ?_
      have hlt₂ : c₂.left < c₁.left := lt_of_outcome hargs
      have hlt₃ : Cursor.left ⟨c₂.tokens, c₂.next + 1⟩ < c.left := Nat.lt_trans hlt₂ hlt₁
      exact .fresh (h := (· + 1))
        (g := fun id c => (parsePostfix (.methodCall ⟨id, some pos⟩ lhs name args) c).outcome)
        (local_parsePostfix _ ⟨c₂.tokens, c₂.next + 1⟩)
    · refine .congr (fun c' hc' => if_neg (hc' ▸ hcall)) ?_
      by_cases hlength : name = "length"
      · have hlt₂ : Cursor.left ⟨c₁.tokens, c₁.next + 1⟩ < c.left := hlt₁
        refine .congr (fun c' hc' => if_pos hlength) (.fresh (h := (· + 1))
          (g := fun id c => (parsePostfix (.arrayLength ⟨id, some pos⟩ lhs) c).outcome) ?_)
        exact local_parsePostfix _ ⟨c₁.tokens, c₁.next + 1⟩
      · have hlt₂ : Cursor.left ⟨c₁.tokens, c₁.next + 2⟩ < c.left := hlt₁
        refine .congr (fun c' hc' => if_neg hlength) (.fresh (h := (· + 2))
          (g := fun id c => (parsePostfix
            (.read ⟨id + 1, some pos⟩ (.field ⟨id, some pos⟩ lhs name)) c).outcome) ?_)
        exact local_parsePostfix _ ⟨c₁.tokens, c₁.next + 2⟩
  by_cases hindex : c.kind = .symbol .lbracket
  · refine .take (g := fun t => indexRest lhs t.pos) (by rw [hindex]; nofun)
      (fun t l n ht => outcome_parsePostfix_index (ht.trans hindex)) fun t l _ hlt => ?_
    refine .andThen (by decide) (local_closed (local_parseBinary 0 ⟨l, c.next⟩) _)
      fun index c₁ hclosed => ?_
    have hlt₁ : c₁.left < Cursor.left ⟨l, c.next⟩ := lt_of_outcome hclosed
    have hlt₂ : Cursor.left ⟨c₁.tokens, c₁.next + 2⟩ < c.left := Nat.lt_trans hlt₁ hlt
    exact .fresh (h := (· + 2)) (g := fun id c => (parsePostfix
        (.read ⟨id + 1, some t.pos⟩ (.index ⟨id, some t.pos⟩ lhs index)) c).outcome)
      (local_parsePostfix _ ⟨c₁.tokens, c₁.next + 2⟩)
  · refine .congr (fun c' hc' => outcome_parsePostfix_of_ne (hc' ▸ hdot) (hc' ▸ hindex)) ?_
    exact .done (by decide) (fun _ => lhs) id c
termination_by (c.left, 2)

/-- Arguments end at their parenthesis and depend on nothing behind it. -/
theorem local_parseArgs (c : Cursor) : LocalAt .closed (fun c => (parseArgs c).outcome) c := by
  refine .congr (fun c _ => outcome_parseArgs c)
    (.andThen (by decide) (local_symbol _ c) fun _ c₁ hopen => ?_)
  have hlt : c₁.left < c.left := lt_of_outcome hopen
  exact .opt_closed nofun fun _ => local_parseArgList c₁
termination_by (c.left, 3)

theorem local_parseArgList (c : Cursor) : LocalAt .closed (fun c => (parseArgList c).outcome) c := by
  refine .congr (fun c _ => outcome_parseArgList c)
    (.andThen (by decide) (local_parseBinary 0 c) fun e c₁ he => ?_)
  have hlt : c₁.left < c.left := lt_of_outcome he
  refine .opt nofun (fun _ l hlt' => ?_) fun _ => ?_
  · exact (local_parseArgList ⟨l, c₁.next⟩).value (e :: ·)
  · exact (local_symbol _ c₁).value fun _ => [e]
termination_by (c.left, 3)

end

theorem local_parseClosed (s : Symbol) (c : Cursor) :
    LocalAt .closed (fun c => (parseClosed (.symbol s) c).outcome) c :=
  local_closed (local_parseBinary 0 c) s

/-! ## Statements -/

theorem local_parseCondition (c : Cursor) :
    LocalAt .closed (fun c => (parseCondition c).outcome) c :=
  .congr (fun c _ => outcome_parseCondition c)
    (.andThen (by decide) (local_symbol _ c) fun _ c₁ _ => local_parseClosed _ c₁)

theorem local_declStmt (c : Cursor) : LocalAt .closed declStmt c :=
  .andThen (by decide) (local_parseVarDecl c) fun var c₁ _ =>
    (local_symbol .semicolon c₁).value fun _ (p : Pos) => Stmt.decl p var

theorem local_exprEnd (value : Expr) (c : Cursor) : LocalAt .closed (exprEnd value) c :=
  (local_symbol .semicolon c).value fun _ (p : Pos) => Stmt.expr p value

theorem local_assignRest (lhs : Expr) (c : Cursor) : LocalAt .closed (assignRest lhs) c := by
  by_cases hplace : ∃ m target, lhs = .read m target
  · obtain ⟨m, target, rfl⟩ := hplace
    unfold assignRest
    refine .opt nofun (fun _ l _ => ?_) fun _ => local_exprEnd _ c
    exact (local_parseClosed .semicolon ⟨l, c.next⟩).value
      fun value (p : Pos) => Stmt.assign p target value
  · have hne : ∀ m target, lhs ≠ .read m target := fun m target h => hplace ⟨m, target, h⟩
    refine .congr (fun c _ => assignRest_of_ne hne c) ?_
    by_cases hassign : c.kind = .symbol .assign
    · exact .fail (if_pos hassign) fun c' hc' => ⟨_, if_pos (hc'.trans hassign)⟩
    · exact .congr (fun c' hc' => if_neg (hc' ▸ hassign)) (local_exprEnd lhs c)

theorem local_exprStmt (c : Cursor) : LocalAt .closed exprStmt c :=
  .andThen (by decide) (local_parseBinary 0 c) fun lhs c₁ _ => local_assignRest lhs c₁

/-- The lookahead for declarations goes by the first token, behind a name by the
second one and behind a name and a bracket by the third one. -/
theorem startsDecl_congr {c c' : Cursor} (h : c'.kind = c.kind)
    (h₁ : ∀ name, c.kind = .ident name → c'.kind₁ = c.kind₁)
    (h₂ : ∀ name, c.kind = .ident name → c.kind₁ = .symbol .lbracket → c'.kind₂ = c.kind₂) :
    c'.startsDecl = c.startsDecl := by
  unfold Cursor.startsDecl
  rw [h]
  cases hk : c.kind with
  | ident name =>
    rw [h₁ name hk]
    by_cases hk₁ : c.kind₁ = .symbol .lbracket
    · rw [h₂ name hk hk₁]
    · split <;> split <;> simp_all
  | keyword k => cases k <;> rfl
  | _ => rfl

/-- The tokens that stand in front of others do not tell whether a declaration
starts with them. -/
inductive Undecided : List Located → List Located → Prop
  | name {t x name} : t.kind = .ident name → Undecided [] (t :: x)
  | bracket {t b x name} : t.kind = .ident name → b.kind = .symbol .lbracket →
      Undecided [t] (b :: x)

/-- Whether a declaration starts is decided by the tokens it looks at. -/
theorem startsDecl_append {u x y : List Located} {n : NodeId} (h : ¬ Undecided u x)
    (hxy : SameHead x y) : Cursor.startsDecl ⟨u ++ y, n⟩ = Cursor.startsDecl ⟨u ++ x, n⟩ := by
  have hkind (n : NodeId) : Cursor.kind ⟨y, n⟩ = Cursor.kind ⟨x, n⟩ := hxy.symm
  rcases u with _ | ⟨t, _ | ⟨t', _ | ⟨t'', u⟩⟩⟩
  · have hname : ∀ name, Cursor.kind ⟨x, n⟩ ≠ .ident name := by
      intro name hname
      obtain _ | ⟨t, x⟩ := x
      · cases hname
      · exact h (.name hname)
    exact startsDecl_congr (hkind n) (fun name hx => absurd hx (hname name))
      fun name hx => absurd hx (hname name)
  · refine startsDecl_congr rfl (fun _ _ => hkind n) fun name ht hb => ?_
    obtain _ | ⟨b, x⟩ := x
    · cases hb
    · exact absurd (.bracket ht hb) h
  · exact startsDecl_congr rfl (fun _ _ => rfl) fun _ _ _ => hkind n
  · exact startsDecl_congr rfl (fun _ _ => rfl) fun _ _ _ => rfl

/-- A pair of brackets behind a name starts a declaration. -/
theorem startsDecl_bracket {t b : Located} {x : List Located} {name : String} {n : NodeId}
    (ht : t.kind = .ident name) (hb : b.kind = .symbol .lbracket) :
    Cursor.startsDecl ⟨t :: b :: x, n⟩ = true ↔ Cursor.kind₁ ⟨b :: x, 0⟩ = .symbol .rbracket := by
  rw [show Cursor.kind₁ ⟨b :: x, 0⟩ = Cursor.kind₂ ⟨t :: b :: x, n⟩ from rfl]
  unfold Cursor.startsDecl
  rw [show Cursor.kind ⟨t :: b :: x, n⟩ = .ident name from ht,
    show Cursor.kind₁ ⟨t :: b :: x, n⟩ = .symbol .lbracket from hb]
  split <;> simp_all

/-- A statement that is read from its tokens. -/
theorem read_simple {w : List Kind} {s : Stmt} {l : List Located} (hs : s.simple = true)
    (hw : StmtPhrase w s) (hl : l.map (·.kind) = w) (n : NodeId) :
    Cursor.startsDecl ⟨l, n⟩ = declHead w ∧ ∃ o, (parseSimple ⟨l, n⟩).outcome = .ok o := by
  obtain ⟨s', c', h'⟩ := outcome_of_gives (gives_parseSimple hs hw
    (show Cursor.kinds ⟨l, n⟩ = w ++ [] by rw [List.append_nil]; exact hl))
  exact ⟨(Cursor.startsDecl_eq _).trans (congrArg declHead hl), _, h'⟩

/-- The statement that declares a variable. -/
theorem declPhrase (ty : TypeExpr) (name : String) :
    StmtPhrase (ty.kinds ++ [.ident name, .symbol .semicolon]) (.decl none ⟨0, ty, name, none⟩) := by
  have h : StmtPhrase _ (.decl none ⟨0, ty, name, none⟩) := .decl ⟨0, ty, name, none⟩
  rw [VarDecl.kinds, List.append_assoc] at h
  exact h

/-- Where it is undecided, a declaration is possible and an expression, too. -/
theorem Undecided.exists_simple {u x : List Located} (h : Undecided u x) (n : NodeId) :
    ∃ y, SamePair x y ∧ Cursor.startsDecl ⟨u ++ y, n⟩ = Cursor.startsDecl ⟨u ++ x, n⟩ ∧
      ∃ o, (parseSimple ⟨u ++ y, n⟩).outcome = .ok o := by
  have hexpr {w : List Kind} {e : Expr} (hw : PostfixPhrase w e) :
      StmtPhrase (w ++ [.symbol .semicolon]) (.expr none e) := .expr (.unary (.suffixed hw))
  have hvar (name : String) : PostfixPhrase [.ident name] (.read .blank (.var .blank name)) :=
    .atom .var
  have hindex (name : String) : PostfixPhrase [.ident name, .symbol .lbracket, .keyword .null,
      .symbol .rbracket] (.read .blank (.index .blank (.read .blank (.var .blank name)) (.null .blank))) :=
    .index (hvar name) (.unary (.suffixed (.atom .null)))
  cases h with
  | @name t x name ht =>
    have hpair (y : List Located) : SamePair (t :: x) (t :: y) :=
      SameHead.samePair rfl fun h => by cases ht.symm.trans h
    have hkinds (w : List Kind) : (t :: w.map Located.ofKind).map (·.kind) = .ident name :: w := by
      rw [List.map_cons, ht]
      exact congrArg _ (kinds_ofKind w n)
    -- Whatever was decided on the tokens at hand, it can be gone on with in the same way.
    cases hx : Cursor.startsDecl ⟨t :: x, n⟩ with
    | true =>
      exact ⟨t :: [Kind.ident name, .symbol .semicolon].map Located.ofKind, hpair _,
        hx ▸ read_simple rfl (declPhrase (.class_ name) name) (hkinds _) n⟩
    | false =>
      exact ⟨t :: [Kind.symbol .semicolon].map Located.ofKind, hpair _,
        hx ▸ read_simple rfl (hexpr (hvar name)) (hkinds _) n⟩
  | @bracket t b x name ht hb =>
    have hpair {y : List Located} (h : Cursor.startsDecl ⟨t :: b :: x, n⟩ = true ↔
        Cursor.kind₁ ⟨b :: y, 0⟩ = .symbol .rbracket) : SamePair (b :: x) (b :: y) :=
      ⟨rfl, fun _ => (startsDecl_bracket ht hb).symm.trans h⟩
    have hkinds (w : List Kind) : (t :: b :: w.map Located.ofKind).map (·.kind) =
        .ident name :: .symbol .lbracket :: w := by
      rw [List.map_cons, List.map_cons, ht, hb]
      exact congrArg _ (congrArg _ (kinds_ofKind w n))
    cases hx : Cursor.startsDecl ⟨t :: b :: x, n⟩ with
    | true =>
      refine ⟨b :: [Kind.symbol .rbracket, .ident name, .symbol .semicolon].map Located.ofKind,
        hpair (by rw [hx]; exact ⟨fun _ => rfl, fun _ => rfl⟩), ?_⟩
      rw [show Cursor.startsDecl ⟨[t] ++ b :: x, n⟩ = true from hx]
      exact read_simple rfl (declPhrase (.array (.class_ name)) name) (hkinds _) n
    | false =>
      refine ⟨b :: [Kind.keyword .null, .symbol .rbracket, .symbol .semicolon].map Located.ofKind,
        hpair (by rw [hx]; exact iff_of_false Bool.false_ne_true fun h => by cases h), ?_⟩
      rw [show Cursor.startsDecl ⟨[t] ++ b :: x, n⟩ = false from hx]
      exact read_simple rfl (hexpr (hindex name)) (hkinds _) n

/-- What a simple statement ends with. -/
theorem semicolon_of_declStmt {c c' : Cursor} {s : Pos → Stmt} (h : declStmt c = .ok (s, c')) :
    ∃ v t, t.kind = .symbol .semicolon ∧ c.tokens = v ++ t :: c'.tokens := by
  obtain ⟨var, c₁, hvar, hend⟩ := Outcome.andThen_eq_ok h
  obtain ⟨p, c₂, hsemi, heq⟩ := Outcome.andThen_eq_ok hend
  cases heq
  obtain ⟨v, hv, -⟩ := (local_parseVarDecl c).ok var c₁ hvar
  obtain ⟨t, ht, rfl⟩ := tokens_of_expect hsemi nofun
  exact ⟨v, t, ht, hv⟩

theorem semicolon_of_exprEnd {c c' : Cursor} {e : Expr} {s : Pos → Stmt}
    (h : exprEnd e c = .ok (s, c')) :
    ∃ v t, t.kind = .symbol .semicolon ∧ c.tokens = v ++ t :: c'.tokens := by
  obtain ⟨p, c₂, hsemi, heq⟩ := Outcome.andThen_eq_ok h
  cases heq
  obtain ⟨t, ht, rfl⟩ := tokens_of_expect hsemi nofun
  exact ⟨[], t, ht, rfl⟩

theorem semicolon_of_assignEnd {c c' : Cursor} {target : Place} {s : Pos → Stmt}
    (h : assignEnd target c = .ok (s, c')) :
    ∃ v t, t.kind = .symbol .semicolon ∧ c.tokens = v ++ t :: c'.tokens := by
  obtain ⟨value, c₁, hvalue, heq⟩ := Outcome.andThen_eq_ok h
  cases heq
  rw [parseTerminated, outcome_parseClosed] at hvalue
  obtain ⟨e, c₂, he, hend⟩ := Outcome.andThen_eq_ok hvalue
  obtain ⟨p, c₃, hsemi, heq⟩ := Outcome.andThen_eq_ok hend
  cases heq
  obtain ⟨v, hv, -⟩ := (local_parseBinary 0 c).ok _ _ he
  obtain ⟨t, ht, rfl⟩ := tokens_of_expect hsemi nofun
  exact ⟨v, t, ht, hv⟩

theorem semicolon_of_assignRest {c c' : Cursor} {lhs : Expr} {s : Pos → Stmt}
    (h : assignRest lhs c = .ok (s, c')) :
    ∃ v t, t.kind = .symbol .semicolon ∧ c.tokens = v ++ t :: c'.tokens := by
  by_cases hassign : c.kind = .symbol .assign
  · obtain ⟨_ | ⟨t, l⟩, next⟩ := c
    · cases hassign
    · cases lhs with
      | read m target =>
        rw [assignRest, opt_cons hassign] at h
        obtain ⟨v, t', ht', hv⟩ := semicolon_of_assignEnd h
        exact ⟨t :: v, t', ht', congrArg (t :: ·) hv⟩
      | _ => exact nomatch (if_pos hassign).symm.trans h
  · have hexpr : assignRest lhs c = exprEnd lhs c := by
      cases lhs with
      | read m target => rw [assignRest, opt_of_ne hassign]
      | _ => exact if_neg hassign
    exact semicolon_of_exprEnd (hexpr ▸ h)

/-- An expression statement ends in a semicolon. -/
theorem semicolon_of_exprStmt {c c' : Cursor} {s : Pos → Stmt} (h : exprStmt c = .ok (s, c')) :
    ∃ v t, t.kind = .symbol .semicolon ∧ c.tokens = v ++ t :: c'.tokens := by
  obtain ⟨lhs, c₁, hlhs, hrest⟩ := Outcome.andThen_eq_ok h
  obtain ⟨u, hu, -⟩ := (local_parseBinary 0 c).ok lhs c₁ hlhs
  obtain ⟨v, t, ht, hv⟩ := semicolon_of_assignRest hrest
  exact ⟨u ++ v, t, ht, by rw [hu, hv, List.append_assoc]⟩

/-- Either way to read a simple statement is local. -/
theorem local_simple {g : Cursor → Outcome (Pos → Stmt)} {c : Cursor} (hg : LocalAt .closed g c)
    (hparse : ∀ c', c'.startsDecl = c.startsDecl → (parseSimple c').outcome = placed g c')
    (hend : ∀ s c', g c = .ok (s, c') →
      ∃ v t, t.kind = .symbol .semicolon ∧ c.tokens = v ++ t :: c'.tokens) :
    LocalAt .closed (fun c => (parseSimple c).outcome) c where
  ok := fun s c' hok => by
    rw [hparse c rfl] at hok
    obtain ⟨u, hu, hne, heof, hrerun⟩ := hg.placed.ok s c' hok
    refine ⟨u, hu, hne, heof, fun y hy => ?_⟩
    obtain ⟨f, c₁, hf, heq⟩ := Outcome.andThen_eq_ok hok
    cases heq
    obtain ⟨v, t, ht, hv⟩ := hend f c' hf
    -- The semicolon tells whether a declaration is in front of it.
    have hdecided : ¬ Undecided v (t :: c'.tokens) := by
      intro hund
      cases hund with
      | name h => cases ht.symm.trans h
      | bracket _ h => cases ht.symm.trans h
    have huv : u = v ++ [t] := List.append_cancel_right (hu.symm.trans (by rw [hv]; simp))
    have hstarts := startsDecl_append (y := t :: y) (n := c.next) hdecided rfl
    rw [hparse ⟨u ++ y, c.next⟩ ?_]
    · exact hrerun y hy
    · rw [huv, List.append_assoc]
      refine hstarts.trans (congrArg Cursor.startsDecl ?_)
      rw [← hv]
  error := fun e herr => by
    rw [hparse c rfl] at herr
    obtain ⟨u, x, m, cause, hu, heof, he, hrerun⟩ := hg.placed.error e herr
    refine ⟨u, x, m, cause, hu, heof, he, fun y hy => ?_⟩
    have hc : c = ⟨u ++ x, c.next⟩ := by rw [← hu]
    have hdecided : ¬ Undecided u x := by
      intro hund
      obtain ⟨y, hxy, hstarts, o, ho⟩ := hund.exists_simple c.next
      obtain ⟨e', he'⟩ := hrerun y ⟨hxy.head, fun _ => hxy⟩
      rw [hparse _ (hstarts.trans (congrArg Cursor.startsDecl hc.symm)), he'] at ho
      cases ho
    obtain ⟨e', he'⟩ := hrerun y hy
    refine ⟨e', (hparse _ ?_).trans he'⟩
    exact (startsDecl_append hdecided hy.head).trans (congrArg Cursor.startsDecl hc.symm)

theorem local_parseSimple (c : Cursor) :
    LocalAt .closed (fun c => (parseSimple c).outcome) c := by
  by_cases hdecl : c.startsDecl = true
  · exact local_simple (local_declStmt c) (fun c' hc' => outcome_parseSimple_decl (hc'.trans hdecl))
      fun s c' => semicolon_of_declStmt
  · exact local_simple (local_exprStmt c) (fun c' hc' => outcome_parseSimple_expr (hc' ▸ hdecl))
      fun s c' => semicolon_of_exprStmt

mutual

/-- What a statement reads depends on one token behind it: an `else` may follow. -/
theorem local_parseStmt (c : Cursor) : LocalAt .head (fun c => (parseStmt c).outcome) c := by
  rcases stmt_cases c.kind with hblock | hif | hwhile | hreturn | hsimple
  · refine .toHead (.take (g := fun t c => Outcome.andThen (parseStmts c).outcome fun stmts c₁ =>
        .ok (.block t.pos (.mk stmts t.pos), c₁)) (by rw [hblock]; nofun)
      (fun t l n ht => outcome_parseStmt_block (ht.trans hblock)) fun t l _ hlt => ?_)
    exact (local_parseStmts ⟨l, c.next⟩).value fun stmts => Stmt.block t.pos (.mk stmts t.pos)
  · refine .take (g := fun t c => Outcome.andThen (parseCondition c).outcome fun cond c₁ =>
        Outcome.andThen (parseStmt c₁).outcome fun yes c₂ => elseRest t.pos cond yes c₂)
      (by rw [hif]; nofun) (fun t l n ht => outcome_parseStmt_if (ht.trans hif)) fun t l _ hlt => ?_
    refine .andThen (by decide) (local_parseCondition ⟨l, c.next⟩) fun cond c₁ hcond => ?_
    have hlt₁ : c₁.left < c.left := Nat.lt_trans (lt_of_outcome hcond) hlt
    refine .andThen (by decide) (local_parseStmt c₁) fun yes c₂ hyes => ?_
    have hlt₂ : c₂.left < c.left := Nat.lt_trans (lt_of_outcome hyes) hlt₁
    refine .opt nofun (fun _ l hlt₃ => ?_) fun _ => ?_
    · have hlt₄ : Cursor.left ⟨l, c₂.next⟩ < c.left := Nat.lt_trans hlt₃ hlt₂
      exact (local_parseStmt ⟨l, c₂.next⟩).value fun no => Stmt.ifElse t.pos cond yes no
    · exact .done (by decide) (fun _ => Stmt.ifThen t.pos cond yes) id c₂
  · refine .take (g := fun t c => Outcome.andThen (parseCondition c).outcome fun cond c₁ =>
        Outcome.andThen (parseStmt c₁).outcome fun body c₂ => .ok (.loop t.pos cond body, c₂))
      (by rw [hwhile]; nofun) (fun t l n ht => outcome_parseStmt_while (ht.trans hwhile))
      fun t l _ hlt => ?_
    refine .andThen (by decide) (local_parseCondition ⟨l, c.next⟩) fun cond c₁ hcond => ?_
    have hlt₁ : c₁.left < c.left := Nat.lt_trans (lt_of_outcome hcond) hlt
    exact (local_parseStmt c₁).value fun body => Stmt.loop t.pos cond body
  · refine .toHead (.take (g := fun t c => Outcome.andThen (parseTerminated c).outcome
        fun value c₁ => .ok (.ret t.pos value, c₁)) (by rw [hreturn]; nofun)
      (fun t l n ht => outcome_parseStmt_return (ht.trans hreturn)) fun t l _ hlt => ?_)
    exact (local_parseClosed .semicolon ⟨l, c.next⟩).value fun value => Stmt.ret t.pos value
  · exact .toHead (.congr (fun c' hc' => outcome_parseStmt_simple (hc' ▸ hsimple))
      (local_parseSimple c))
termination_by (c.left, 1)

theorem local_parseStmts (c : Cursor) : LocalAt .closed (fun c => (parseStmts c).outcome) c := by
  by_cases hrbrace : c.kind = .symbol .rbrace
  · obtain ⟨_ | ⟨t, l⟩, next⟩ := c
    · cases hrbrace
    · exact .token (fun l => outcome_parseStmts_rbrace hrbrace) fun heof => nomatch hrbrace.symm.trans heof
  by_cases heof : c.kind = .eof
  · exact .fail (outcome_parseStmts_eof heof) fun c' hc' => ⟨_, outcome_parseStmts_eof (hc'.trans heof)⟩
  · refine .congr (fun c' hc' => outcome_parseStmts (hc' ▸ hrbrace) (hc' ▸ heof))
      (.andThen (by decide) (local_parseStmt c) fun s c₁ hs => ?_)
    have hlt : c₁.left < c.left := lt_of_outcome hs
    exact (local_parseStmts c₁).value (s :: ·)
termination_by (c.left, 2)

end

theorem local_parseBlock (c : Cursor) : LocalAt .closed (fun c => (parseBlock c).outcome) c :=
  .congr (fun c _ => outcome_parseBlock c) (.andThen (by decide) (local_symbol _ c) fun pos c₁ _ =>
    (local_parseStmts c₁).value fun stmts => Block.mk stmts pos)

/-! ## Declarations -/

theorem local_parseParamList (c : Cursor) :
    LocalAt .closed (fun c => (parseParamList c).outcome) c := by
  refine .congr (fun c _ => outcome_parseParamList c)
    (.andThen (by decide) (local_parseVarDecl c) fun param c₁ hparam => ?_)
  have hlt : c₁.left < c.left := lt_of_outcome hparam
  refine .opt nofun (fun _ l hlt' => ?_) fun _ => ?_
  · exact (local_parseParamList ⟨l, c₁.next⟩).value (param :: ·)
  · exact (local_symbol _ c₁).value fun _ => [param]
termination_by c.left

theorem local_parseParams (c : Cursor) : LocalAt .closed (fun c => (parseParams c).outcome) c :=
  .congr (fun c _ => outcome_parseParams c) (.andThen (by decide) (local_symbol _ c) fun _ c₁ _ =>
    .opt_closed nofun fun _ => local_parseParamList c₁)

theorem local_parseFunctionRest (heading : VarDecl) (c : Cursor) :
    LocalAt .closed (fun c => (parseFunctionRest heading c).outcome) c :=
  .congr (fun c _ => outcome_parseFunctionRest heading c)
    (.andThen (by decide) (local_parseParams c) fun params c₁ _ => (local_parseBlock c₁).value
      fun body => (⟨heading.id, heading.ty, heading.name, params, body, heading.pos⟩ : FunctionDecl))

theorem local_parseFunction (c : Cursor) :
    LocalAt .closed (fun c => (parseFunction c).outcome) c :=
  .congr (fun c _ => outcome_parseFunction c) (.andThen (by decide) (local_parseVarDecl c)
    fun heading c₁ _ => local_parseFunctionRest heading c₁)

theorem local_parseMember (c : Cursor) : LocalAt .closed (fun c => (parseMember c).outcome) c := by
  refine .congr (fun c _ => outcome_parseMember c)
    (.andThen (by decide) (local_parseVarDecl c) fun heading c₁ _ => ?_)
  by_cases hmethod : c₁.kind = .symbol .lparen
  · exact .congr (fun c' hc' => if_pos (hc'.trans hmethod))
      ((local_parseFunctionRest heading c₁).value Member.method)
  · exact .congr (fun c' hc' => if_neg (hc' ▸ hmethod))
      ((local_symbol _ c₁).value fun _ => Member.field heading)

theorem local_parseMembers (c : Cursor) : LocalAt .closed (fun c => (parseMembers c).outcome) c := by
  by_cases hrbrace : c.kind = .symbol .rbrace
  · obtain ⟨_ | ⟨t, l⟩, next⟩ := c
    · cases hrbrace
    · exact .token (fun l => outcome_parseMembers_rbrace hrbrace)
        fun heof => nomatch hrbrace.symm.trans heof
  by_cases heof : c.kind = .eof
  · exact .fail (outcome_parseMembers_eof heof) fun c' hc' =>
      ⟨_, outcome_parseMembers_eof (hc'.trans heof)⟩
  · refine .congr (fun c' hc' => outcome_parseMembers (hc' ▸ hrbrace) (hc' ▸ heof))
      (.andThen (by decide) (local_parseMember c) fun m c₁ hm => ?_)
    have hlt : c₁.left < c.left := lt_of_outcome hm
    exact (local_parseMembers c₁).value (m :: ·)
termination_by c.left

/-- Whether a superclass follows is decided by one token. -/
theorem local_parseExtends (c : Cursor) : LocalAt .head (fun c => (parseExtends c).outcome) c :=
  .congr (fun c _ => outcome_parseExtends c) (.opt nofun
    (fun _ l _ => .toHead ((local_ident ⟨l, c.next⟩).value fun r => some r.1))
    fun _ => .done (by decide) (fun _ => none) id c)

theorem local_classRest (id : NodeId) (name : String) (pos : Pos) (c : Cursor) :
    LocalAt .closed (classRest id name pos) c := by
  refine .andThen (by decide) (local_parseExtends c) fun super? c₁ _ => ?_
  refine .andThen (by decide) (local_symbol _ c₁) fun _ c₂ _ => ?_
  exact (local_parseMembers c₂).value fun ms =>
    (⟨id, name, super?, ms.filterMap Member.field?, ms.filterMap Member.method?, pos⟩ : ClassDecl)

theorem local_parseClass (c : Cursor) : LocalAt .closed (fun c => (parseClass c).outcome) c := by
  refine .congr (fun c _ => outcome_parseClass c)
    (.andThen (by decide) (local_expect (.keyword .class_) nofun c) fun _ c₁ _ => ?_)
  refine .fresh (h := (· + 1))
    (g := fun id c => Outcome.andThen c.ident.outcome fun r c₂ => classRest id r.1 r.2 c₂) ?_
  exact .andThen (by decide) (local_ident _) fun r c₂ _ => local_classRest c₁.next r.1 r.2 c₂

/-- **A declaration is closed**: where it is read, it is read in front of whatever
follows. -/
theorem local_parseItem (c : Cursor) : LocalAt .closed (fun c => (parseItem c).outcome) c := by
  by_cases hclass : c.kind = .keyword .class_
  · exact .congr (fun c' hc' => outcome_parseItem_class (hc'.trans hclass))
      ((local_parseClass c).value Item.class_)
  · exact .congr (fun c' hc' => outcome_parseItem_function (hc' ▸ hclass))
      ((local_parseFunction c).value Item.function)

end ClassLang.Source
