import ClassLang.Proofs.Source.Phrases
import ClassLang.Proofs.Source.Reading
/-!
# Source — what is read is a phrase

Whatever a routine reads, the tokens that it takes and the tree that it makes
of them are a phrase (`took_parseExpr`, `took_parseStmt`, `took_parseItem`).
Behind an expression there is no operator that it could have gone on with, and
behind a statement with an open end there is no `else`.
-/


namespace ClassLang.Source

open Token (Kind)

/-! ## Steps -/

namespace Step

variable {α β : Type} {m n : Nat}

@[simp] theorem value_map (f : α → β) (s : Step α n) : (s.map f).value = f s.value := rfl

@[simp] theorem value_behind (h : m < n) (s : Step α m) : (s.behind h).value = s.value := rfl

@[simp] theorem value_within (h : m < n) (s : Step α (m + 1)) : (s.within h).value = s.value := rfl

@[simp] theorem value_relax (s : Step α n) : s.relax.value = s.value := rfl

@[simp] theorem cursor_map (f : α → β) (s : Step α n) : (s.map f).cursor = s.cursor := rfl

@[simp] theorem cursor_behind (h : m < n) (s : Step α m) : (s.behind h).cursor = s.cursor := rfl

@[simp] theorem value_stay (c : Cursor) (a : α) : (c.stay a).value = a := rfl

end Step

/-! ## Tokens -/

/-- The kinds of the tokens that are left. -/
def Cursor.kinds (c : Cursor) : List Kind := c.tokens.map (·.kind)

/-- The current kind is the first one left, and `eof` when none is. -/
theorem Cursor.kind_eq (c : Cursor) : c.kind = c.kinds.headD .eof := by
  obtain ⟨tokens, next⟩ := c
  cases tokens <;> rfl

/-- The tokens between two cursors. -/
def Cursor.Took (c : Cursor) (w : List Kind) (c' : Cursor) : Prop := c.kinds = w ++ c'.kinds

namespace Cursor

variable {c c' c'' : Cursor} {u v w : List Kind}

theorem Took.refl (c : Cursor) : c.Took [] c := rfl

/-- What two steps take in turn, they take together. -/
theorem Took.trans (h : c.Took u c') (h' : c'.Took v c'') : c.Took (u ++ v) c'' := by
  unfold Took at *
  rw [h, h', List.append_assoc]

theorem took_take {s : Step Located c.left} (h : c.take = some s) :
    c.Took [s.value.kind] s.cursor := by
  obtain ⟨tokens, next⟩ := c
  cases tokens with
  | nil => cases h
  | cons t rest =>
    cases h
    rfl

theorem kind_of_take {s : Step Located c.left} (h : c.take = some s) : c.kind = s.value.kind := by
  rw [kind_eq, show c.kinds = _ from took_take h]
  rfl

theorem took_take? {kind : Kind} {s : Step Pos c.left} (h : c.take? kind = some s) :
    c.Took [kind] s.cursor := by
  unfold take? at h
  cases ht : c.take with
  | none => rw [ht] at h; cases h
  | some t =>
    rw [ht] at h
    dsimp only at h
    split at h
    next heq =>
      cases h
      exact heq ▸ took_take ht
    next => cases h

/-- A kind that was not taken is not the current one. -/
theorem kind_of_take?_none {kind : Kind} (h : c.take? kind = none) (heof : kind ≠ .eof) :
    c.kind ≠ kind := by
  rintro rfl
  obtain ⟨tokens, next⟩ := c
  cases tokens with
  | nil => exact heof rfl
  | cons t rest => simp [take?, take, Cursor.kind] at h

theorem took_takeSome? {α : Type} {f : Kind → Option α} {s : Step (α × Pos) c.left}
    (h : c.takeSome? f = some s) : ∃ k, f k = some s.value.1 ∧ c.Took [k] s.cursor := by
  unfold takeSome? at h
  cases ht : c.take with
  | none => rw [ht] at h; cases h
  | some t =>
    rw [ht] at h
    obtain ⟨a, ha, rfl⟩ := Option.map_eq_some_iff.1 h
    exact ⟨_, ha, took_take ht⟩

theorem kind_of_takeSome?_none {α : Type} {f : Kind → Option α} (h : c.takeSome? f = none)
    (heof : f .eof = none) : f c.kind = none := by
  obtain ⟨tokens, next⟩ := c
  cases tokens with
  | nil => exact heof
  | cons t rest => simpa [takeSome?, take, kind] using h

/-- A callee is a name with its opening parenthesis. -/
theorem took_takeCallee? {s : Step String c.left} (h : c.takeCallee? = some s) :
    c.Took [.ident s.value, .symbol .lparen] s.cursor := by
  unfold takeCallee? at h
  split at h
  · cases h
    rfl
  · cases h

theorem took_expect (kind : Kind) (c : Cursor) : (c.expect kind).All fun _ c' => c.Took [kind] c' := by
  unfold expect
  split
  next step heq => exact .ok (took_take? heq)
  next => exact .error _

theorem took_ident (c : Cursor) : c.ident.All fun r c' => c.Took [.ident r.1] c' := by
  unfold ident
  split
  · exact .ok rfl
  · exact .error _

end Cursor

/-! ## Types and variables -/

/-- Every pair of brackets that is taken nests the type once more. -/
theorem took_bracketPairs (ty : TypeExpr) (ts : List Located) : ∃ n,
    (bracketPairs ty ts).1 = .arrays n ty ∧
      ts.map (·.kind) = brackets n ++ (bracketPairs ty ts).2.map (·.kind) := by
  fun_induction bracketPairs ty ts with
  | case1 ty t u rest h ih =>
    obtain ⟨n, hty, hkinds⟩ := ih
    refine ⟨n + 1, by rw [hty, TypeExpr.arrays_array, TypeExpr.arrays], ?_⟩
    rw [List.map_cons, List.map_cons, hkinds, h.1, h.2]
    rfl
  | case2 => exact ⟨0, rfl, rfl⟩
  | case3 => exact ⟨0, rfl, rfl⟩

/-- A base type is one token and has no pairs of brackets. -/
theorem took_parseBaseType (c : Cursor) :
    (parseBaseType c).All fun ty c' => c.Took [ty.base] c' ∧ ty.pairs = [] := by
  unfold parseBaseType
  split
  next t c₁ h₁ heq =>
    have ht : c.Took [t.kind] c₁ := Cursor.took_take heq
    split
    next hk => rw [hk] at ht; exact .ok ⟨ht, rfl⟩
    next hk => rw [hk] at ht; exact .ok ⟨ht, rfl⟩
    next name hk => rw [hk] at ht; exact .ok ⟨ht, rfl⟩
    next => exact .error _
  next => exact .error _

/-- Bracket pairs make the type of what stood before them. -/
theorem took_parseBrackets {base : TypeExpr} (hbase : base.pairs = []) (c : Cursor) :
    c.Took (parseBrackets base c).value.pairs (parseBrackets base c).cursor ∧
      (parseBrackets base c).value.base = base.base := by
  obtain ⟨n, hty, hkinds⟩ := took_bracketPairs base c.tokens
  have hty : (parseBrackets base c).value = .arrays n base := hty
  rw [hty, TypeExpr.pairs_arrays, TypeExpr.base_arrays, hbase, List.append_nil]
  exact ⟨hkinds, rfl⟩

theorem took_parseType (c : Cursor) : (parseType c).All fun ty c' => c.Took ty.kinds c' := by
  unfold parseType
  refine (took_parseBaseType c).bind fun ⟨base, c₁, h₁⟩ ⟨htook, hbase⟩ => .pure ?_
  obtain ⟨hpairs, heq⟩ := took_parseBrackets hbase c₁
  dsimp only at htook heq
  rw [← heq] at htook
  exact htook.trans hpairs

/-- **What is read as a declared variable** are its type and its name. -/
theorem took_parseVarDecl (c : Cursor) : (parseVarDecl c).All fun var c' => c.Took var.kinds c' := by
  unfold parseVarDecl
  refine (took_parseType c).bind fun ⟨ty, c₁, h₁⟩ hty => ?_
  exact (Cursor.took_ident ⟨c₁.tokens, c₁.next + 1⟩).bind fun s hs => .pure (hty.trans hs)

/-! ## Expressions -/

/-- An operator is found by its own symbol only. -/
theorem symbol_of_ofSymbol? {s : Symbol} {op : BinaryOp} (h : BinaryOp.ofSymbol? s = some op) :
    s = op.symbol := by
  cases s <;> cases op <;> simp_all [BinaryOp.ofSymbol?, BinaryOp.symbol]

theorem ofSymbol?_symbol (op : BinaryOp) : BinaryOp.ofSymbol? op.symbol = some op := by
  cases op <;> rfl

/-- An operator token is the symbol of the operator, which binds as tightly as
asked for. -/
theorem kind_of_ofKind? {level : Nat} {k : Kind} {op : BinaryOp}
    (h : BinaryOp.ofKind? level k = some op) : k = .symbol op.symbol ∧ level ≤ op.level := by
  unfold BinaryOp.ofKind? at h
  split at h
  next s =>
    obtain ⟨hop, hlevel⟩ := Option.filter_eq_some_iff.1 h
    exact ⟨by rw [symbol_of_ofSymbol? hop], of_decide_eq_true hlevel⟩
  next => cases h

/-- An operator is found at every level up to its own. -/
theorem ofKind?_symbol {level : Nat} {op : BinaryOp} (h : level ≤ op.level) :
    BinaryOp.ofKind? level (.symbol op.symbol) = some op :=
  Option.filter_eq_some_iff.2 ⟨ofSymbol?_symbol op, decide_eq_true h⟩

theorem unary_kind_of_ofKind? {k : Kind} {op : UnaryOp} (h : UnaryOp.ofKind? k = some op) :
    k = .symbol op.symbol := by
  unfold UnaryOp.ofKind? at h
  split at h
  next s => cases s <;> cases op <;> simp_all [UnaryOp.ofSymbol?, UnaryOp.symbol]
  next => cases h

theorem BinaryOp.level_le (op : BinaryOp) : op.level ≤ 9 := by
  cases op <;> decide

/-- No binary operator binds as tightly as one in front. -/
theorem BinaryPhrase.toUnary {w : List Kind} {e : Expr} :
    BinaryPhrase UnaryOp.level w e → UnaryPhrase w e
  | .unary h => h
  | .binary op hop _ _ => by
    have hle := op.level_le
    unfold UnaryOp.level at hop
    omega

/-- A routine takes a phrase. -/
def Reads.Takes {α : Type} {n : Nat} (r : Reads α n) (c : Cursor) (R : List Kind → α → Prop) :
    Prop :=
  r.All fun a c' => ∃ w, c.Took w c' ∧ R w a

mutual

/-- **What is read as an expression is a phrase**, and no operator follows that
binds as tightly as the level asks for. -/
theorem took_parseBinary (level : Nat) (c : Cursor) : (parseBinary level c).All fun e c' =>
    ∃ w, c.Took w c' ∧ BinaryPhrase level w e ∧ BinaryOp.ofKind? level c'.kind = none := by
  rw [parseBinary]
  refine (took_parseUnary c).bind fun ⟨lhs, c₁, h₁⟩ ⟨u, hu, hlhs⟩ => ?_
  have hrest : (parseOperators level lhs c₁).All _ :=
    took_parseOperators level (.unary hlhs) fun _ _ => .unary hlhs
  refine hrest.bind fun e he => .pure ?_
  obtain ⟨w, hw, he⟩ := he
  exact ⟨u ++ w, hu.trans hw, he⟩
termination_by (c.left, 2)

/-- The left operand has to bind as tightly as the operator that follows. -/
theorem took_parseOperators (level : Nat) {lhs : Expr} {c : Cursor} {u : List Kind}
    (hlhs : BinaryPhrase level u lhs)
    (hop : ∀ op, BinaryOp.ofKind? level c.kind = some op → BinaryPhrase op.level u lhs) :
    (parseOperators level lhs c).All fun e c' =>
      ∃ w, c.Took w c' ∧ BinaryPhrase level (u ++ w) e ∧
        BinaryOp.ofKind? level c'.kind = none := by
  rw [parseOperators]
  split
  next hnone =>
    refine .pure ⟨[], .refl c, ?_, Cursor.kind_of_takeSome?_none hnone rfl⟩
    rwa [List.append_nil]
  next op pos c₁ h₁ hsome =>
    obtain ⟨k, hk, hc₁⟩ := Cursor.took_takeSome? hsome
    dsimp only at hk hc₁
    have hkind : c.kind = k := by rw [Cursor.kind_eq, show c.kinds = _ from hc₁]; rfl
    have hleft := hop op (hkind ▸ hk)
    obtain ⟨rfl, hlevel⟩ := kind_of_ofKind? hk
    refine (took_parseBinary (op.level + 1) c₁).bind fun rhs ⟨v, hv, hright, hstop⟩ => ?_
    dsimp only
    have hlt : (⟨rhs.cursor.tokens, rhs.cursor.next + 1⟩ : Cursor).left < c.left :=
      Nat.lt_trans rhs.lt h₁
    have hbinary {level' : Nat} (hle : level' ≤ op.level) : BinaryPhrase level'
        (u ++ .symbol op.symbol :: v) (.binary ⟨rhs.cursor.next, some pos⟩ op lhs rhs.value) :=
      .binary op hle hleft hright
    refine (took_parseOperators level (hbinary hlevel) fun op' hop' => hbinary ?_).bind
      fun e ⟨w, hw, he, hend⟩ => .pure ⟨.symbol op.symbol :: (v ++ w), ?_, ?_, hend⟩
    · -- An operator that binds more tightly would have been read with the right operand.
      refine Nat.le_of_not_lt fun hlt' => ?_
      obtain ⟨hkind', -⟩ := kind_of_ofKind? hop'
      have hkind' : rhs.cursor.kind = .symbol op'.symbol := hkind'
      rw [hkind', ofKind?_symbol (by omega)] at hstop
      cases hstop
    · exact hc₁.trans (hv.trans hw)
    · rw [List.append_assoc] at he
      exact he
termination_by (c.left, 2)

theorem took_parseUnary (c : Cursor) : (parseUnary c).Takes c UnaryPhrase := by
  rw [parseUnary]
  split
  next op pos c₁ h₁ heq =>
    obtain ⟨k, hk, hc₁⟩ := Cursor.took_takeSome? heq
    dsimp only at hk hc₁
    obtain rfl := unary_kind_of_ofKind? hk
    split
    next digits hdigits =>
      split at hdigits
      next hop =>
        subst hop
        exact .pure ⟨_, hc₁.trans (Cursor.took_take? hdigits), .least⟩
      next => cases hdigits
    next =>
      refine (took_parseBinary UnaryOp.level c₁).bind fun s ⟨w, hw, he, _⟩ => .pure ?_
      exact ⟨_, hc₁.trans hw, .unary op he.toUnary⟩
  next =>
    refine (took_parseAtom c).bind fun ⟨e, c₁, h₁⟩ ⟨u, hu, he⟩ => ?_
    refine (took_parsePostfix (.atom he)).bind fun s ⟨w, hw, hs⟩ => .pure ?_
    exact ⟨u ++ w, hu.trans hw, .suffixed hs⟩
termination_by (c.left, 1)

theorem took_parseAtom (c : Cursor) : (parseAtom c).Takes c AtomPhrase := by
  rw [parseAtom]
  split
  next => exact .error _
  next t c₁ h₁ heq =>
    have ht : c.Took [t.kind] c₁ := Cursor.took_take heq
    split
    next digits hk =>
      rw [hk] at ht
      split
      next value hvalue => exact .pure ⟨_, ht, .int hvalue⟩
      next => exact .error _
    next hk => rw [hk] at ht; exact .pure ⟨_, ht, .true_⟩
    next hk => rw [hk] at ht; exact .pure ⟨_, ht, .false_⟩
    next hk => rw [hk] at ht; exact .pure ⟨_, ht, .null⟩
    next hk => rw [hk] at ht; exact .pure ⟨_, ht, .this⟩
    next name hk =>
      rw [hk] at ht
      split
      · refine (took_parseArgs c₁).bind fun s ⟨v, hv, hargs⟩ => .pure ?_
        exact ⟨_, ht.trans hv, .call hargs⟩
      · exact .pure ⟨_, ht, .var⟩
    next hk =>
      rw [hk] at ht
      refine (took_parseBinary 0 c₁).bind fun ⟨e, c₂, h₂⟩ ⟨w, hw, he, _⟩ => ?_
      refine (Cursor.took_expect _ c₂).bind fun s hs => .pure ?_
      exact ⟨_, ht.trans (hw.trans hs), .parens he⟩
    next hk =>
      rw [hk] at ht
      split
      next class_ c₂ h₂ hcallee =>
        refine (Cursor.took_expect _ c₂).bind fun s hs => .pure ?_
        exact ⟨_, ht.trans ((Cursor.took_takeCallee? hcallee).trans hs), .newObject⟩
      next =>
        refine (took_parseBaseType c₁).bind fun ⟨base, c₂, h₂⟩ ⟨hc₂, hbase⟩ => ?_
        refine (Cursor.took_expect _ c₂).bind fun ⟨_, c₃, h₃⟩ hc₃ => ?_
        refine (took_parseBinary 0 c₃).bind fun ⟨size, c₄, h₄⟩ ⟨w, hw, hsize, _⟩ => ?_
        refine (Cursor.took_expect _ c₄).bind fun ⟨_, c₅, h₅⟩ hc₅ => .pure ?_
        obtain ⟨hpairs, heq⟩ := took_parseBrackets hbase c₅
        dsimp only at hc₂ hc₃ hw hc₅ heq
        rw [← heq] at hc₂
        exact ⟨_, ht.trans (hc₂.trans (hc₃.trans (hw.trans (hc₅.trans hpairs)))), .newArray _ hsize⟩
    next => exact .error _
termination_by (c.left, 0)

/-- Accesses behind a postfix phrase make a longer one of it. -/
theorem took_parsePostfix {lhs : Expr} {c : Cursor} {u : List Kind} (hlhs : PostfixPhrase u lhs) :
    (parsePostfix lhs c).Takes c fun w e => PostfixPhrase (u ++ w) e := by
  rw [parsePostfix]
  split
  next pos₀ c₁ h₁ heq =>
    have hc₁ : c.Took _ c₁ := Cursor.took_take? heq
    refine (Cursor.took_ident c₁).bind fun ⟨(name, pos), c₂, h₂⟩ hc₂ => ?_
    have hc₂ : c.Took [.symbol .dot, .ident name] c₂ := hc₁.trans hc₂
    have hlt : c₂.left < c.left := Nat.lt_trans h₂ h₁
    dsimp only
    split
    next =>
      refine (took_parseArgs c₂).bind fun s ⟨v, hv, hargs⟩ => ?_
      have hlt' : (⟨s.cursor.tokens, s.cursor.next + 1⟩ : Cursor).left < c.left :=
        Nat.lt_trans s.lt hlt
      refine (took_parsePostfix (.call hlhs hargs)).bind fun e ⟨w, hw, he⟩ => .pure ?_
      exact ⟨_, hc₂.trans (hv.trans hw), by simpa using he⟩
    next =>
      split
      next hname =>
        have hlt' : (⟨c₂.tokens, c₂.next + 1⟩ : Cursor).left < c.left := hlt
        refine (took_parsePostfix (.length hlhs)).bind fun e ⟨w, hw, he⟩ => .pure ?_
        exact ⟨_, hc₂.trans hw, by simpa [hname] using he⟩
      next hname =>
        have hlt' : (⟨c₂.tokens, c₂.next + 1 + 1⟩ : Cursor).left < c.left := hlt
        refine (took_parsePostfix (.field hlhs hname)).bind fun e ⟨w, hw, he⟩ => .pure ?_
        exact ⟨_, hc₂.trans hw, by simpa using he⟩
  next =>
    split
    next pos c₁ h₁ heq =>
      have hc₁ : c.Took _ c₁ := Cursor.took_take? heq
      refine (took_parseBinary 0 c₁).bind fun ⟨index, c₂, h₂⟩ ⟨v, hv, hindex, _⟩ => ?_
      refine (Cursor.took_expect _ c₂).bind fun s hs => ?_
      have hlt : (⟨s.cursor.tokens, s.cursor.next + 1 + 1⟩ : Cursor).left < c.left :=
        Nat.lt_trans s.lt (Nat.lt_trans h₂ h₁)
      refine (took_parsePostfix (.index hlhs hindex)).bind fun e ⟨w, hw, he⟩ => .pure ?_
      dsimp only at he
      rw [List.append_assoc, List.cons_append, List.append_assoc] at he
      exact ⟨_, hc₁.trans (hv.trans (hs.trans hw)), he⟩
    next => exact .pure ⟨[], .refl c, by simpa using hlhs⟩
termination_by (c.left, 2)

theorem took_parseArgs (c : Cursor) : (parseArgs c).Takes c ArgsPhrase := by
  rw [parseArgs]
  refine (Cursor.took_expect _ c).bind fun ⟨_, c₁, h₁⟩ hc₁ => ?_
  dsimp only
  split
  next closed hclosed => exact .pure ⟨_, hc₁.trans (Cursor.took_take? hclosed), .nil⟩
  next =>
    refine (took_parseArgList c₁).bind fun s ⟨w, hw, hargs⟩ => .pure ?_
    exact ⟨_, hc₁.trans hw, .list hargs⟩
termination_by (c.left, 3)

theorem took_parseArgList (c : Cursor) : (parseArgList c).Takes c ArgListPhrase := by
  rw [parseArgList]
  refine (took_parseBinary 0 c).bind fun ⟨e, c₁, h₁⟩ ⟨u, hu, he, _⟩ => ?_
  dsimp only
  split
  next pos c₂ h₂ heq =>
    refine (took_parseArgList c₂).bind fun s ⟨v, hv, hargs⟩ => .pure ?_
    exact ⟨_, hu.trans ((Cursor.took_take? heq).trans hv), .cons he hargs⟩
  next =>
    refine (Cursor.took_expect _ c₁).bind fun s hs => .pure ?_
    exact ⟨_, hu.trans hs, .one he⟩
termination_by (c.left, 3)

end

theorem took_parseExpr (c : Cursor) : (parseExpr c).Takes c (BinaryPhrase 0) :=
  (took_parseBinary 0 c).mono fun _ _ ⟨w, hw, he, _⟩ => ⟨w, hw, he⟩

/-! ## Statements -/

/-- A closed expression is an expression of any level and the token that closes it. -/
theorem took_parseClosed (close : Kind) (c : Cursor) :
    (parseClosed close c).Takes c fun w e => ∃ u, BinaryPhrase 0 u e ∧ w = u ++ [close] := by
  unfold parseClosed
  refine (took_parseExpr c).bind fun ⟨e, c₁, h₁⟩ ⟨u, hu, he⟩ => ?_
  exact (Cursor.took_expect close c₁).bind fun s hs => .pure ⟨_, hu.trans hs, u, he, rfl⟩

theorem took_parseCondition (c : Cursor) : (parseCondition c).Takes c fun w e =>
    ∃ u, BinaryPhrase 0 u e ∧ w = .symbol .lparen :: (u ++ [.symbol .rparen]) := by
  unfold parseCondition
  refine (Cursor.took_expect _ c).bind fun ⟨_, c₁, h₁⟩ hc₁ => ?_
  refine (took_parseClosed _ c₁).bind fun s ⟨w, hw, u, he, heq⟩ => .pure ?_
  subst heq
  exact ⟨_, hc₁.trans hw, u, he, rfl⟩

/-- A declaration, an assignment or an expression; nothing that has an open end. -/
theorem took_parseSimple (c : Cursor) :
    (parseSimple c).Takes c fun w s => StmtPhrase w s ∧ s.openEnd = false := by
  unfold parseSimple
  dsimp only
  split
  next =>
    refine (took_parseVarDecl c).bind ?_
    rintro ⟨var, c₁, h₁⟩ hvar
    exact (Cursor.took_expect _ c₁).bind fun s hs => .pure ⟨_, hvar.trans hs, .decl var, rfl⟩
  next =>
    refine (took_parseExpr c).bind ?_
    rintro ⟨lhs, c₁, h₁⟩ ⟨u, hu, hlhs⟩
    dsimp only at hu hlhs ⊢
    split
    next pos c₂ h₂ heq =>
      split
      next m target =>
        refine (took_parseClosed _ c₂).bind ?_
        rintro s ⟨w, hw, v, hv, rfl⟩
        exact .pure ⟨_, hu.trans ((Cursor.took_take? heq).trans hw), .assign hlhs hv, rfl⟩
      next => exact .error _
    next => exact (Cursor.took_expect _ c₁).bind fun s hs => .pure ⟨_, hu.trans hs, .expr hlhs, rfl⟩

mutual

/-- **What is read as a statement is a phrase**, and no `else` follows that
would belong to an `if` at its end. -/
theorem took_parseStmt (c : Cursor) : (parseStmt c).All fun s c' =>
    ∃ w, c.Took w c' ∧ StmtPhrase w s ∧ (s.openEnd = true → c'.kind ≠ .keyword .else_) := by
  have hsimple : (parseSimple c).All fun s c' =>
      ∃ w, c.Took w c' ∧ StmtPhrase w s ∧ (s.openEnd = true → c'.kind ≠ .keyword .else_) :=
    (took_parseSimple c).mono fun _ _ ⟨w, hw, hs, hclosed⟩ =>
      ⟨w, hw, hs, fun hopen => nomatch hclosed.symm.trans hopen⟩
  rw [parseStmt]
  split
  next => exact hsimple
  next t c₁ h₁ heq =>
    have ht : c.Took [t.kind] c₁ := Cursor.took_take heq
    split
    next =>
      exact (took_parseBlock c).bind fun s ⟨w, hw, hs⟩ => .pure ⟨w, hw, .block hs, nofun⟩
    next hk =>
      rw [hk] at ht
      refine (took_parseCondition c₁).bind fun ⟨cond, c₂, h₂⟩ ⟨_, hu, u, hcond, hparens⟩ => ?_
      subst hparens
      refine (took_parseStmt c₂).bind fun ⟨yes, c₃, h₃⟩ ⟨v, hv, hyes, hend⟩ => ?_
      have hthen := ht.trans (hu.trans hv)
      dsimp only at hend hyes ⊢
      split
      next pos c₄ h₄ helse =>
        refine (took_parseStmt c₄).bind fun s ⟨w, hw, hno, hend'⟩ => .pure ?_
        -- An `else` follows, so the first branch has no open end: it would have taken it.
        have hclosed : yes.openEnd = false := by
          refine Bool.eq_false_iff.2 fun hopen => hend hopen ?_
          rw [Cursor.kind_eq, show c₃.kinds = _ from Cursor.took_take? helse]
          rfl
        exact ⟨_, hthen.trans ((Cursor.took_take? helse).trans hw),
          by simpa using StmtPhrase.ifElse hcond hyes hclosed hno, hend'⟩
      next hnone =>
        exact .pure ⟨_, hthen, by simpa using StmtPhrase.ifThen hcond hyes,
          fun _ => Cursor.kind_of_take?_none hnone (by simp)⟩
    next hk =>
      rw [hk] at ht
      refine (took_parseCondition c₁).bind fun ⟨cond, c₂, h₂⟩ ⟨_, hu, u, hcond, hparens⟩ => ?_
      subst hparens
      refine (took_parseStmt c₂).bind fun s ⟨v, hv, hbody, hend⟩ => .pure ?_
      exact ⟨_, ht.trans (hu.trans hv), by simpa using StmtPhrase.loop hcond hbody, hend⟩
    next hk =>
      rw [hk] at ht
      refine (took_parseClosed _ c₁).bind fun s ⟨w, hw, u, he, heq⟩ => .pure ?_
      subst heq
      exact ⟨_, ht.trans hw, .ret he, nofun⟩
    next => exact hsimple
termination_by (c.left, 1)

theorem took_parseBlock (c : Cursor) : (parseBlock c).Takes c BlockPhrase := by
  rw [parseBlock]
  refine (Cursor.took_expect _ c).bind fun ⟨_, c₁, h₁⟩ hc₁ => ?_
  refine (took_parseStmts c₁).bind fun s ⟨w, hw, u, hs, heq⟩ => .pure ?_
  subst heq
  exact ⟨_, hc₁.trans hw, .mk hs⟩
termination_by (c.left, 0)

/-- Statements and the brace behind them. -/
theorem took_parseStmts (c : Cursor) : (parseStmts c).Takes c fun w stmts =>
    ∃ u, StmtsPhrase u stmts ∧ w = u ++ [.symbol .rbrace] := by
  rw [parseStmts]
  split
  next closed hclosed => exact .pure ⟨_, Cursor.took_take? hclosed, [], .nil, rfl⟩
  next =>
    split
    · exact .error _
    · refine (took_parseStmt c).bind fun ⟨s, c₁, h₁⟩ ⟨v, hv, hs, _⟩ => ?_
      refine (took_parseStmts c₁).bind fun rest ⟨w, hw, u, hrest, heq⟩ => .pure ?_
      subst heq
      exact ⟨_, hv.trans hw, v ++ u, .cons hs hrest, by simp⟩
termination_by (c.left, 2)

end

/-! ## Declarations -/

/-- A list of parameters is never empty. -/
theorem took_parseParamList (c : Cursor) : (parseParamList c).All fun params c' =>
    params ≠ [] ∧ c.Took (paramKinds params ++ [.symbol .rparen]) c' := by
  rw [parseParamList]
  refine (took_parseVarDecl c).bind ?_
  rintro ⟨param, c₁, h₁⟩ hparam
  dsimp only at hparam ⊢
  split
  next pos c₂ h₂ heq =>
    refine (took_parseParamList c₂).bind ?_
    rintro s ⟨hne, hs⟩
    refine .pure ⟨by simp, ?_⟩
    have htook := hparam.trans ((Cursor.took_take? heq).trans hs)
    obtain ⟨first, rest, hcons⟩ := List.exists_cons_of_ne_nil hne
    simpa [hcons, paramKinds] using htook
  next =>
    refine (Cursor.took_expect _ c₁).bind fun s hs => .pure ⟨by simp, ?_⟩
    exact hparam.trans hs
termination_by c.left

theorem took_parseParams (c : Cursor) : (parseParams c).All fun params c' =>
    c.Took (.symbol .lparen :: (paramKinds params ++ [.symbol .rparen])) c' := by
  unfold parseParams
  refine (Cursor.took_expect _ c).bind ?_
  rintro ⟨_, c₁, h₁⟩ hc₁
  dsimp only
  split
  next closed hclosed => exact .pure (hc₁.trans (Cursor.took_take? hclosed))
  next => exact (took_parseParamList c₁).bind fun s hs => .pure (hc₁.trans hs.2)

/-- The heading of a function and what follows it. -/
theorem took_parseFunctionRest {c₀ c : Cursor} {heading : VarDecl} (hheading : c₀.Took heading.kinds c) :
    (parseFunctionRest heading c).Takes c₀ FunctionPhrase := by
  unfold parseFunctionRest
  refine (took_parseParams c).bind fun ⟨params, c₁, h₁⟩ hparams => ?_
  refine (took_parseBlock c₁).bind fun s ⟨w, hw, hbody⟩ => .pure ?_
  refine ⟨_, hheading.trans (hparams.trans hw), ?_⟩
  have h := FunctionPhrase.mk (f := ⟨heading.id, heading.ty, heading.name, params, s.value,
    heading.pos⟩) hbody
  simpa [VarDecl.kinds] using h

theorem took_parseFunction (c : Cursor) : (parseFunction c).Takes c FunctionPhrase := by
  unfold parseFunction
  refine (took_parseVarDecl c).bind fun ⟨heading, c₁, h₁⟩ hheading => ?_
  exact (took_parseFunctionRest hheading).bind fun s hs => .pure hs

theorem took_parseMember (c : Cursor) : (parseMember c).Takes c MemberPhrase := by
  unfold parseMember
  refine (took_parseVarDecl c).bind fun ⟨heading, c₁, h₁⟩ hheading => ?_
  dsimp only at hheading ⊢
  split
  next =>
    exact (took_parseFunctionRest hheading).bind fun s ⟨w, hw, hs⟩ => .pure ⟨w, hw, .method hs⟩
  next =>
    exact (Cursor.took_expect _ c₁).bind fun s hs => .pure ⟨_, hheading.trans hs, .field heading⟩

/-- Members and the brace behind them. -/
theorem took_parseMembers (c : Cursor) : (parseMembers c).Takes c fun w ms =>
    ∃ u, Phrases MemberPhrase u ms ∧ w = u ++ [.symbol .rbrace] := by
  rw [parseMembers]
  split
  next closed hclosed => exact .pure ⟨_, Cursor.took_take? hclosed, [], .nil, rfl⟩
  next =>
    split
    · exact .error _
    · refine (took_parseMember c).bind ?_
      rintro ⟨m, c₁, h₁⟩ ⟨v, hv, hm⟩
      refine (took_parseMembers c₁).bind ?_
      rintro rest ⟨w, hw, u, hrest, rfl⟩
      exact .pure ⟨_, hv.trans hw, v ++ u, .cons hm hrest, by simp⟩
termination_by c.left

theorem took_parseExtends (c : Cursor) :
    (parseExtends c).All fun super? c' => c.Took (extendsKinds super?) c' := by
  unfold parseExtends
  split
  next pos c₁ h₁ heq =>
    exact (Cursor.took_ident c₁).bind fun s hs => .pure ((Cursor.took_take? heq).trans hs)
  next => exact .pure (.refl c)

theorem took_parseClass (c : Cursor) : (parseClass c).Takes c ClassPhrase := by
  unfold parseClass
  refine (Cursor.took_expect _ c).bind fun ⟨_, c₁, h₁⟩ hc₁ => ?_
  refine (Cursor.took_ident ⟨c₁.tokens, c₁.next + 1⟩).bind fun ⟨(name, pos), c₃, h₃⟩ hc₃ => ?_
  have hc₃ : c₁.Took [.ident name] c₃ := hc₃
  refine (took_parseExtends c₃).bind fun ⟨extends?, c₄, h₄⟩ hc₄ => ?_
  refine (Cursor.took_expect _ c₄).bind fun ⟨_, c₅, h₅⟩ hc₅ => ?_
  refine (took_parseMembers c₅).bind fun ms ⟨w, hw, u, hms, heq⟩ => .pure ?_
  subst heq
  refine ⟨_, hc₁.trans (hc₃.trans (hc₄.trans (hc₅.trans hw))), ?_⟩
  exact ClassPhrase.mk (c := ⟨c₁.next, name, extends?, ms.value.filterMap Member.field?,
    ms.value.filterMap Member.method?, some pos⟩) hms rfl rfl

/-- **What is read as an item of a program is a phrase.** -/
theorem took_parseItem (c : Cursor) : (parseItem c).Takes c ItemPhrase := by
  unfold parseItem
  split
  next => exact (took_parseClass c).bind fun s ⟨w, hw, hs⟩ => .pure ⟨w, hw, .class_ hs⟩
  next => exact (took_parseFunction c).bind fun s ⟨w, hw, hs⟩ => .pure ⟨w, hw, .function hs⟩

/-- **Where nothing is wrong** all tokens up to the end of the file are items. -/
theorem took_parseItems (c : Cursor) (h : (parseItems c).2 = none) :
    ∃ w rest, c.kinds = w ++ rest ∧ rest.headD .eof = .eof ∧ Phrases ItemPhrase w (parseItems c).1 := by
  rw [parseItems] at h ⊢
  split
  next heof => exact ⟨[], c.kinds, rfl, c.kind_eq ▸ heof, .nil⟩
  next hne =>
    rw [if_neg hne] at h
    split
    next e heq => rw [heq] at h; cases h
    next item c₁ h₁ heq =>
      rw [heq] at h
      obtain ⟨u, hu, hitem⟩ := took_parseItem c _ heq
      obtain ⟨w, rest, hw, hrest, hitems⟩ := took_parseItems c₁ h
      refine ⟨u ++ w, rest, ?_, hrest, .cons hitem hitems⟩
      rw [show c.kinds = _ from hu, List.append_assoc]
      exact congrArg (u ++ ·) hw
termination_by c.left

end ClassLang.Source
