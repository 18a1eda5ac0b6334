import ClassLang.Proofs.Source.Reading
/-!
# Source — names

A name in a program that is read is an identifier: it starts with a letter
or `_`, only letters, digits and `_` follow, and it is no reserved word
(`named_parse`). The tokens of a text have such identifiers only
(`isName_of_lex`), and reading takes tokens from the front and leaves the
others as they are (`leaves_parseStmt`).
-/


namespace ClassLang

/-- An identifier. -/
structure IsName (s : String) : Prop where
  chars : ∃ c cs, s.toList = c :: cs ∧ isIdentStart c = true ∧ ∀ d ∈ cs, isIdentRest d = true
  free : Keyword.ofString? s = none

/-! ## Identifiers of a text -/

/-- A word is an identifier if it is not reserved. -/
theorem isName_of_ofWord {word name : String} (h : Token.Kind.ofWord word = .ident name) :
    name = word ∧ Keyword.ofString? word = none := by
  unfold Token.Kind.ofWord at h
  split at h
  · cases h
  next hnone => exact ⟨(Token.Kind.ident.inj h).symm, hnone⟩

/-- A word starts where the scanner finds that an identifier may. -/
theorem isName_of_lexeme {c : Char} {cs : List Char} {name : String}
    (h : (lexeme c cs).kind = .ident name) : IsName name := by
  unfold lexeme at h
  split at h
  · split at h <;> cases h
  split at h
  · split at h <;> cases h
  split at h
  · cases h
  split at h
  next hstart =>
    obtain ⟨rfl, hfree⟩ := isName_of_ofWord h
    exact ⟨⟨c, _, String.toList_ofList, hstart, List.all_eq_true.1 List.all_takeWhile⟩, hfree⟩
  · split at h <;> cases h

theorem isName_of_next {s s' : Scanner} {t : Token} {name : String} (h : s.next = some (t, s'))
    (ht : t.kind = .ident name) : IsName name := by
  unfold Scanner.next at h
  split at h
  · cases h
  dsimp only at h
  split at h
  · cases h
    cases ht
  · cases h
    exact isName_of_lexeme ht

/-- It is so of all tokens, one after the other. -/
theorem isName_of_drain (s : Scanner) {t : Token} {name : String} (h : t ∈ s.drain.1)
    (ht : t.kind = .ident name) : IsName name := by
  rw [Scanner.drain] at h
  split at h
  · cases h
  next u s' hnext =>
    rcases List.mem_cons.1 h with rfl | h
    · exact isName_of_next hnext ht
    · have hlt := Scanner.remaining_lt_of_next hnext
      exact isName_of_drain s' h ht
termination_by s.remaining

/-- **The identifiers of a text are names.** -/
theorem isName_of_lex {source : String} {t : Token} {name : String}
    (h : t ∈ (lex source).tokens) (ht : t.kind = .ident name) : IsName name :=
  isName_of_drain _ h ht

namespace Source

/-! ## What is left to read -/

/-- Whatever is read, what is left was there before. -/
def Reads.Leaves {α : Type} {n : Nat} (r : Reads α n) (c : Cursor) : Prop :=
  r.All fun _ c' => c'.tokens <:+ c.tokens

/-- What is left is less by the token that was taken. -/
theorem suffix_of_take {c : Cursor} {s : Step Located c.left} (h : c.take = some s) :
    s.cursor.tokens <:+ c.tokens := by
  obtain ⟨tokens, next⟩ := c
  cases tokens with
  | nil => cases h
  | cons t rest =>
    cases h
    exact List.suffix_cons t rest

theorem suffix_of_take? {kind : Token.Kind} {c : Cursor} {s : Step Pos c.left}
    (h : c.take? kind = some s) : s.cursor.tokens <:+ c.tokens := by
  unfold Cursor.take? at h
  cases hs : c.take with
  | none => rw [hs] at h; cases h
  | some t =>
    rw [hs] at h
    dsimp only at h
    split at h
    · cases h
      exact suffix_of_take hs
    · cases h

theorem suffix_of_takeSome? {α : Type} {f : Token.Kind → Option α} {c : Cursor}
    {s : Step (α × Pos) c.left} (h : c.takeSome? f = some s) : s.cursor.tokens <:+ c.tokens := by
  unfold Cursor.takeSome? at h
  cases hs : c.take with
  | none => rw [hs] at h; cases h
  | some t =>
    rw [hs] at h
    obtain ⟨a, -, rfl⟩ := Option.map_eq_some_iff.1 h
    exact suffix_of_take hs

/-- Two tokens are taken for a callee, its name and the parenthesis. -/
theorem suffix_of_takeCallee? {c : Cursor} {s : Step String c.left} (h : c.takeCallee? = some s) :
    s.cursor.tokens <:+ c.tokens := by
  unfold Cursor.takeCallee? at h
  split at h
  · cases h
    exact (List.suffix_cons _ _).trans (List.suffix_cons _ _)
  · cases h

theorem leaves_expect (kind : Token.Kind) (c : Cursor) : (c.expect kind).Leaves c := by
  unfold Cursor.expect
  split
  next step heq => exact .ok (suffix_of_take? heq)
  next => exact .error _

theorem leaves_ident (c : Cursor) : c.ident.Leaves c := by
  unfold Cursor.ident
  split
  · exact .ok (List.suffix_cons _ _)
  · exact .error _

/-- Brackets are taken in pairs. -/
theorem suffix_bracketPairs (ty : TypeExpr) (ts : List Located) : (bracketPairs ty ts).2 <:+ ts := by
  fun_induction bracketPairs ty ts with
  | case1 ty t u rest h ih => exact ih.trans ((List.suffix_cons _ _).trans (List.suffix_cons _ _))
  | case2 => exact List.suffix_rfl
  | case3 => exact List.suffix_rfl

theorem leaves_parseBaseType (c : Cursor) : (parseBaseType c).Leaves c := by
  unfold parseBaseType
  cases hs : c.take with
  | none => exact .error _
  | some s =>
    obtain ⟨t, c₁, h₁⟩ := s
    have hc₁ : c₁.tokens <:+ c.tokens := suffix_of_take hs
    dsimp only
    split
    · exact .ok hc₁
    · exact .ok hc₁
    · exact .ok hc₁
    · exact .error _

/-- A type is a base and the brackets behind it. -/
theorem leaves_parseType (c : Cursor) : (parseType c).Leaves c := by
  unfold parseType
  refine (leaves_parseBaseType c).bind fun ⟨base, c₁, h₁⟩ hc₁ => .pure ?_
  exact (suffix_bracketPairs base c₁.tokens).trans hc₁

theorem leaves_parseVarDecl (c : Cursor) : (parseVarDecl c).Leaves c := by
  unfold parseVarDecl
  refine (leaves_parseType c).bind fun ⟨ty, c₁, h₁⟩ hc₁ => ?_
  exact (leaves_ident ⟨c₁.tokens, c₁.next + 1⟩).bind fun s hs => .pure (hs.trans hc₁)

mutual

/-- **Reading an expression takes tokens from the front** and leaves the others. -/
theorem leaves_parseBinary (level : Nat) (c : Cursor) : (parseBinary level c).Leaves c := by
  rw [parseBinary]
  refine (leaves_parseUnary c).bind fun ⟨lhs, c₁, h₁⟩ hc₁ => ?_
  exact (leaves_parseOperators level lhs c₁).bind fun s hs => .pure (hs.trans hc₁)
termination_by (c.left, 2)

theorem leaves_parseOperators (level : Nat) (lhs : Expr) (c : Cursor) :
    (parseOperators level lhs c).Leaves c := by
  rw [parseOperators]
  split
  next => exact .pure List.suffix_rfl
  next op pos c₁ h₁ heq =>
    have hc₁ : c₁.tokens <:+ c.tokens := suffix_of_takeSome? heq
    refine (leaves_parseBinary (op.level + 1) c₁).bind fun s hs => ?_
    have hlt : (⟨s.cursor.tokens, s.cursor.next + 1⟩ : Cursor).left < c.left :=
      Nat.lt_trans s.lt h₁
    exact (leaves_parseOperators level _ _).bind fun e he => .pure (he.trans (hs.trans hc₁))
termination_by (c.left, 2)

theorem leaves_parseUnary (c : Cursor) : (parseUnary c).Leaves c := by
  rw [parseUnary]
  split
  next op pos c₁ h₁ heq =>
    have hc₁ : c₁.tokens <:+ c.tokens := suffix_of_takeSome? heq
    split
    next digits hdigits =>
      split at hdigits
      · exact .pure ((suffix_of_take? hdigits).trans hc₁)
      · cases hdigits
    next => exact (leaves_parseBinary _ c₁).bind fun s hs => .pure (hs.trans hc₁)
  next =>
    refine (leaves_parseAtom c).bind fun ⟨e, c₁, h₁⟩ hc₁ => ?_
    exact (leaves_parsePostfix e c₁).bind fun s hs => .pure (hs.trans hc₁)
termination_by (c.left, 1)

/-- An atom takes at least its first token. -/
theorem leaves_parseAtom (c : Cursor) : (parseAtom c).Leaves c := by
  rw [parseAtom]
  split
  next => exact .error _
  next t c₁ h₁ heq =>
    have hc₁ : c₁.tokens <:+ c.tokens := suffix_of_take heq
    split
    next =>
      split
      · exact .pure hc₁
      · exact .error _
    next => exact .pure hc₁
    next => exact .pure hc₁
    next => exact .pure hc₁
    next => exact .pure hc₁
    next =>
      split
      · exact (leaves_parseArgs c₁).bind fun s hs => .pure (hs.trans hc₁)
      · exact .pure hc₁
    next =>
      refine (leaves_parseBinary 0 c₁).bind fun ⟨e, c₂, h₂⟩ hc₂ => ?_
      exact (leaves_expect _ c₂).bind fun s hs => .pure (hs.trans (hc₂.trans hc₁))
    next =>
      split
      next class_ c₂ h₂ hcallee =>
        have hc₂ : c₂.tokens <:+ c₁.tokens := suffix_of_takeCallee? hcallee
        exact (leaves_expect _ c₂).bind fun s hs => .pure (hs.trans (hc₂.trans hc₁))
      next =>
        refine (leaves_parseBaseType c₁).bind fun ⟨base, c₂, h₂⟩ hc₂ => ?_
        refine (leaves_expect _ c₂).bind fun ⟨_, c₃, h₃⟩ hc₃ => ?_
        refine (leaves_parseBinary 0 c₃).bind fun ⟨size, c₄, h₄⟩ hc₄ => ?_
        refine (leaves_expect _ c₄).bind fun ⟨_, c₅, h₅⟩ hc₅ => .pure ?_
        exact (suffix_bracketPairs base c₅.tokens).trans
          (hc₅.trans (hc₄.trans (hc₃.trans (hc₂.trans hc₁))))
    next => exact .error _
termination_by (c.left, 0)

/-- What follows an expression is taken, suffix by suffix. -/
theorem leaves_parsePostfix (lhs : Expr) (c : Cursor) : (parsePostfix lhs c).Leaves c := by
  rw [parsePostfix]
  split
  next pos₀ c₁ h₁ heq =>
    have hc₁ : c₁.tokens <:+ c.tokens := suffix_of_take? heq
    refine (leaves_ident c₁).bind fun ⟨(name, pos), c₂, h₂⟩ hc₂ => ?_
    have hc₂ : c₂.tokens <:+ c.tokens := hc₂.trans hc₁
    have hlt : c₂.left < c.left := Nat.lt_trans h₂ h₁
    dsimp only
    split
    next =>
      refine (leaves_parseArgs c₂).bind fun s hs => ?_
      have hlt' : (⟨s.cursor.tokens, s.cursor.next + 1⟩ : Cursor).left < c.left :=
        Nat.lt_trans s.lt hlt
      exact (leaves_parsePostfix _ _).bind fun e he => .pure (he.trans (hs.trans hc₂))
    next =>
      split
      next =>
        have hlt' : (⟨c₂.tokens, c₂.next + 1⟩ : Cursor).left < c.left := hlt
        exact (leaves_parsePostfix _ _).bind fun e he => .pure (he.trans hc₂)
      next =>
        have hlt' : (⟨c₂.tokens, c₂.next + 1 + 1⟩ : Cursor).left < c.left := hlt
        exact (leaves_parsePostfix _ _).bind fun e he => .pure (he.trans hc₂)
  next =>
    split
    next pos c₁ h₁ heq =>
      have hc₁ : c₁.tokens <:+ c.tokens := suffix_of_take? heq
      refine (leaves_parseBinary 0 c₁).bind fun ⟨index, c₂, h₂⟩ hc₂ => ?_
      refine (leaves_expect _ c₂).bind fun s hs => ?_
      have hlt : (⟨s.cursor.tokens, s.cursor.next + 1 + 1⟩ : Cursor).left < c.left :=
        Nat.lt_trans s.lt (Nat.lt_trans h₂ h₁)
      exact (leaves_parsePostfix _ _).bind fun e he =>
        .pure (he.trans (hs.trans (hc₂.trans hc₁)))
    next => exact .pure List.suffix_rfl
termination_by (c.left, 2)

theorem leaves_parseArgs (c : Cursor) : (parseArgs c).Leaves c := by
  rw [parseArgs]
  refine (leaves_expect _ c).bind fun ⟨_, c₁, h₁⟩ hc₁ => ?_
  dsimp only
  split
  next closed hclosed => exact .pure ((suffix_of_take? hclosed).trans hc₁)
  next => exact (leaves_parseArgList c₁).bind fun s hs => .pure (hs.trans hc₁)
termination_by (c.left, 3)

theorem leaves_parseArgList (c : Cursor) : (parseArgList c).Leaves c := by
  rw [parseArgList]
  refine (leaves_parseBinary 0 c).bind fun ⟨e, c₁, h₁⟩ hc₁ => ?_
  dsimp only
  split
  next pos c₂ h₂ heq =>
    have hc₂ : c₂.tokens <:+ c₁.tokens := suffix_of_take? heq
    exact (leaves_parseArgList c₂).bind fun s hs => .pure (hs.trans (hc₂.trans hc₁))
  next => exact (leaves_expect _ c₁).bind fun s hs => .pure (hs.trans hc₁)
termination_by (c.left, 3)

end

theorem leaves_parseClosed (close : Token.Kind) (c : Cursor) : (parseClosed close c).Leaves c := by
  unfold parseClosed parseExpr
  refine (leaves_parseBinary 0 c).bind fun ⟨e, c₁, h₁⟩ hc₁ => ?_
  exact (leaves_expect close c₁).bind fun s hs => .pure (hs.trans hc₁)

theorem leaves_parseCondition (c : Cursor) : (parseCondition c).Leaves c := by
  unfold parseCondition
  refine (leaves_expect _ c).bind fun ⟨_, c₁, h₁⟩ hc₁ => ?_
  exact (leaves_parseClosed _ c₁).bind fun s hs => .pure (hs.trans hc₁)

theorem leaves_parseSimple (c : Cursor) : (parseSimple c).Leaves c := by
  unfold parseSimple
  dsimp only
  split
  next =>
    refine (leaves_parseVarDecl c).bind fun ⟨var, c₁, h₁⟩ hc₁ => ?_
    exact (leaves_expect _ c₁).bind fun s hs => .pure (hs.trans hc₁)
  next =>
    refine (leaves_parseBinary 0 c).bind fun ⟨lhs, c₁, h₁⟩ hc₁ => ?_
    dsimp only
    split
    next pos c₂ h₂ heq =>
      have hc₂ : c₂.tokens <:+ c₁.tokens := suffix_of_take? heq
      split
      next => exact (leaves_parseClosed _ c₂).bind fun s hs => .pure (hs.trans (hc₂.trans hc₁))
      next => exact .error _
    next => exact (leaves_expect _ c₁).bind fun s hs => .pure (hs.trans hc₁)

mutual

/-- **Reading a statement takes tokens from the front** and leaves the others. -/
theorem leaves_parseStmt (c : Cursor) : (parseStmt c).Leaves c := by
  rw [parseStmt]
  split
  next => exact leaves_parseSimple c
  next t c₁ h₁ heq =>
    have hc₁ : c₁.tokens <:+ c.tokens := suffix_of_take heq
    split
    next => exact (leaves_parseBlock c).bind fun s hs => .pure hs
    next =>
      refine (leaves_parseCondition c₁).bind fun ⟨cond, c₂, h₂⟩ hc₂ => ?_
      refine (leaves_parseStmt c₂).bind fun ⟨yes, c₃, h₃⟩ hc₃ => ?_
      have hc₃ : c₃.tokens <:+ c.tokens := hc₃.trans (hc₂.trans hc₁)
      dsimp only
      split
      next pos c₄ h₄ heq =>
        have hc₄ : c₄.tokens <:+ c₃.tokens := suffix_of_take? heq
        exact (leaves_parseStmt c₄).bind fun s hs => .pure (hs.trans (hc₄.trans hc₃))
      next => exact .pure hc₃
    next =>
      refine (leaves_parseCondition c₁).bind fun ⟨cond, c₂, h₂⟩ hc₂ => ?_
      exact (leaves_parseStmt c₂).bind fun s hs => .pure (hs.trans (hc₂.trans hc₁))
    next => exact (leaves_parseClosed _ c₁).bind fun s hs => .pure (hs.trans hc₁)
    next => exact leaves_parseSimple c
termination_by (c.left, 1)

theorem leaves_parseBlock (c : Cursor) : (parseBlock c).Leaves c := by
  rw [parseBlock]
  refine (leaves_expect _ c).bind fun ⟨_, c₁, h₁⟩ hc₁ => ?_
  exact (leaves_parseStmts c₁).bind fun s hs => .pure (hs.trans hc₁)
termination_by (c.left, 0)

theorem leaves_parseStmts (c : Cursor) : (parseStmts c).Leaves c := by
  rw [parseStmts]
  split
  next closed hclosed => exact .pure (suffix_of_take? hclosed)
  next =>
    split
    · exact .error _
    · refine (leaves_parseStmt c).bind fun ⟨s, c₁, h₁⟩ hc₁ => ?_
      exact (leaves_parseStmts c₁).bind fun rest hrest => .pure (hrest.trans hc₁)
termination_by (c.left, 2)

end

/-! ## The names of a program -/

/-- The identifiers that are left to read are names. -/
def Cursor.Named (c : Cursor) : Prop :=
  ∀ t ∈ c.tokens, ∀ name, t.kind = .ident name → IsName name

/-- Names are names also where fewer tokens are left. -/
theorem Cursor.Named.mono {c c' : Cursor} (h : c.Named) (hc : c'.tokens <:+ c.tokens) : c'.Named :=
  fun t ht => h t (hc.subset ht)

/-- The name of a function and those of its parameters are identifiers. -/
structure FunctionDecl.Named (f : FunctionDecl) : Prop where
  name : IsName f.name
  params : ∀ param ∈ f.params, IsName param.name

/-- The name of a class and those in its methods are identifiers. -/
structure ClassDecl.Named (c : ClassDecl) : Prop where
  name : IsName c.name
  methods : ∀ m ∈ c.methods, m.Named

/-- **An identifier that is read** is a name, as it was one of those that were left. -/
theorem named_ident {c : Cursor} (hc : c.Named) :
    c.ident.All fun r c' => IsName r.1 ∧ c'.tokens <:+ c.tokens := by
  unfold Cursor.ident
  split
  next name _ pos rest next =>
    exact .ok ⟨hc _ List.mem_cons_self name rfl, List.suffix_cons _ _⟩
  · exact .error _

/-- A variable has its name from an identifier. -/
theorem named_parseVarDecl {c : Cursor} (hc : c.Named) :
    (parseVarDecl c).All fun var c' => IsName var.name ∧ c'.tokens <:+ c.tokens := by
  unfold parseVarDecl
  refine (leaves_parseType c).bind fun ⟨ty, c₁, h₁⟩ hc₁ => ?_
  have hnamed : Cursor.Named ⟨c₁.tokens, c₁.next + 1⟩ := hc.mono hc₁
  exact (named_ident hnamed).bind fun s hs => .pure ⟨hs.1, hs.2.trans hc₁⟩

theorem named_parseParamList {c : Cursor} (hc : c.Named) :
    (parseParamList c).All fun params c' =>
      (∀ param ∈ params, IsName param.name) ∧ c'.tokens <:+ c.tokens := by
  rw [parseParamList]
  refine (named_parseVarDecl hc).bind fun ⟨param, c₁, h₁⟩ ⟨hparam, hc₁⟩ => ?_
  dsimp only at hparam hc₁ ⊢
  split
  next pos c₂ h₂ heq =>
    have hc₂ : c₂.tokens <:+ c.tokens := (suffix_of_take? heq).trans hc₁
    refine (named_parseParamList (hc.mono hc₂)).bind fun s hs => .pure ⟨?_, hs.2.trans hc₂⟩
    exact List.forall_mem_cons.2 ⟨hparam, hs.1⟩
  next =>
    refine (leaves_expect _ c₁).bind fun s hs => .pure ⟨?_, hs.trans hc₁⟩
    exact List.forall_mem_singleton.2 hparam
termination_by c.left

/-- So has every parameter. -/
theorem named_parseParams {c : Cursor} (hc : c.Named) :
    (parseParams c).All fun params c' =>
      (∀ param ∈ params, IsName param.name) ∧ c'.tokens <:+ c.tokens := by
  unfold parseParams
  refine (leaves_expect _ c).bind fun ⟨_, c₁, h₁⟩ hc₁ => ?_
  dsimp only at hc₁ ⊢
  split
  next closed hclosed =>
    exact .pure ⟨List.forall_mem_nil _, (suffix_of_take? hclosed).trans hc₁⟩
  next => exact (named_parseParamList (hc.mono hc₁)).bind fun s hs => .pure ⟨hs.1, hs.2.trans hc₁⟩

/-- A function has the name that was read before its parameters. -/
theorem named_parseFunctionRest {heading : VarDecl} (hheading : IsName heading.name) {c : Cursor}
    (hc : c.Named) :
    (parseFunctionRest heading c).All fun f c' => f.Named ∧ c'.tokens <:+ c.tokens := by
  unfold parseFunctionRest
  refine (named_parseParams hc).bind fun ⟨params, c₁, h₁⟩ ⟨hparams, hc₁⟩ => ?_
  exact (leaves_parseBlock c₁).bind fun s hs => .pure ⟨⟨hheading, hparams⟩, hs.trans hc₁⟩

theorem named_parseFunction {c : Cursor} (hc : c.Named) :
    (parseFunction c).All fun f c' => f.Named ∧ c'.tokens <:+ c.tokens := by
  unfold parseFunction
  refine (named_parseVarDecl hc).bind fun ⟨heading, c₁, h₁⟩ ⟨hheading, hc₁⟩ => ?_
  exact (named_parseFunctionRest hheading (hc.mono hc₁)).bind fun s hs =>
    .pure ⟨hs.1, hs.2.trans hc₁⟩

/-- A member is a method if parameters follow its name. -/
theorem named_parseMember {c : Cursor} (hc : c.Named) :
    (parseMember c).All fun m c' =>
      (∀ f ∈ [m].filterMap Member.method?, f.Named) ∧ c'.tokens <:+ c.tokens := by
  unfold parseMember
  refine (named_parseVarDecl hc).bind fun ⟨heading, c₁, h₁⟩ ⟨hheading, hc₁⟩ => ?_
  dsimp only at hheading hc₁ ⊢
  split
  next =>
    refine (named_parseFunctionRest hheading (hc.mono hc₁)).bind fun s hs =>
      .pure ⟨?_, hs.2.trans hc₁⟩
    exact List.forall_mem_singleton.2 hs.1
  next =>
    refine (leaves_expect _ c₁).bind fun s hs => .pure ⟨?_, hs.trans hc₁⟩
    exact List.forall_mem_nil _

theorem named_parseMembers {c : Cursor} (hc : c.Named) :
    (parseMembers c).All fun ms c' =>
      (∀ f ∈ ms.filterMap Member.method?, f.Named) ∧ c'.tokens <:+ c.tokens := by
  rw [parseMembers]
  split
  next closed hclosed => exact .pure ⟨List.forall_mem_nil _, suffix_of_take? hclosed⟩
  next =>
    split
    · exact .error _
    · refine (named_parseMember hc).bind ?_
      rintro ⟨m, c₁, h₁⟩ ⟨hm, hc₁⟩
      refine (named_parseMembers (hc.mono hc₁)).bind fun rest hrest =>
        .pure ⟨fun f hf => ?_, hrest.2.trans hc₁⟩
      have hf : f ∈ ([m] ++ rest.value).filterMap Member.method? := hf
      rw [List.filterMap_append, List.mem_append] at hf
      exact hf.elim (hm f) (hrest.1 f)
termination_by c.left

theorem leaves_parseExtends (c : Cursor) : (parseExtends c).Leaves c := by
  unfold parseExtends
  split
  next pos c₁ h₁ heq =>
    have hc₁ : c₁.tokens <:+ c.tokens := suffix_of_take? heq
    exact (leaves_ident c₁).bind fun s hs => .pure (hs.trans hc₁)
  next => exact .pure List.suffix_rfl

/-- **The names of a class** are its own and those of its methods. -/
theorem named_parseClass {c : Cursor} (hc : c.Named) :
    (parseClass c).All fun cls c' => cls.Named ∧ c'.tokens <:+ c.tokens := by
  unfold parseClass
  refine (leaves_expect _ c).bind fun ⟨_, c₁, h₁⟩ hc₁ => ?_
  have hnamed : Cursor.Named ⟨c₁.tokens, c₁.next + 1⟩ := hc.mono hc₁
  refine (named_ident hnamed).bind fun ⟨(name, pos), c₃, h₃⟩ ⟨hname, hc₃⟩ => ?_
  have hc₃ : c₃.tokens <:+ c.tokens := hc₃.trans hc₁
  refine (leaves_parseExtends c₃).bind fun ⟨extends?, c₄, h₄⟩ hc₄ => ?_
  refine (leaves_expect _ c₄).bind fun ⟨_, c₅, h₅⟩ hc₅ => ?_
  have hc₅ : c₅.tokens <:+ c.tokens := hc₅.trans (hc₄.trans hc₃)
  exact (named_parseMembers (hc.mono hc₅)).bind fun ms hms =>
    .pure ⟨⟨hname, hms.1⟩, hms.2.trans hc₅⟩

/-- The names in an item are identifiers. -/
def Item.Named : Item → Prop
  | function f => f.Named
  | class_ c => c.Named

theorem named_parseItem {c : Cursor} (hc : c.Named) :
    (parseItem c).All fun item c' => item.Named ∧ c'.tokens <:+ c.tokens := by
  unfold parseItem
  split
  next => exact (named_parseClass hc).bind fun s hs => .pure hs
  next => exact (named_parseFunction hc).bind fun s hs => .pure hs

/-- It is so of every item that is read, also in front of an error. -/
theorem named_parseItems {c : Cursor} (hc : c.Named) : ∀ item ∈ (parseItems c).1, item.Named := by
  rw [parseItems]
  split
  · exact List.forall_mem_nil _
  · split
    · exact List.forall_mem_nil _
    next item c₁ h₁ heq =>
      obtain ⟨hitem, hc₁⟩ := named_parseItem hc _ heq
      exact List.forall_mem_cons.2 ⟨hitem, named_parseItems (hc.mono hc₁)⟩
termination_by c.left

/-- The names of functions, classes and methods and those of their
parameters are identifiers. -/
structure Program.Named (p : Program) : Prop where
  functions : ∀ f ∈ p.functions, f.Named
  classes : ∀ c ∈ p.classes, c.Named

/-- **The names in a program that is read are identifiers.** -/
theorem named_parse {source : String} {p : Program} (h : (parse source).toExcept = .ok p) :
    p.Named := by
  obtain rfl := eq_program_of_read h
  have hc : Cursor.Named ⟨locate (Lines.ofString source) (lex source).tokens, 0⟩ := by
    intro t ht name hkind
    obtain ⟨u, hu, rfl⟩ := List.mem_map.1 ht
    exact isName_of_lex hu hkind
  have hitems := named_parseItems hc
  refine ⟨fun f hf => ?_, fun c hc => ?_⟩
  · obtain ⟨item, hitem, heq⟩ := List.mem_filterMap.1 hf
    cases item with
    | function g =>
      obtain rfl := Option.some.inj heq
      exact hitems _ hitem
    | class_ c => cases heq
  · obtain ⟨item, hitem, heq⟩ := List.mem_filterMap.1 hc
    cases item with
    | function g => cases heq
    | class_ c' =>
      obtain rfl := Option.some.inj heq
      exact hitems _ hitem

end Source

end ClassLang
