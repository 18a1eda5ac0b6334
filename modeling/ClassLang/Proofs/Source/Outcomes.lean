import ClassLang.Proofs.Source.Readable
/-!
# Source — what routines come to

The outcome of a reading routine is its error, or its value and the cursor behind
it; the proof that fewer tokens are left is no part of it. Outcomes follow one
another by `Outcome.andThen`, and each routine comes to what its parts come to:
there is one equation for each way that a routine can go, and the next token says
which one it is.
-/


namespace ClassLang.Source

open Token (Kind)

/-! ## Outcomes -/

/-- An error, or a value and the cursor behind what was read for it. -/
abbrev Outcome (α : Type) := Except ParseError (α × Cursor)

/-- What a routine comes to. -/
def Reads.outcome {α : Type} {n : Nat} (r : Reads α n) : Outcome α :=
  match r with
  | .ok s => .ok (s.value, s.cursor)
  | .error e => .error e

/-- Reading goes on behind a value, if there is one. -/
def Outcome.andThen {α β : Type} (o : Outcome α) (k : α → Cursor → Outcome β) : Outcome β :=
  match o with
  | .ok (a, c) => k a c
  | .error e => .error e

theorem Outcome.andThen_assoc {α β γ : Type} (o : Outcome α) (k : α → Cursor → Outcome β)
    (k' : β → Cursor → Outcome γ) :
    Outcome.andThen (Outcome.andThen o k) k' =
      Outcome.andThen o fun a c => Outcome.andThen (k a c) k' := by
  cases o with
  | error e => rfl
  | ok r => rfl

theorem Outcome.andThen_eq_ok {α β : Type} {o : Outcome α} {k : α → Cursor → Outcome β}
    {r : β × Cursor} (h : Outcome.andThen o k = .ok r) : ∃ a c, o = .ok (a, c) ∧ k a c = .ok r := by
  cases o with
  | error e => cases h
  | ok s => exact ⟨s.1, s.2, rfl, h⟩

/-- Reading goes on behind a token of the kind, or in front of another one. -/
def Cursor.opt {α : Type} (k : Kind) (yes : Pos → Cursor → Outcome α) (no : Cursor → Outcome α)
    (c : Cursor) : Outcome α :=
  match c.take? k with
  | some s => yes s.value s.cursor
  | none => no c

section

variable {α β : Type} {m n : Nat}

/-- **Reading in turn** comes to the outcomes in turn. -/
theorem outcome_bind {r : Reads α n} {k : Step α n → Reads β m} {q : α → Cursor → Outcome β}
    (h : ∀ s, (k s).outcome = q s.value s.cursor) :
    Reads.outcome (r >>= k) = Outcome.andThen r.outcome q := by
  cases r with
  | error e => rfl
  | ok s => exact h s

/-- What is read next may depend on what was read. -/
theorem outcome_bind_of {r : Reads α n} {k : Step α n → Reads β m} {q : α → Cursor → Outcome β}
    (h : ∀ s, r = .ok s → (k s).outcome = q s.value s.cursor) :
    Reads.outcome (r >>= k) = Outcome.andThen r.outcome q := by
  cases r with
  | error e => rfl
  | ok s => exact h s rfl

/-- The bookkeeping around a step that closes a routine is no part of its outcome. -/
theorem outcome_bind_pure {r : Reads α n} {f : Step α n → Step α m}
    (h : ∀ s, (f s).value = s.value ∧ (f s).cursor = s.cursor) :
    Reads.outcome (r >>= fun s => pure (f s)) = r.outcome := by
  cases r with
  | error e => rfl
  | ok s =>
    obtain ⟨hvalue, hcursor⟩ := h s
    exact congrArg Except.ok (Prod.ext hvalue hcursor)

/-- What was read leaves fewer tokens. -/
theorem lt_of_outcome {r : Reads α n} {a : α} {c : Cursor} (h : r.outcome = .ok (a, c)) :
    c.left < n := by
  cases r with
  | error e => cases h
  | ok s =>
    cases h
    exact s.lt

theorem all_of_outcome {r : Reads α n} {P : α → Cursor → Prop} {a : α} {c : Cursor} (hr : r.All P)
    (h : r.outcome = .ok (a, c)) : P a c := by
  cases r with
  | error e => cases h
  | ok s =>
    cases h
    exact hr s rfl

theorem outcome_of_gives {r : Reads α n} {P : α → Prop} {rest : List Kind} (h : r.Gives P rest) :
    ∃ a c, r.outcome = .ok (a, c) := by
  obtain ⟨s, rfl, -⟩ := h
  exact ⟨s.value, s.cursor, rfl⟩

end

/-! ## Tokens and types -/

section

variable {t : Located} {l : List Located} {n : NodeId} {c : Cursor} {k : Kind} {name : String}

theorem take?_cons (ht : t.kind = k) :
    Cursor.take? k ⟨t :: l, n⟩ = some ⟨t.pos, ⟨l, n⟩, Nat.lt_succ_self _⟩ :=
  if_pos ht

theorem opt_cons {α : Type} {yes : Pos → Cursor → Outcome α} {no : Cursor → Outcome α}
    (ht : t.kind = k) : Cursor.opt k yes no ⟨t :: l, n⟩ = yes t.pos ⟨l, n⟩ := by
  rw [Cursor.opt, take?_cons ht]

theorem opt_of_ne {α : Type} {yes : Pos → Cursor → Outcome α} {no : Cursor → Outcome α}
    (h : c.kind ≠ k) : Cursor.opt k yes no c = no c := by
  rw [Cursor.opt, Cursor.take?_of_ne h]

/-- What is done with a token and without it, told apart by taking it. -/
theorem eq_opt {o : Outcome α} (hyes : ∀ s, c.take? k = some s → o = yes s.value s.cursor)
    (hno : c.take? k = none → o = no c) : o = c.opt k yes no := by
  unfold Cursor.opt
  cases h : c.take? k with
  | some s => exact hyes s h
  | none => exact hno h

theorem outcome_expect_cons (ht : t.kind = k) :
    (Cursor.expect k ⟨t :: l, n⟩).outcome = .ok (t.pos, ⟨l, n⟩) := by
  rw [Cursor.expect, take?_cons ht]
  rfl

theorem outcome_expect_of_ne (h : c.kind ≠ k) :
    (c.expect k).outcome = .error (c.expected (.token k)) := by
  rw [Cursor.expect, Cursor.take?_of_ne h]
  rfl

theorem tokens_of_expect {p : Pos} {c' : Cursor} (h : (c.expect k).outcome = .ok (p, c'))
    (hk : k ≠ .eof) : ∃ t, t.kind = k ∧ c = ⟨t :: c'.tokens, c'.next⟩ := by
  by_cases hc : c.kind = k
  · obtain ⟨_ | ⟨t, l⟩, next⟩ := c
    · exact absurd hc.symm hk
    · rw [outcome_expect_cons hc] at h
      cases h
      exact ⟨t, hc, rfl⟩
  · rw [outcome_expect_of_ne hc] at h
    cases h

theorem outcome_ident_cons (ht : t.kind = .ident name) :
    (Cursor.ident ⟨t :: l, n⟩).outcome = .ok ((name, t.pos), ⟨l, n⟩) := by
  obtain ⟨⟨kind, span⟩, pos⟩ := t
  obtain rfl : kind = .ident name := ht
  rfl

theorem outcome_ident_of_ne (h : ∀ name, c.kind ≠ .ident name) :
    c.ident.outcome = .error (c.expected .identifier) := by
  unfold Cursor.ident
  split
  next name _ _ _ _ => exact absurd rfl (h name)
  next => rfl

/-- The type that a token is by itself. -/
def TypeExpr.ofKind? : Kind → Option TypeExpr
  | .keyword .int => some .int
  | .keyword .boolean => some .bool
  | .ident name => some (.class_ name)
  | _ => none

theorem outcome_parseBaseType_cons {ty : TypeExpr} (ht : TypeExpr.ofKind? t.kind = some ty) :
    (parseBaseType ⟨t :: l, n⟩).outcome = .ok (ty, ⟨l, n⟩) := by
  obtain ⟨⟨kind, span⟩, pos⟩ := t
  change TypeExpr.ofKind? kind = some ty at ht
  unfold TypeExpr.ofKind? at ht
  split at ht
  next => cases ht; rfl
  next => cases ht; rfl
  next name => cases ht; rfl
  next => cases ht

theorem outcome_parseBaseType_of_none (h : TypeExpr.ofKind? c.kind = none) :
    (parseBaseType c).outcome = .error (c.expected .type) := by
  unfold parseBaseType
  split
  next t c₁ h₁ heq =>
    rw [Cursor.kind_of_take heq] at h
    split
    next hk => rw [hk] at h; cases h
    next hk => rw [hk] at h; cases h
    next name hk => rw [hk] at h; cases h
    next => rfl
  next => rfl

theorem outcome_parseType (c : Cursor) : (parseType c).outcome =
    Outcome.andThen (parseBaseType c).outcome fun ty c₁ =>
      .ok ((parseBrackets ty c₁).value, (parseBrackets ty c₁).cursor) :=
  outcome_bind fun _ => rfl

theorem outcome_parseVarDecl (c : Cursor) : (parseVarDecl c).outcome =
    Outcome.andThen (parseType c).outcome fun ty c₁ =>
      Outcome.andThen (Cursor.ident ⟨c₁.tokens, c₁.next + 1⟩).outcome fun r c₂ =>
        .ok (⟨c₁.next, ty, r.1, some r.2⟩, c₂) := by
  unfold parseVarDecl
  exact outcome_bind fun _ => outcome_bind fun _ => rfl

end

/-! ## Expressions -/

section

variable {t : Located} {l : List Located} {n : NodeId} {c : Cursor} {level : Nat} {lhs : Expr}

theorem outcome_parseBinary (level : Nat) (c : Cursor) : (parseBinary level c).outcome =
    Outcome.andThen (parseUnary c).outcome fun lhs c₁ => (parseOperators level lhs c₁).outcome := by
  rw [parseBinary]
  exact outcome_bind fun s => outcome_bind_pure fun _ => ⟨rfl, rfl⟩

/-- A right operand, and the operators behind it. -/
def operatorRest (level : Nat) (lhs : Expr) (op : BinaryOp) (pos : Pos) (c : Cursor) : Outcome Expr :=
  Outcome.andThen (parseBinary (op.level + 1) c).outcome fun rhs c₁ =>
    (parseOperators level (.binary ⟨c₁.next, some pos⟩ op lhs rhs) ⟨c₁.tokens, c₁.next + 1⟩).outcome

theorem outcome_parseOperators_cons {op : BinaryOp} (ht : BinaryOp.ofKind? level t.kind = some op) :
    (parseOperators level lhs ⟨t :: l, n⟩).outcome = operatorRest level lhs op t.pos ⟨l, n⟩ := by
  rw [parseOperators, Cursor.takeSome?]
  simp only [Cursor.take, ht, Option.map_some, Step.map]
  exact outcome_bind fun s => outcome_bind_pure fun _ => ⟨rfl, rfl⟩

theorem outcome_parseOperators_of_none (h : BinaryOp.ofKind? level c.kind = none) :
    (parseOperators level lhs c).outcome = .ok (lhs, c) := by
  rw [parseOperators, Cursor.takeSome?_of_none h]
  rfl

/-- An operand of an operator in front; the literal that only a minus makes fit is
taken with the minus. -/
def unaryRest (op : UnaryOp) (pos : Pos) (c : Cursor) : Outcome Expr :=
  if op = .minus ∧ c.kind = .integer leastMagnitude then
    Outcome.andThen (c.expect (.integer leastMagnitude)).outcome fun _ c₁ =>
      .ok (.int ⟨c₁.next, some pos⟩ Int32.minValue, ⟨c₁.tokens, c₁.next + 1⟩)
  else
    Outcome.andThen (parseBinary UnaryOp.level c).outcome fun operand c₁ =>
      .ok (.unary ⟨c₁.next, some pos⟩ op operand, ⟨c₁.tokens, c₁.next + 1⟩)

theorem outcome_parseUnary_cons {op : UnaryOp} (ht : UnaryOp.ofKind? t.kind = some op) :
    (parseUnary ⟨t :: l, n⟩).outcome = unaryRest op t.pos ⟨l, n⟩ := by
  rw [parseUnary, Cursor.takeSome?, unaryRest]
  simp only [Cursor.take, ht, Option.map_some, Step.map]
  by_cases hleast : op = .minus ∧ Cursor.kind ⟨l, n⟩ = .integer leastMagnitude
  · rw [if_pos hleast]
    obtain ⟨rfl, hkind⟩ := hleast
    cases l with
    | nil => cases hkind
    | cons u l =>
      have hu : u.kind = .integer leastMagnitude := hkind
      rw [take?_cons hu, outcome_expect_cons hu]
      rfl
  · have hnone : (if op = .minus then Cursor.take? (.integer leastMagnitude) ⟨l, n⟩ else none) = none := by
      split
      next hop => exact Cursor.take?_of_ne fun hkind => hleast ⟨hop, hkind⟩
      next => rfl
    rw [if_neg hleast, hnone]
    exact outcome_bind fun s => rfl

theorem outcome_parseUnary_of_none (h : UnaryOp.ofKind? c.kind = none) :
    (parseUnary c).outcome =
      Outcome.andThen (parseAtom c).outcome fun e c₁ => (parsePostfix e c₁).outcome := by
  rw [parseUnary_eq h, parseSuffixed]
  exact outcome_bind fun s => outcome_bind_pure fun _ => ⟨rfl, rfl⟩

/-- The tree of an atom that is one token. -/
def leaf? : Kind → Option (Mark → Expr)
  | .integer digits => (literal? digits).map fun value m => .int m value
  | .keyword .true_ => some (.bool · true)
  | .keyword .false_ => some (.bool · false)
  | .keyword .null => some .null
  | .keyword .this => some .this
  | _ => none

theorem outcome_parseAtom_leaf {e : Mark → Expr} (ht : leaf? t.kind = some e) :
    (parseAtom ⟨t :: l, n⟩).outcome = .ok (e ⟨n, some t.pos⟩, ⟨l, n + 1⟩) := by
  rw [parseAtom]
  dsimp only [Cursor.take]
  unfold leaf? at ht
  split at ht
  next digits hk =>
    obtain ⟨value, hvalue, rfl⟩ := Option.map_eq_some_iff.1 ht
    simp only [hk, hvalue]
    rfl
  next hk => cases ht; rw [hk]; rfl
  next hk => cases ht; rw [hk]; rfl
  next hk => cases ht; rw [hk]; rfl
  next hk => cases ht; rw [hk]; rfl
  next => cases ht

/-- A name with arguments behind it is a call. -/
def nameRest (name : String) (pos : Pos) (c : Cursor) : Outcome Expr :=
  if c.kind = .symbol .lparen then
    Outcome.andThen (parseArgs c).outcome fun args c₁ =>
      .ok (.call ⟨c₁.next, some pos⟩ name args, ⟨c₁.tokens, c₁.next + 1⟩)
  else .ok (.read ⟨c.next + 1, some pos⟩ (.var ⟨c.next, some pos⟩ name), ⟨c.tokens, c.next + 2⟩)

theorem outcome_parseAtom_name {name : String} (ht : t.kind = .ident name) :
    (parseAtom ⟨t :: l, n⟩).outcome = nameRest name t.pos ⟨l, n⟩ := by
  rw [parseAtom, nameRest]
  simp only [Cursor.take, ht]
  split
  next => exact outcome_bind fun s => rfl
  next => rfl

theorem outcome_parseClosed (close : Kind) (c : Cursor) : (parseClosed close c).outcome =
    Outcome.andThen (parseBinary 0 c).outcome fun e c₁ =>
      Outcome.andThen (c₁.expect close).outcome fun _ c₂ => .ok (e, c₂) :=
  outcome_bind fun _ => outcome_bind fun _ => rfl

theorem outcome_parseAtom_parens (ht : t.kind = .symbol .lparen) :
    (parseAtom ⟨t :: l, n⟩).outcome = (parseClosed (.symbol .rparen) ⟨l, n⟩).outcome := by
  rw [parseAtom, outcome_parseClosed]
  simp only [Cursor.take, ht]
  exact outcome_bind fun s => outcome_bind fun s => rfl

/-- A new object, behind its class and the parenthesis that opens. -/
def objectRest (class_ : String) (pos : Pos) (c : Cursor) : Outcome Expr :=
  Outcome.andThen (c.expect (.symbol .rparen)).outcome fun _ c₁ =>
    .ok (.newObject ⟨c₁.next, some pos⟩ class_, ⟨c₁.tokens, c₁.next + 1⟩)

/-- A new array, behind the type of its elements without brackets. -/
def arrayRest (base : TypeExpr) (pos : Pos) (c : Cursor) : Outcome Expr :=
  Outcome.andThen (c.expect (.symbol .lbracket)).outcome fun _ c₁ =>
    Outcome.andThen (parseClosed (.symbol .rbracket) c₁).outcome fun size c₂ =>
      Outcome.andThen (.ok ((parseBrackets base c₂).value, (parseBrackets base c₂).cursor))
        fun elem c₃ => .ok (.newArray ⟨c₃.next, some pos⟩ elem size, ⟨c₃.tokens, c₃.next + 1⟩)

/-- What is new is an object if a parenthesis stands behind its class, and an array
otherwise. -/
def newBody (pos : Pos) : TypeExpr → Cursor → Outcome Expr
  | .class_ name =>
    Cursor.opt (.symbol .lparen) (fun _ c => objectRest name pos c) (arrayRest (.class_ name) pos)
  | base => arrayRest base pos

/-- A new object or array. -/
def newRest (pos : Pos) (c : Cursor) : Outcome Expr :=
  Outcome.andThen (parseBaseType c).outcome (newBody pos)

theorem newBody_array {pos : Pos} {base : TypeExpr}
    (h : ∀ name, base = .class_ name → c.kind ≠ .symbol .lparen) :
    newBody pos base c = arrayRest base pos c := by
  cases base with
  | class_ name =>
    rw [newBody]
    exact opt_of_ne (h name rfl)
  | _ => rfl

theorem tokens_of_takeCallee? {s : Step String c.left} (h : c.takeCallee? = some s) :
    ∃ t u, c = ⟨t :: u :: s.cursor.tokens, s.cursor.next⟩ ∧ t.kind = .ident s.value ∧
      u.kind = .symbol .lparen := by
  unfold Cursor.takeCallee? at h
  split at h
  next => cases h; exact ⟨_, _, rfl, rfl, rfl⟩
  next => cases h

theorem outcome_parseAtom_new (ht : t.kind = .keyword .new) :
    (parseAtom ⟨t :: l, n⟩).outcome = newRest t.pos ⟨l, n⟩ := by
  rw [parseAtom]
  simp only [Cursor.take, ht]
  cases hcallee : Cursor.takeCallee? ⟨l, n⟩ with
  | some s =>
    obtain ⟨class_, c₂, h₂⟩ := s
    obtain ⟨u, v, hl, hu, hv⟩ := tokens_of_takeCallee? hcallee
    have hbase : TypeExpr.ofKind? u.kind = some (.class_ class_) := by rw [hu]; rfl
    have hnew : newRest t.pos ⟨l, n⟩ = objectRest class_ t.pos c₂ := by
      rw [newRest, hl, outcome_parseBaseType_cons hbase, Outcome.andThen, newBody]
      exact opt_cons hv
    rw [hnew]
    exact outcome_bind fun s => rfl
  | none =>
    refine outcome_bind_of fun s hs => ?_
    have hobject : ∀ name, s.value = .class_ name → s.cursor.kind ≠ .symbol .lparen := by
      intro name hname hkind
      obtain ⟨hbase, -⟩ := took_parseBaseType ⟨l, n⟩ s hs
      rw [hname] at hbase
      cases hrest : s.cursor.kinds with
      | nil => rw [Cursor.kind_eq, hrest] at hkind; cases hkind
      | cons k rest =>
        obtain rfl : k = .symbol .lparen := (Cursor.kind_of_kinds hrest).symm.trans hkind
        have hkinds : Cursor.kinds ⟨l, n⟩ = .ident name :: .symbol .lparen :: rest := by
          rw [show Cursor.kinds ⟨l, n⟩ = _ from hbase, hrest]
          rfl
        obtain ⟨s', hs', -⟩ := Cursor.takeCallee?_of_kinds hkinds
        cases hcallee.symm.trans hs'
    refine Eq.trans ?_ (newBody_array hobject).symm
    unfold arrayRest
    refine outcome_bind fun s => ?_
    rw [outcome_parseClosed, Outcome.andThen_assoc]
    refine outcome_bind fun s => ?_
    rw [Outcome.andThen_assoc]
    exact outcome_bind fun s => rfl

theorem outcome_parseAtom_of_none (h : startsAtom c.kind = false)
    (hint : ∀ digits, c.kind ≠ .integer digits) :
    (parseAtom c).outcome = .error (c.expected .expression) := by
  rw [parseAtom]
  split
  next => rfl
  next t c₁ h₁ heq =>
    rw [Cursor.kind_of_take heq] at h hint
    dsimp only at h hint
    split
    next digits hk => exact absurd hk (hint digits)
    next hk => rw [hk] at h; cases h
    next hk => rw [hk] at h; cases h
    next hk => rw [hk] at h; cases h
    next hk => rw [hk] at h; cases h
    next hk => rw [hk] at h; cases h
    next hk => rw [hk] at h; cases h
    next hk => rw [hk] at h; cases h
    next => rfl

theorem outcome_parseAtom_range {digits : String} (ht : c.kind = .integer digits)
    (h : literal? digits = none) :
    (parseAtom c).outcome = .error (c.fail (.literalOutOfRange digits)) := by
  rw [parseAtom]
  split
  next heq =>
    obtain ⟨_ | ⟨t, rest⟩, next⟩ := c
    · cases ht
    · cases heq
  next t c₁ h₁ heq =>
    rw [Cursor.kind_of_take heq] at ht
    dsimp only at ht
    simp only [ht, h]
    rfl

/-- How a token starts an atom, if it does. -/
theorem atom_cases (k : Kind) : (∃ e, leaf? k = some e) ∨ (∃ name, k = .ident name) ∨
    k = .symbol .lparen ∨ k = .keyword .new ∨
    (∃ digits, k = .integer digits ∧ literal? digits = none) ∨
    (startsAtom k = false ∧ ∀ digits, k ≠ .integer digits) := by
  cases k with
  | integer digits =>
    cases hvalue : literal? digits with
    | some value => exact .inl ⟨_, by rw [leaf?, hvalue]; rfl⟩
    | none => simp [hvalue]
  | keyword k => cases k <;> simp [leaf?, startsAtom]
  | symbol s => cases s <;> simp [startsAtom]
  | _ => simp [startsAtom]

/-- A member: arguments behind its name make it a call. -/
def memberRest (lhs : Expr) (name : String) (pos : Pos) (c : Cursor) : Outcome Expr :=
  if c.kind = .symbol .lparen then
    Outcome.andThen (parseArgs c).outcome fun args c₁ =>
      (parsePostfix (.methodCall ⟨c₁.next, some pos⟩ lhs name args) ⟨c₁.tokens, c₁.next + 1⟩).outcome
  else if name = "length" then
    (parsePostfix (.arrayLength ⟨c.next, some pos⟩ lhs) ⟨c.tokens, c.next + 1⟩).outcome
  else
    (parsePostfix (.read ⟨c.next + 1, some pos⟩ (.field ⟨c.next, some pos⟩ lhs name))
      ⟨c.tokens, c.next + 2⟩).outcome

/-- A member, behind the dot. -/
def dotRest (lhs : Expr) (c : Cursor) : Outcome Expr :=
  Outcome.andThen c.ident.outcome fun r c₁ => memberRest lhs r.1 r.2 c₁

theorem outcome_parsePostfix_dot (ht : t.kind = .symbol .dot) :
    (parsePostfix lhs ⟨t :: l, n⟩).outcome = dotRest lhs ⟨l, n⟩ := by
  rw [parsePostfix, take?_cons ht]
  refine outcome_bind fun s => ?_
  unfold memberRest
  dsimp only
  split
  next => exact outcome_bind fun s => outcome_bind_pure fun _ => ⟨rfl, rfl⟩
  next =>
    split
    next => exact outcome_bind_pure fun _ => ⟨rfl, rfl⟩
    next => exact outcome_bind_pure fun _ => ⟨rfl, rfl⟩

/-- An index, behind the bracket that opens. -/
def indexRest (lhs : Expr) (pos : Pos) (c : Cursor) : Outcome Expr :=
  Outcome.andThen (parseClosed (.symbol .rbracket) c).outcome fun index c₁ =>
    (parsePostfix (.read ⟨c₁.next + 1, some pos⟩ (.index ⟨c₁.next, some pos⟩ lhs index))
      ⟨c₁.tokens, c₁.next + 2⟩).outcome

theorem outcome_parsePostfix_index (ht : t.kind = .symbol .lbracket) :
    (parsePostfix lhs ⟨t :: l, n⟩).outcome = indexRest lhs t.pos ⟨l, n⟩ := by
  have hdot : Cursor.kind ⟨t :: l, n⟩ ≠ .symbol .dot := by
    show t.kind ≠ _
    rw [ht]
    decide
  rw [parsePostfix, Cursor.take?_of_ne hdot, take?_cons ht, indexRest, outcome_parseClosed,
    Outcome.andThen_assoc]
  refine outcome_bind fun s => ?_
  rw [Outcome.andThen_assoc]
  exact outcome_bind fun s => outcome_bind_pure fun _ => ⟨rfl, rfl⟩

theorem outcome_parsePostfix_of_ne (hdot : c.kind ≠ .symbol .dot)
    (hindex : c.kind ≠ .symbol .lbracket) : (parsePostfix lhs c).outcome = .ok (lhs, c) := by
  rw [parsePostfix, Cursor.take?_of_ne hdot]
  dsimp only
  rw [Cursor.take?_of_ne hindex]
  rfl

theorem outcome_parseArgs (c : Cursor) : (parseArgs c).outcome =
    Outcome.andThen (c.expect (.symbol .lparen)).outcome fun _ c₁ =>
      c₁.opt (.symbol .rparen) (fun _ c₂ => .ok ([], c₂)) fun c₁ => (parseArgList c₁).outcome := by
  rw [parseArgs]
  refine outcome_bind fun s => ?_
  dsimp only
  refine eq_opt (fun taken htaken => ?_) fun hnone => ?_
  · rw [htaken]
    rfl
  · rw [hnone]
    exact outcome_bind_pure fun _ => ⟨rfl, rfl⟩

theorem outcome_parseArgList (c : Cursor) : (parseArgList c).outcome =
    Outcome.andThen (parseBinary 0 c).outcome fun e c₁ =>
      c₁.opt (.symbol .comma)
        (fun _ c₂ => Outcome.andThen (parseArgList c₂).outcome fun rest c₃ => .ok (e :: rest, c₃))
        fun c₁ => Outcome.andThen (c₁.expect (.symbol .rparen)).outcome fun _ c₂ => .ok ([e], c₂) := by
  rw [parseArgList]
  refine outcome_bind fun s => ?_
  dsimp only
  refine eq_opt (fun taken htaken => ?_) fun hnone => ?_
  · rw [htaken]
    exact outcome_bind fun _ => rfl
  · rw [hnone]
    exact outcome_bind fun _ => rfl

end

/-! ## Statements -/

section

variable {t : Located} {l : List Located} {n : NodeId}

theorem outcome_parseCondition (c : Cursor) : (parseCondition c).outcome =
    Outcome.andThen (c.expect (.symbol .lparen)).outcome fun _ c₁ =>
      (parseClosed (.symbol .rparen) c₁).outcome :=
  outcome_bind fun _ => outcome_bind_pure fun _ => ⟨rfl, rfl⟩

/-- A declaration, up to its semicolon; its position is given last. -/
def declStmt (c : Cursor) : Outcome (Pos → Stmt) :=
  Outcome.andThen (parseVarDecl c).outcome fun var c₁ =>
    Outcome.andThen (c₁.expect (.symbol .semicolon)).outcome fun _ c₂ => .ok (fun p => .decl p var, c₂)

/-- An expression that is a statement, behind it. -/
def exprEnd (value : Expr) (c : Cursor) : Outcome (Pos → Stmt) :=
  Outcome.andThen (c.expect (.symbol .semicolon)).outcome fun _ c₁ => .ok (fun p => .expr p value, c₁)

/-- The value that a place is given, behind the sign. -/
def assignEnd (target : Place) (c : Cursor) : Outcome (Pos → Stmt) :=
  Outcome.andThen (parseTerminated c).outcome fun value c₁ => .ok (fun p => .assign p target value, c₁)

/-- An assignment or an expression, behind what is a target perhaps. -/
def assignRest (lhs : Expr) (c : Cursor) : Outcome (Pos → Stmt) :=
  match lhs with
  | .read _ target => c.opt (.symbol .assign) (fun _ c₁ => assignEnd target c₁) (exprEnd lhs)
  | _ => if c.kind = .symbol .assign then .error (c.fail .notAssignable) else exprEnd lhs c

theorem assignRest_of_ne {lhs : Expr} (h : ∀ m target, lhs ≠ .read m target) (c : Cursor) :
    assignRest lhs c =
      if c.kind = .symbol .assign then .error (c.fail .notAssignable) else exprEnd lhs c := by
  cases lhs with
  | read m target => exact absurd rfl (h m target)
  | _ => rfl

/-- An assignment or an expression, up to its semicolon; its position is given
last. -/
def exprStmt (c : Cursor) : Outcome (Pos → Stmt) :=
  Outcome.andThen (parseBinary 0 c).outcome assignRest

/-- The position of the first token is put in. -/
def placed {α : Type} (f : Cursor → Outcome (Pos → α)) (c : Cursor) : Outcome α :=
  Outcome.andThen (f c) fun g c₁ => .ok (g c.pos, c₁)

theorem outcome_parseSimple_decl {c : Cursor} (h : c.startsDecl = true) :
    (parseSimple c).outcome = placed declStmt c := by
  unfold parseSimple placed declStmt
  rw [if_pos h, Outcome.andThen_assoc]
  refine outcome_bind fun s => ?_
  rw [Outcome.andThen_assoc]
  exact outcome_bind fun _ => rfl

theorem outcome_parseSimple_expr {c : Cursor} (h : c.startsDecl ≠ true) :
    (parseSimple c).outcome = placed exprStmt c := by
  unfold parseSimple placed exprStmt parseExpr
  rw [if_neg h, Outcome.andThen_assoc]
  refine outcome_bind fun ⟨lhs, c₁, h₁⟩ => ?_
  unfold assignRest assignEnd exprEnd Cursor.opt
  dsimp only
  split
  next pos c₂ h₂ heq =>
    have hassign : c₁.kind = .symbol .assign := by
      rw [Cursor.kind_eq, show c₁.kinds = _ from Cursor.took_take? heq]
      rfl
    cases lhs with
    | read m target =>
      dsimp only
      rw [heq, Outcome.andThen_assoc]
      exact outcome_bind fun _ => rfl
    | _ =>
      dsimp only
      rw [if_pos hassign]
      rfl
  next heq =>
    have hassign : c₁.kind ≠ .symbol .assign := Cursor.kind_of_take?_none heq (by decide)
    cases lhs with
    | read m target =>
      dsimp only
      rw [heq, Outcome.andThen_assoc]
      exact outcome_bind fun _ => rfl
    | _ =>
      dsimp only
      rw [if_neg hassign, Outcome.andThen_assoc]
      exact outcome_bind fun _ => rfl

theorem outcome_parseBlock (c : Cursor) : (parseBlock c).outcome =
    Outcome.andThen (c.expect (.symbol .lbrace)).outcome fun pos c₁ =>
      Outcome.andThen (parseStmts c₁).outcome fun stmts c₂ => .ok (.mk stmts pos, c₂) := by
  rw [parseBlock]
  exact outcome_bind fun _ => outcome_bind fun _ => rfl

/-- The statement in a block, behind its brace. -/
theorem outcome_parseStmt_block (ht : t.kind = .symbol .lbrace) :
    (parseStmt ⟨t :: l, n⟩).outcome =
      Outcome.andThen (parseStmts ⟨l, n⟩).outcome fun stmts c₁ =>
        .ok (.block t.pos (.mk stmts t.pos), c₁) := by
  rw [parseStmt]
  simp only [Cursor.take, ht]
  refine (outcome_bind (q := fun body c₁ => .ok (.block t.pos body, c₁)) fun _ => rfl).trans ?_
  rw [outcome_parseBlock, outcome_expect_cons ht]
  exact Outcome.andThen_assoc (parseStmts ⟨l, n⟩).outcome _ _

/-- What follows a condition and the statement that it decides about. -/
def elseRest (pos : Pos) (cond : Expr) (yes : Stmt) (c : Cursor) : Outcome Stmt :=
  c.opt (.keyword .else_)
    (fun _ c₁ => Outcome.andThen (parseStmt c₁).outcome fun no c₂ => .ok (.ifElse pos cond yes no, c₂))
    fun c => .ok (.ifThen pos cond yes, c)

theorem outcome_parseStmt_if (ht : t.kind = .keyword .if_) :
    (parseStmt ⟨t :: l, n⟩).outcome =
      Outcome.andThen (parseCondition ⟨l, n⟩).outcome fun cond c₁ =>
        Outcome.andThen (parseStmt c₁).outcome fun yes c₂ => elseRest t.pos cond yes c₂ := by
  rw [parseStmt]
  simp only [Cursor.take, ht]
  refine outcome_bind fun _ => outcome_bind fun s => ?_
  unfold elseRest
  refine eq_opt (fun taken htaken => ?_) fun hnone => ?_
  · rw [htaken]
    exact outcome_bind fun _ => rfl
  · rw [hnone]
    rfl

theorem outcome_parseStmt_while (ht : t.kind = .keyword .while_) :
    (parseStmt ⟨t :: l, n⟩).outcome =
      Outcome.andThen (parseCondition ⟨l, n⟩).outcome fun cond c₁ =>
        Outcome.andThen (parseStmt c₁).outcome fun body c₂ => .ok (.loop t.pos cond body, c₂) := by
  rw [parseStmt]
  simp only [Cursor.take, ht]
  exact outcome_bind fun _ => outcome_bind fun _ => rfl

theorem outcome_parseStmt_return (ht : t.kind = .keyword .return_) :
    (parseStmt ⟨t :: l, n⟩).outcome =
      Outcome.andThen (parseTerminated ⟨l, n⟩).outcome fun value c₁ => .ok (.ret t.pos value, c₁) := by
  rw [parseStmt]
  simp only [Cursor.take, ht]
  exact outcome_bind fun _ => rfl

/-- The kinds that start a statement that is no declaration, assignment or
expression. -/
def startsCompound : Kind → Bool
  | .symbol .lbrace | .keyword .if_ | .keyword .while_ | .keyword .return_ => true
  | _ => false

theorem stmt_cases (k : Kind) : k = .symbol .lbrace ∨ k = .keyword .if_ ∨ k = .keyword .while_ ∨
    k = .keyword .return_ ∨ startsCompound k = false := by
  cases k with
  | symbol s => cases s <;> simp [startsCompound]
  | keyword k => cases k <;> simp [startsCompound]
  | _ => simp [startsCompound]

theorem outcome_parseStmt_simple {c : Cursor} (h : startsCompound c.kind = false) :
    (parseStmt c).outcome = (parseSimple c).outcome := by
  rw [parseStmt]
  split
  next => rfl
  next t c₁ h₁ heq =>
    rw [Cursor.kind_of_take heq] at h
    dsimp only at h
    split
    next hk => rw [hk] at h; cases h
    next hk => rw [hk] at h; cases h
    next hk => rw [hk] at h; cases h
    next hk => rw [hk] at h; cases h
    next => rfl

theorem outcome_parseStmts_rbrace (ht : t.kind = .symbol .rbrace) :
    (parseStmts ⟨t :: l, n⟩).outcome = .ok ([], ⟨l, n⟩) := by
  rw [parseStmts, take?_cons ht]
  rfl

theorem outcome_parseStmts_eof {c : Cursor} (h : c.kind = .eof) :
    (parseStmts c).outcome = .error (c.expected .blockEnd) := by
  rw [parseStmts, Cursor.take?_of_ne (by rw [h]; decide)]
  simp only [h, if_true]
  rfl

theorem outcome_parseStmts {c : Cursor} (hrbrace : c.kind ≠ .symbol .rbrace) (heof : c.kind ≠ .eof) :
    (parseStmts c).outcome = Outcome.andThen (parseStmt c).outcome fun s c₁ =>
      Outcome.andThen (parseStmts c₁).outcome fun rest c₂ => .ok (s :: rest, c₂) := by
  rw [parseStmts, Cursor.take?_of_ne hrbrace]
  dsimp only
  rw [if_neg heof]
  exact outcome_bind fun _ => outcome_bind fun _ => rfl

end

/-! ## Declarations -/

section

variable {t : Located} {l : List Located} {n : NodeId}

theorem outcome_parseParamList (c : Cursor) : (parseParamList c).outcome =
    Outcome.andThen (parseVarDecl c).outcome fun param c₁ =>
      c₁.opt (.symbol .comma)
        (fun _ c₂ => Outcome.andThen (parseParamList c₂).outcome fun rest c₃ =>
          .ok (param :: rest, c₃))
        fun c₁ => Outcome.andThen (c₁.expect (.symbol .rparen)).outcome fun _ c₂ =>
          .ok ([param], c₂) := by
  rw [parseParamList]
  refine outcome_bind fun s => ?_
  dsimp only
  refine eq_opt (fun taken htaken => ?_) fun hnone => ?_
  · rw [htaken]
    exact outcome_bind fun _ => rfl
  · rw [hnone]
    exact outcome_bind fun _ => rfl

theorem outcome_parseParams (c : Cursor) : (parseParams c).outcome =
    Outcome.andThen (c.expect (.symbol .lparen)).outcome fun _ c₁ =>
      c₁.opt (.symbol .rparen) (fun _ c₂ => .ok ([], c₂)) fun c₁ => (parseParamList c₁).outcome := by
  unfold parseParams
  refine outcome_bind fun s => ?_
  dsimp only
  refine eq_opt (fun taken htaken => ?_) fun hnone => ?_
  · rw [htaken]
    rfl
  · rw [hnone]
    exact outcome_bind_pure fun _ => ⟨rfl, rfl⟩

theorem outcome_parseFunctionRest (heading : VarDecl) (c : Cursor) :
    (parseFunctionRest heading c).outcome =
      Outcome.andThen (parseParams c).outcome fun params c₁ =>
        Outcome.andThen (parseBlock c₁).outcome fun body c₂ =>
          .ok (⟨heading.id, heading.ty, heading.name, params, body, heading.pos⟩, c₂) :=
  outcome_bind fun _ => outcome_bind fun _ => rfl

theorem outcome_parseFunction (c : Cursor) : (parseFunction c).outcome =
    Outcome.andThen (parseVarDecl c).outcome fun heading c₁ =>
      (parseFunctionRest heading c₁).outcome :=
  outcome_bind fun _ => outcome_bind_pure fun _ => ⟨rfl, rfl⟩

/-- A member, behind its type and its name. -/
def classMemberRest (heading : VarDecl) (c : Cursor) : Outcome Member :=
  if c.kind = .symbol .lparen then
    Outcome.andThen (parseFunctionRest heading c).outcome fun f c₁ => .ok (.method f, c₁)
  else Outcome.andThen (c.expect (.symbol .semicolon)).outcome fun _ c₁ => .ok (.field heading, c₁)

theorem outcome_parseMember (c : Cursor) : (parseMember c).outcome =
    Outcome.andThen (parseVarDecl c).outcome classMemberRest := by
  unfold parseMember
  refine outcome_bind fun s => ?_
  unfold classMemberRest
  dsimp only
  split
  next => exact outcome_bind fun _ => rfl
  next => exact outcome_bind fun _ => rfl

theorem outcome_parseMembers_rbrace (ht : t.kind = .symbol .rbrace) :
    (parseMembers ⟨t :: l, n⟩).outcome = .ok ([], ⟨l, n⟩) := by
  rw [parseMembers, take?_cons ht]
  rfl

theorem outcome_parseMembers_eof {c : Cursor} (h : c.kind = .eof) :
    (parseMembers c).outcome = .error (c.expected .classEnd) := by
  rw [parseMembers, Cursor.take?_of_ne (by rw [h]; decide)]
  simp only [h, if_true]
  rfl

theorem outcome_parseMembers {c : Cursor} (hrbrace : c.kind ≠ .symbol .rbrace) (heof : c.kind ≠ .eof) :
    (parseMembers c).outcome = Outcome.andThen (parseMember c).outcome fun m c₁ =>
      Outcome.andThen (parseMembers c₁).outcome fun rest c₂ => .ok (m :: rest, c₂) := by
  rw [parseMembers, Cursor.take?_of_ne hrbrace]
  dsimp only
  rw [if_neg heof]
  exact outcome_bind fun _ => outcome_bind fun _ => rfl

theorem outcome_parseExtends (c : Cursor) : (parseExtends c).outcome =
    c.opt (.keyword .extends_)
      (fun _ c₁ => Outcome.andThen c₁.ident.outcome fun r c₂ => .ok (some r.1, c₂))
      fun c => .ok (none, c) := by
  unfold parseExtends
  refine eq_opt (fun taken htaken => ?_) fun hnone => ?_
  · rw [htaken]
    exact outcome_bind fun _ => rfl
  · rw [hnone]
    rfl

/-- A class, behind its name. -/
def classRest (id : NodeId) (name : String) (pos : Pos) (c : Cursor) : Outcome ClassDecl :=
  Outcome.andThen (parseExtends c).outcome fun super? c₁ =>
    Outcome.andThen (c₁.expect (.symbol .lbrace)).outcome fun _ c₂ =>
      Outcome.andThen (parseMembers c₂).outcome fun ms c₃ =>
        .ok (⟨id, name, super?, ms.filterMap Member.field?, ms.filterMap Member.method?, pos⟩, c₃)

theorem outcome_parseClass (c : Cursor) : (parseClass c).outcome =
    Outcome.andThen (c.expect (.keyword .class_)).outcome fun _ c₁ =>
      Outcome.andThen (Cursor.ident ⟨c₁.tokens, c₁.next + 1⟩).outcome fun r c₂ =>
        classRest c₁.next r.1 r.2 c₂ :=
  outcome_bind fun _ => outcome_bind fun _ => outcome_bind fun _ => outcome_bind fun _ =>
    outcome_bind fun _ => rfl

theorem outcome_parseItem_class {c : Cursor} (h : c.kind = .keyword .class_) :
    (parseItem c).outcome = Outcome.andThen (parseClass c).outcome fun decl c₁ =>
      .ok (.class_ decl, c₁) := by
  unfold parseItem
  rw [if_pos h]
  exact outcome_bind fun _ => rfl

theorem outcome_parseItem_function {c : Cursor} (h : c.kind ≠ .keyword .class_) :
    (parseItem c).outcome = Outcome.andThen (parseFunction c).outcome fun decl c₁ =>
      .ok (.function decl, c₁) := by
  unfold parseItem
  rw [if_neg h]
  exact outcome_bind fun _ => rfl

theorem parseItems_eof {c : Cursor} (h : c.kind = .eof) : parseItems c = ([], none) := by
  rw [parseItems, if_pos h]

theorem parseItems_of_error {c : Cursor} {e : ParseError} (h : c.kind ≠ .eof)
    (he : (parseItem c).outcome = .error e) : parseItems c = ([], some e) := by
  rw [parseItems, if_neg h]
  cases hitem : parseItem c with
  | error e' =>
    rw [hitem] at he
    cases he
    rfl
  | ok s =>
    rw [hitem] at he
    cases he

theorem parseItems_of_ok {c c₁ : Cursor} {item : Item} (h : c.kind ≠ .eof)
    (hitem : (parseItem c).outcome = .ok (item, c₁)) :
    parseItems c = (item :: (parseItems c₁).1, (parseItems c₁).2) := by
  rw [parseItems, if_neg h]
  cases hread : parseItem c with
  | error e =>
    rw [hread] at hitem
    cases hitem
  | ok s =>
    rw [hread] at hitem
    cases hitem
    rfl

end

end ClassLang.Source
