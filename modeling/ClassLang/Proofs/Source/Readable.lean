import ClassLang.Proofs.Source.Bare
import ClassLang.Proofs.Source.Lookahead
import ClassLang.Proofs.Source.Recognition
/-!
# Source — phrases are read

Where the tokens of a phrase are left, followed by some that do not go on with
it, the routine for it succeeds, takes just these tokens and makes the tree of
the phrase of them, up to identities and positions (`gives_parseExpr`,
`gives_parseStmt`, `gives_parseItem`). The loops behind an operand and behind
an atom are entered with every tree that the tokens so far stand for
(`Reads.Enters`).
-/


namespace ClassLang.Source

open Token (Kind)

/-! ## What is read next -/

/-- The routine succeeds with a value of the property and leaves these tokens. -/
def Reads.Gives {α : Type} {n : Nat} (r : Reads α n) (P : α → Prop) (rest : List Kind) : Prop :=
  ∃ s : Step α n, r = .ok s ∧ P s.value ∧ s.cursor.kinds = rest

namespace Reads.Gives

variable {α β : Type} {m n : Nat} {P : α → Prop} {Q : β → Prop} {rest mid : List Kind}

theorem pure {s : Step α n} (hP : P s.value) (hrest : s.cursor.kinds = rest) :
    Gives (pure s : Reads α n) P rest :=
  ⟨s, rfl, hP, hrest⟩

/-- **Reading in turn.** -/
theorem bind {r : Reads α n} {k : Step α n → Reads β m} (hr : Gives r P mid)
    (hk : ∀ s : Step α n, P s.value → s.cursor.kinds = mid → Gives (k s) Q rest) :
    Gives (r >>= k) Q rest := by
  obtain ⟨s, rfl, hP, hmid⟩ := hr
  exact hk s hP hmid

end Reads.Gives

/-- The routine goes on with the loop `k`, from a value of the property and
with these tokens left. -/
def Reads.Enters {α : Type} {n : Nat} (r : Reads α n)
    (k : α → (c : Cursor) → Reads α (c.left + 1)) (P : α → Prop) (rest : List Kind) : Prop :=
  ∃ a c, ∃ h : c.left < n, P a ∧ c.kinds = rest ∧ r = k a c >>= fun t => pure (t.within h)

namespace Reads.Enters

variable {α β : Type} {m n : Nat} {k : α → (c : Cursor) → Reads α (c.left + 1)}
variable {P Q : α → Prop} {rest mid : List Kind} {r : Reads α n}

/-- A routine that hands its value to the loop enters it. -/
theorem of_gives (hr : r.Gives P rest) :
    Enters (r >>= fun s => k s.value s.cursor >>= fun t => Pure.pure (t.within s.lt)) k P rest := by
  obtain ⟨s, rfl, hP, hrest⟩ := hr
  exact ⟨s.value, s.cursor, s.lt, hP, hrest, rfl⟩

/-- What is read before the loop is entered. -/
theorem bind {Q : β → Prop} {r : Reads β m} {f : Step β m → Reads α n} (hr : r.Gives Q mid)
    (hf : ∀ s : Step β m, Q s.value → s.cursor.kinds = mid → (f s).Enters k P rest) :
    Enters (r >>= f) k P rest := by
  obtain ⟨s, rfl, hQ, hmid⟩ := hr
  exact hf s hQ hmid

/-- A round of the loop leads to the next one. -/
theorem trans (hr : r.Enters k P mid)
    (hk : ∀ a (c : Cursor), P a → c.kinds = mid → (k a c).Enters k Q rest) :
    r.Enters k Q rest := by
  obtain ⟨a, c, h, hP, hmid, rfl⟩ := hr
  obtain ⟨a', c', h', hQ, hrest, heq⟩ := hk a c hP hmid
  refine ⟨a', c', Nat.lt_of_le_of_lt (Nat.le_of_lt_succ h') h, hQ, hrest, ?_⟩
  rw [heq, bind_assoc]
  rfl

/-- A loop that is over gives the value. -/
theorem gives (hr : r.Enters k P rest)
    (hk : ∀ a (c : Cursor), c.kinds = rest → k a c = .ok (c.stay a)) : r.Gives P rest := by
  obtain ⟨a, c, h, hP, hrest, rfl⟩ := hr
  rw [hk a c hrest]
  exact ⟨_, rfl, hP, hrest⟩

end Reads.Enters

namespace Cursor

variable {c : Cursor} {k : Kind} {rest : List Kind}

theorem kind_of_kinds (h : c.kinds = k :: rest) : c.kind = k := by
  rw [kind_eq, h]
  rfl

theorem take_of_kinds (h : c.kinds = k :: rest) :
    ∃ s, c.take = some s ∧ s.value.kind = k ∧ s.cursor.kinds = rest := by
  obtain ⟨tokens, next⟩ := c
  cases tokens with
  | nil => cases h
  | cons t tail =>
    obtain ⟨hk, hrest⟩ := List.cons.inj h
    exact ⟨⟨t, ⟨tail, next⟩, Nat.lt_succ_self _⟩, rfl, hk, hrest⟩

theorem take?_of_kinds (h : c.kinds = k :: rest) :
    ∃ s, c.take? k = some s ∧ s.cursor.kinds = rest := by
  obtain ⟨s, hs, hk, hrest⟩ := take_of_kinds h
  exact ⟨s.map (·.pos), by rw [take?, hs]; exact if_pos hk, hrest⟩

theorem take?_of_ne (h : c.kind ≠ k) : c.take? k = none := by
  cases ht : c.take with
  | none => rw [take?, ht]
  | some s =>
    rw [take?, ht]
    exact if_neg fun heq => h ((kind_of_take ht).trans heq)

theorem takeSome?_of_kinds {α : Type} {f : Kind → Option α} {a : α} (h : c.kinds = k :: rest)
    (ha : f k = some a) : ∃ pos c₁ h₁, c.takeSome? f = some ⟨(a, pos), c₁, h₁⟩ ∧ c₁.kinds = rest := by
  obtain ⟨⟨t, c₁, h₁⟩, hs, hk, hrest⟩ := take_of_kinds h
  refine ⟨t.pos, c₁, h₁, ?_, hrest⟩
  rw [takeSome?, hs]
  dsimp only at hk ⊢
  rw [hk, ha]
  rfl

theorem takeSome?_of_none {α : Type} {f : Kind → Option α} (h : f c.kind = none) :
    c.takeSome? f = none := by
  cases ht : c.take with
  | none => rw [takeSome?, ht]
  | some s =>
    rw [takeSome?, ht]
    dsimp only
    rw [← kind_of_take ht, h]
    rfl

theorem gives_expect (h : c.kinds = k :: rest) : (c.expect k).Gives (fun _ => True) rest := by
  obtain ⟨s, hs, hrest⟩ := take?_of_kinds h
  exact ⟨s, by rw [expect, hs], trivial, hrest⟩

theorem gives_ident {name : String} (h : c.kinds = .ident name :: rest) :
    c.ident.Gives (·.1 = name) rest := by
  obtain ⟨tokens, next⟩ := c
  cases tokens with
  | nil => cases h
  | cons t tail =>
    obtain ⟨⟨kind, span⟩, pos⟩ := t
    obtain ⟨hk, hrest⟩ := List.cons.inj h
    have hk : kind = .ident name := hk
    subst hk
    exact ⟨⟨(name, pos), ⟨tail, next⟩, Nat.lt_succ_self _⟩, rfl, rfl, hrest⟩

theorem takeCallee?_of_kinds {name : String}
    (h : c.kinds = .ident name :: .symbol .lparen :: rest) :
    ∃ s, c.takeCallee? = some s ∧ s.value = name ∧ s.cursor.kinds = rest := by
  obtain ⟨tokens, next⟩ := c
  match tokens, h with
  | ⟨⟨kind, span⟩, pos⟩ :: ⟨⟨kind', span'⟩, pos'⟩ :: tail, h =>
    obtain ⟨hk, htail⟩ := List.cons.inj h
    obtain ⟨hk', hrest⟩ := List.cons.inj htail
    have hk : kind = .ident name := hk
    have hk' : kind' = .symbol .lparen := hk'
    subst hk hk'
    exact ⟨⟨name, ⟨tail, next⟩, _⟩, rfl, rfl, hrest⟩

theorem takeCallee?_of_ne {k' : Kind} (h : c.kinds = k :: k' :: rest) (hne : k' ≠ .symbol .lparen) :
    c.takeCallee? = none := by
  cases hs : c.takeCallee? with
  | none => rfl
  | some s =>
    have htook : c.kinds = [.ident s.value, .symbol .lparen] ++ s.cursor.kinds := took_takeCallee? hs
    rw [h] at htook
    exact absurd (List.cons.inj (List.cons.inj htook).2).1 hne

/-- The lookahead for declarations sees the kinds of the tokens only. -/
theorem startsDecl_eq (c : Cursor) : c.startsDecl = declHead c.kinds := by
  obtain ⟨tokens, next⟩ := c
  unfold startsDecl declHead kind₁ kind₂ kinds
  rcases tokens with _ | ⟨t, _ | ⟨u, _ | ⟨v, tail⟩⟩⟩ <;>
    simp only [kind, List.drop, List.map]
  · split <;> split <;> grind
  · split <;> split <;> grind
  · split <;> split <;> grind

end Cursor

/-! ## Types and variables -/

theorem bracketPairs_of_kinds {rest : List Kind} (hrest : NoBrackets rest) (n : Nat) (ty : TypeExpr)
    {ts : List Located} (h : ts.map (·.kind) = brackets n ++ rest) :
    (bracketPairs ty ts).1 = .arrays n ty ∧ (bracketPairs ty ts).2.map (·.kind) = rest := by
  induction n generalizing ty ts with
  | zero =>
    rw [brackets, List.nil_append] at h
    unfold bracketPairs
    split
    next t u tail =>
      rw [if_neg fun hpair => hrest (tail.map (·.kind)) ?_]
      · exact ⟨rfl, h⟩
      · rw [← h, List.map_cons, List.map_cons, hpair.1, hpair.2]
    next => exact ⟨rfl, h⟩
  | succ n ih =>
    rcases ts with _ | ⟨t, _ | ⟨u, tail⟩⟩
    · simp [brackets] at h
    · simp [brackets] at h
    · obtain ⟨ht, h⟩ := List.cons.inj h
      obtain ⟨hu, h⟩ := List.cons.inj h
      rw [bracketPairs, if_pos ⟨ht, hu⟩, TypeExpr.arrays, ← TypeExpr.arrays_array]
      exact ih (.array ty) h

theorem gives_parseBaseType {c : Cursor} {ty : TypeExpr} {rest : List Kind}
    (hty : ty.pairs = []) (h : c.kinds = ty.base :: rest) : (parseBaseType c).Gives (· = ty) rest := by
  obtain ⟨s, hs, hk, hrest⟩ := Cursor.take_of_kinds h
  rw [parseBaseType, hs]
  dsimp only
  rw [hk]
  cases ty with
  | int | bool | class_ name => exact ⟨_, rfl, rfl, hrest⟩
  | array elem => cases hty

/-- Bracket pairs and a base type in front of them make the type. -/
theorem parseBrackets_of_kinds {c : Cursor} {n : Nat} {elem : TypeExpr} {rest : List Kind}
    (hrest : NoBrackets rest) (h : c.kinds = brackets n ++ rest) :
    (parseBrackets elem c).value = .arrays n elem ∧ (parseBrackets elem c).cursor.kinds = rest :=
  bracketPairs_of_kinds hrest n elem h

theorem gives_parseType {c : Cursor} {ty : TypeExpr} {rest : List Kind} (hrest : NoBrackets rest)
    (h : c.kinds = ty.kinds ++ rest) : (parseType c).Gives (· = ty) rest := by
  obtain ⟨n, elem, hpairs, rfl⟩ := ty.exists_arrays
  rw [TypeExpr.kinds, TypeExpr.base_arrays, TypeExpr.pairs_arrays, hpairs, List.append_nil] at h
  unfold parseType
  refine (gives_parseBaseType hpairs h).bind ?_
  rintro ⟨base, c₁, h₁⟩ hbase hc₁
  obtain rfl : base = elem := hbase
  obtain ⟨hty, hc₂⟩ := parseBrackets_of_kinds hrest hc₁
  exact .pure hty hc₂

theorem gives_parseVarDecl {c : Cursor} {var : VarDecl} {rest : List Kind}
    (h : c.kinds = var.kinds ++ rest) : (parseVarDecl c).Gives (·.bare = var.bare) rest := by
  rw [VarDecl.kinds, List.append_assoc] at h
  unfold parseVarDecl
  refine (gives_parseType (.of_head (by simp)) h).bind ?_
  rintro ⟨ty, c₁, h₁⟩ hty hc₁
  have hname : Cursor.ident ⟨c₁.tokens, c₁.next + 1⟩ |>.Gives (·.1 = var.name) rest :=
    Cursor.gives_ident hc₁
  refine hname.bind ?_
  rintro ⟨⟨name, pos⟩, c₂, h₂⟩ hname hc₂
  refine .pure ?_ hc₂
  have hty : ty = var.ty := hty
  have hname : name = var.name := hname
  subst hty hname
  rfl

/-! ## What ends an expression -/

/-- The tokens do not go on with an atom before them. -/
structure Detached (rest : List Kind) : Prop where
  noArgs : rest.headD .eof ≠ .symbol .lparen
  noBrackets : NoBrackets rest

/-- The tokens do not go on with an operand before them. -/
structure Apart (rest : List Kind) : Prop where
  noArgs : rest.headD .eof ≠ .symbol .lparen
  noMember : rest.headD .eof ≠ .symbol .dot
  noIndex : rest.headD .eof ≠ .symbol .lbracket

theorem Apart.detached {rest : List Kind} (h : Apart rest) : Detached rest :=
  ⟨h.noArgs, .of_head h.noIndex⟩

/-- The tokens do not go on with an expression before them, with an operator
that binds as tightly as the level asks for. -/
structure Ends (level : Nat) (rest : List Kind) : Prop extends Apart rest where
  noOperator : BinaryOp.ofKind? level (rest.headD .eof) = none

theorem ofKind?_mono {level level' : Nat} (hle : level ≤ level') {k : Kind}
    (h : BinaryOp.ofKind? level k = none) : BinaryOp.ofKind? level' k = none := by
  cases hop : BinaryOp.ofKind? level' k with
  | none => rfl
  | some op =>
    obtain ⟨rfl, hlevel⟩ := kind_of_ofKind? hop
    rw [ofKind?_symbol (Nat.le_trans hle hlevel)] at h
    cases h

theorem Ends.mono {level level' : Nat} {rest : List Kind} (h : Ends level rest)
    (hle : level ≤ level') : Ends level' rest :=
  ⟨h.toApart, ofKind?_mono hle h.noOperator⟩

/-- An operator ends an operand that has to bind more tightly. -/
theorem ends_operator {level : Nat} {op : BinaryOp} (hlt : op.level < level) (rest : List Kind) :
    Ends level (.symbol op.symbol :: rest) := by
  refine ⟨by cases op <;> exact ⟨nofun, nofun, nofun⟩, ?_⟩
  cases hop : BinaryOp.ofKind? level (.symbol op.symbol) with
  | none => exact hop
  | some op' =>
    obtain ⟨hsymbol, hlevel⟩ := kind_of_ofKind? hop
    have heq : op = op' := by
      rw [← Option.some_inj, ← ofSymbol?_symbol op, Kind.symbol.inj hsymbol, ofSymbol?_symbol]
    subst heq
    omega

/-- The symbols that end every expression. -/
theorem ends_symbol {s : Symbol} (hs : s ∈ [.rparen, .rbracket, .comma, .semicolon, .assign])
    (level : Nat) (rest : List Kind) : Ends level (.symbol s :: rest) := by
  have hnone : BinaryOp.ofSymbol? s = none := by
    revert hs
    cases s <;> decide
  refine ⟨⟨?_, ?_, ?_⟩, ?_⟩
  · rintro ⟨⟩; simp at hs
  · rintro ⟨⟩; simp at hs
  · rintro ⟨⟩; simp at hs
  · show (BinaryOp.ofSymbol? s).filter _ = none
    rw [hnone]
    rfl

/-! ## Loops of expressions -/

/-- An atom and what follows it. -/
def parseSuffixed (c : Cursor) : Reads Expr c.left :=
  parseAtom c >>= fun s => parsePostfix s.value s.cursor >>= fun t => pure (t.within s.lt)

theorem parseUnary_eq {c : Cursor} (h : UnaryOp.ofKind? c.kind = none) :
    parseUnary c = parseSuffixed c := by
  rw [parseUnary, Cursor.takeSome?_of_none h]
  rfl

section Loops

variable {c : Cursor} {lhs : Expr} {level : Nat} {rest : List Kind} {P : Expr → Prop}

theorem parsePostfix_of_apart (h : Apart c.kinds) : parsePostfix lhs c = .ok (c.stay lhs) := by
  have hdot : c.kind ≠ .symbol .dot := c.kind_eq ▸ h.noMember
  have hbracket : c.kind ≠ .symbol .lbracket := c.kind_eq ▸ h.noIndex
  rw [parsePostfix, Cursor.take?_of_ne hdot]
  dsimp only
  rw [Cursor.take?_of_ne hbracket]
  rfl

theorem parseOperators_of_ends (h : Ends level c.kinds) :
    parseOperators level lhs c = .ok (c.stay lhs) := by
  have hop : BinaryOp.ofKind? level c.kind = none := c.kind_eq ▸ h.noOperator
  rw [parseOperators, Cursor.takeSome?_of_none hop]
  rfl

/-- **The loop over operators is over** where the expression ends. -/
theorem gives_of_operators (h : (parseBinary level c).Enters (parseOperators level) P rest)
    (hends : Ends level rest) : (parseBinary level c).Gives P rest :=
  h.gives fun _ _ hc => parseOperators_of_ends (hc ▸ hends)

/-- An expression in front of a symbol that ends every expression. -/
theorem gives_before {s : Symbol} (hs : s ∈ [.rparen, .rbracket, .comma, .semicolon, .assign])
    (h : Ends 1 (.symbol s :: rest) →
      (parseBinary 0 c).Enters (parseOperators 0) P (.symbol s :: rest)) :
    (parseBinary 0 c).Gives P (.symbol s :: rest) :=
  gives_of_operators (h (ends_symbol hs _ _)) (ends_symbol hs _ _)

theorem enters_operators (h : (parseUnary c).Gives P rest) :
    (parseBinary level c).Enters (parseOperators level) P rest := by
  rw [parseBinary]
  exact .of_gives h

/-- A round of the loop over operators reads an operator and its right operand. -/
theorem enters_operator {op : BinaryOp} {rhs : Expr} {w : List Kind} (hlevel : level ≤ op.level)
    (hc : c.kinds = .symbol op.symbol :: w)
    (hrhs : ∀ c' : Cursor, c'.kinds = w →
      (parseBinary (op.level + 1) c').Gives (·.bare = rhs.bare) rest) :
    (parseOperators level lhs c).Enters (parseOperators level)
      (·.bare = .binary .blank op lhs.bare rhs.bare) rest := by
  obtain ⟨pos, c₁, h₁, hs, hc₁⟩ := Cursor.takeSome?_of_kinds hc (ofKind?_symbol hlevel)
  rw [parseOperators, hs]
  dsimp only
  refine .bind (hrhs c₁ hc₁) fun ⟨e, c₂, h₂⟩ he hc₂ => ?_
  exact ⟨.binary ⟨c₂.next, some pos⟩ op lhs e, ⟨c₂.tokens, c₂.next + 1⟩,
    Nat.lt_succ_of_lt (Nat.lt_trans h₂ h₁), congrArg (Expr.binary .blank op lhs.bare) he, hc₂, rfl⟩

/-- A round that reads a call of a method. -/
theorem enters_methodCall {name : String} {args : List Expr} {w : List Kind}
    (hc : c.kinds = .symbol .dot :: .ident name :: w) (hw : w.headD .eof = .symbol .lparen)
    (hargs : ∀ c' : Cursor, c'.kinds = w → (parseArgs c').Gives (bareArgs · = bareArgs args) rest) :
    (parsePostfix lhs c).Enters parsePostfix
      (·.bare = .methodCall .blank lhs.bare name (bareArgs args)) rest := by
  obtain ⟨⟨_, c₁, h₁⟩, hs, hc₁⟩ := Cursor.take?_of_kinds hc
  rw [parsePostfix, hs]
  dsimp only
  refine .bind (Cursor.gives_ident hc₁) fun ⟨(found, pos), c₂, h₂⟩ hname hc₂ => ?_
  obtain rfl : found = name := hname
  have hparen : c₂.kind = .symbol .lparen := by
    rw [Cursor.kind_eq, show c₂.kinds = w from hc₂, hw]
  dsimp only
  rw [if_pos hparen]
  refine .bind (hargs c₂ hc₂) fun ⟨as, c₃, h₃⟩ has hc₃ => ?_
  exact ⟨.methodCall ⟨c₃.next, some pos⟩ lhs found as, ⟨c₃.tokens, c₃.next + 1⟩,
    Nat.lt_succ_of_lt (Nat.lt_trans h₃ (Nat.lt_trans h₂ h₁)),
    congrArg (Expr.methodCall .blank lhs.bare found) has, hc₃, rfl⟩

theorem enters_length (hc : c.kinds = .symbol .dot :: .ident "length" :: rest)
    (hrest : Detached rest) : (parsePostfix lhs c).Enters parsePostfix
      (·.bare = .arrayLength .blank lhs.bare) rest := by
  obtain ⟨⟨_, c₁, h₁⟩, hs, hc₁⟩ := Cursor.take?_of_kinds hc
  rw [parsePostfix, hs]
  dsimp only
  refine .bind (Cursor.gives_ident hc₁) fun ⟨(found, pos), c₂, h₂⟩ hname hc₂ => ?_
  obtain rfl : found = "length" := hname
  have hnone : c₂.kind ≠ .symbol .lparen := by
    rw [Cursor.kind_eq, show c₂.kinds = rest from hc₂]
    exact hrest.noArgs
  dsimp only
  rw [if_neg hnone, if_pos rfl]
  exact ⟨_, ⟨c₂.tokens, c₂.next + 1⟩, Nat.lt_succ_of_lt (Nat.lt_trans h₂ h₁), rfl, hc₂, rfl⟩

theorem enters_field {name : String} (hname : name ≠ "length")
    (hc : c.kinds = .symbol .dot :: .ident name :: rest) (hrest : Detached rest) :
    (parsePostfix lhs c).Enters parsePostfix
      (·.bare = .read .blank (.field .blank lhs.bare name)) rest := by
  obtain ⟨⟨_, c₁, h₁⟩, hs, hc₁⟩ := Cursor.take?_of_kinds hc
  rw [parsePostfix, hs]
  dsimp only
  refine .bind (Cursor.gives_ident hc₁) fun ⟨(found, pos), c₂, h₂⟩ hfound hc₂ => ?_
  obtain rfl : found = name := hfound
  have hnone : c₂.kind ≠ .symbol .lparen := by
    rw [Cursor.kind_eq, show c₂.kinds = rest from hc₂]
    exact hrest.noArgs
  dsimp only
  rw [if_neg hnone, if_neg hname]
  exact ⟨_, ⟨c₂.tokens, c₂.next + 1 + 1⟩, Nat.lt_succ_of_lt (Nat.lt_trans h₂ h₁), rfl, hc₂, rfl⟩

theorem enters_index {index : Expr} {w : List Kind} (hc : c.kinds = .symbol .lbracket :: w)
    (hindex : ∀ c' : Cursor, c'.kinds = w →
      (parseBinary 0 c').Gives (·.bare = index.bare) (.symbol .rbracket :: rest)) :
    (parsePostfix lhs c).Enters parsePostfix
      (·.bare = .read .blank (.index .blank lhs.bare index.bare)) rest := by
  have hdot : c.kind ≠ .symbol .dot := by simp [Cursor.kind_of_kinds hc]
  obtain ⟨⟨pos, c₁, h₁⟩, hs, hc₁⟩ := Cursor.take?_of_kinds hc
  rw [parsePostfix, Cursor.take?_of_ne hdot]
  dsimp only
  rw [hs]
  dsimp only
  refine .bind (hindex c₁ hc₁) fun ⟨e, c₂, h₂⟩ he hc₂ => ?_
  refine .bind (Cursor.gives_expect hc₂) fun ⟨_, c₃, h₃⟩ _ hc₃ => ?_
  exact ⟨.read ⟨c₃.next + 1, some pos⟩ (.index ⟨c₃.next, some pos⟩ lhs e),
    ⟨c₃.tokens, c₃.next + 1 + 1⟩, Nat.lt_succ_of_lt (Nat.lt_trans h₃ (Nat.lt_trans h₂ h₁)),
    congrArg (fun e => Expr.read .blank (.index .blank lhs.bare e)) he, hc₃, rfl⟩

end Loops

/-! ## Expressions -/

theorem detached_symbol {s : Symbol} (hparen : s ≠ .lparen) (hbracket : s ≠ .lbracket)
    (rest : List Kind) : Detached (.symbol s :: rest) :=
  ⟨fun h => hparen (Kind.symbol.inj h), .of_head fun h => hbracket (Kind.symbol.inj h)⟩

theorem ofKind?_of_startsAtom {k : Kind} (h : startsAtom k = true) : UnaryOp.ofKind? k = none := by
  cases k with
  | symbol s => cases s <;> first | rfl | cases h
  | _ => rfl

theorem unary_ofKind?_symbol (op : UnaryOp) : UnaryOp.ofKind? (.symbol op.symbol) = some op := by
  cases op <;> rfl

/-- Behind an operand of an operator in front every operator is one that it
does not have. -/
theorem Apart.ends {rest : List Kind} (h : Apart rest) : Ends UnaryOp.level rest := by
  refine ⟨h, ?_⟩
  cases hop : BinaryOp.ofKind? UnaryOp.level (rest.headD .eof) with
  | none => rfl
  | some op =>
    have hlevel := (kind_of_ofKind? hop).2
    have hle := op.level_le
    unfold UnaryOp.level at hlevel
    omega

mutual

/-- **An expression is read up to where its operators end**: the loop over
operators goes on from its tree. -/
theorem enters_parseBinary {l : Nat} {w : List Kind} {e : Expr} : BinaryPhrase l w e →
    ∀ {level c rest}, level ≤ l → c.kinds = w ++ rest → Ends (l + 1) rest →
    (parseBinary level c).Enters (parseOperators level) (·.bare = e.bare) rest
  | .unary h, level, c, rest, _, hc, hends => enters_operators (gives_parseUnary h hc hends.toApart)
  | .binary op hop hl hr, level, c, rest, hle, hc, hends => by
    rw [List.append_assoc] at hc
    refine (enters_parseBinary hl (Nat.le_trans hle hop) hc (ends_operator (Nat.lt_succ_self _) _)).trans
      fun lhs c₁ hlhs hc₁ => ?_
    have hends : Ends (op.level + 1) rest := hends.mono (Nat.succ_le_succ hop)
    simp only [Expr.bare, ← hlhs]
    refine enters_operator (Nat.le_trans hle hop) hc₁ fun c₂ hc₂ => ?_
    exact gives_of_operators (enters_parseBinary hr (Nat.le_refl _) hc₂ (hends.mono (by omega))) hends

theorem gives_parseUnary {w : List Kind} {e : Expr} : UnaryPhrase w e →
    ∀ {c rest}, c.kinds = w ++ rest → Apart rest → (parseUnary c).Gives (·.bare = e.bare) rest
  | .suffixed h, c, rest, hc, hapart => by
    have hop : UnaryOp.ofKind? c.kind = none := by
      rw [c.kind_eq, hc]
      exact ofKind?_of_startsAtom (h.starts.append rest).headD
    rw [parseUnary_eq hop]
    exact (enters_parsePostfix h hc hapart.detached).gives fun _ _ hc₁ =>
      parsePostfix_of_apart (hc₁ ▸ hapart)
  | .unary op h, c, rest, hc, hapart => by
    obtain ⟨pos, c₁, h₁, hs, hc₁⟩ := Cursor.takeSome?_of_kinds hc (unary_ofKind?_symbol op)
    -- The literal that a minus folds with starts no operand.
    have hne : c₁.kind ≠ .integer leastMagnitude := by
      rw [c₁.kind_eq, hc₁]
      exact h.starts.ne (by decide) rest
    have hnone : (if op = .minus then c₁.take? (.integer leastMagnitude) else none) = none := by
      rw [Cursor.take?_of_ne hne, ite_self]
    rw [parseUnary, hs]
    dsimp only
    rw [hnone]
    refine (gives_of_operators (enters_operators (gives_parseUnary h hc₁ hapart)) hapart.ends).bind
      fun ⟨e, c₂, h₂⟩ he hc₂ => ?_
    exact ⟨_, rfl, congrArg (Expr.unary .blank op) he, hc₂⟩
  | .least, c, rest, hc, _ => by
    obtain ⟨pos, c₁, h₁, hs, hc₁⟩ := Cursor.takeSome?_of_kinds hc (unary_ofKind?_symbol .minus)
    obtain ⟨digits, hdigits, hc₂⟩ := Cursor.take?_of_kinds hc₁
    rw [parseUnary, hs]
    dsimp only
    rw [if_pos rfl, hdigits]
    exact ⟨_, rfl, rfl, hc₂⟩

theorem enters_parsePostfix {w : List Kind} {e : Expr} : PostfixPhrase w e →
    ∀ {c rest}, c.kinds = w ++ rest → Detached rest →
    (parseSuffixed c).Enters parsePostfix (·.bare = e.bare) rest
  | .atom h, c, rest, hc, hrest => .of_gives (gives_parseAtom h hc hrest)
  | .call h hargs, c, rest, hc, _ => by
    rw [List.append_assoc] at hc
    refine (enters_parsePostfix h hc (detached_symbol (by simp) (by simp) _)).trans
      fun lhs c₁ hlhs hc₁ => ?_
    simp only [Expr.bare, ← hlhs]
    exact enters_methodCall hc₁ (hargs.headD rest) fun c₂ hc₂ => gives_parseArgs hargs hc₂
  | .length h, c, rest, hc, hrest => by
    rw [List.append_assoc] at hc
    refine (enters_parsePostfix h hc (detached_symbol (by simp) (by simp) _)).trans
      fun lhs c₁ hlhs hc₁ => ?_
    simp only [Expr.bare, ← hlhs]
    exact enters_length hc₁ hrest
  | .field h hname, c, rest, hc, hrest => by
    rw [List.append_assoc] at hc
    refine (enters_parsePostfix h hc (detached_symbol (by simp) (by simp) _)).trans
      fun lhs c₁ hlhs hc₁ => ?_
    simp only [Expr.bare, Place.bare, ← hlhs]
    exact enters_field hname hc₁ hrest
  | .index h hi, c, rest, hc, _ => by
    rw [List.append_assoc, List.cons_append, List.append_assoc] at hc
    refine (enters_parsePostfix h hc ⟨nofun, hi.noBrackets _⟩).trans fun lhs c₁ hlhs hc₁ => ?_
    simp only [Expr.bare, Place.bare, ← hlhs]
    refine enters_index hc₁ fun c₂ hc₂ => ?_
    exact gives_before (by simp) (enters_parseBinary hi (Nat.zero_le _) hc₂)

theorem gives_parseAtom {w : List Kind} {e : Expr} : AtomPhrase w e →
    ∀ {c rest}, c.kinds = w ++ rest → Detached rest → (parseAtom c).Gives (·.bare = e.bare) rest
  | .int hvalue, c, rest, hc, _ => by
    obtain ⟨⟨t, c₁, h₁⟩, hs, ht, hc₁⟩ := Cursor.take_of_kinds hc
    rw [parseAtom, hs]
    dsimp only at ht ⊢
    rw [ht]
    dsimp only
    rw [hvalue]
    exact ⟨_, rfl, rfl, hc₁⟩
  | .true_, c, rest, hc, _ | .false_, c, rest, hc, _ | .null, c, rest, hc, _
  | .this, c, rest, hc, _ => by
    obtain ⟨⟨t, c₁, h₁⟩, hs, ht, hc₁⟩ := Cursor.take_of_kinds hc
    rw [parseAtom, hs]
    dsimp only at ht ⊢
    rw [ht]
    exact ⟨_, rfl, rfl, hc₁⟩
  | .var, c, rest, hc, hrest => by
    obtain ⟨⟨t, c₁, h₁⟩, hs, ht, hc₁⟩ := Cursor.take_of_kinds hc
    have hnone : c₁.kind ≠ .symbol .lparen := by
      rw [Cursor.kind_eq, show c₁.kinds = rest from hc₁]
      exact hrest.noArgs
    rw [parseAtom, hs]
    dsimp only at ht ⊢
    rw [ht]
    dsimp only
    rw [if_neg hnone]
    exact ⟨_, rfl, rfl, hc₁⟩
  | .call hargs, c, rest, hc, _ => by
    obtain ⟨⟨t, c₁, h₁⟩, hs, ht, hc₁⟩ := Cursor.take_of_kinds hc
    have hparen : c₁.kind = .symbol .lparen := by
      rw [Cursor.kind_eq, show c₁.kinds = _ from hc₁]
      exact hargs.headD rest
    rw [parseAtom, hs]
    dsimp only at ht ⊢
    rw [ht]
    dsimp only
    rw [if_pos hparen]
    refine (gives_parseArgs hargs hc₁).bind fun ⟨args, c₂, h₂⟩ hargs hc₂ => ?_
    exact ⟨_, rfl, congrArg (Expr.call .blank _) hargs, hc₂⟩
  | .parens h, c, rest, hc, _ => by
    rw [List.cons_append, List.append_assoc] at hc
    obtain ⟨⟨t, c₁, h₁⟩, hs, ht, hc₁⟩ := Cursor.take_of_kinds hc
    rw [parseAtom, hs]
    dsimp only at ht ⊢
    rw [ht]
    dsimp only
    refine (gives_before (by simp) (enters_parseBinary h (Nat.zero_le _) hc₁)).bind fun ⟨e, c₂, h₂⟩ he hc₂ => ?_
    refine (Cursor.gives_expect hc₂).bind fun ⟨_, c₃, h₃⟩ _ hc₃ => ?_
    exact ⟨_, rfl, he, hc₃⟩
  | .newObject, c, rest, hc, _ => by
    obtain ⟨⟨t, c₁, h₁⟩, hs, ht, hc₁⟩ := Cursor.take_of_kinds hc
    obtain ⟨⟨class_, c₂, h₂⟩, hcallee, hname, hc₂⟩ := Cursor.takeCallee?_of_kinds hc₁
    rw [parseAtom, hs]
    dsimp only at ht hname ⊢
    rw [ht, hcallee]
    refine (Cursor.gives_expect hc₂).bind fun ⟨_, c₃, h₃⟩ _ hc₃ => ?_
    exact ⟨_, rfl, congrArg (Expr.newObject .blank) hname, hc₃⟩
  | .newArray elem h, c, rest, hc, hrest => by
    obtain ⟨n, base, hpairs, rfl⟩ := elem.exists_arrays
    rw [TypeExpr.base_arrays, TypeExpr.pairs_arrays, hpairs, List.append_nil, List.cons_append,
      List.cons_append, List.cons_append, List.append_assoc] at hc
    obtain ⟨⟨t, c₁, h₁⟩, hs, ht, hc₁⟩ := Cursor.take_of_kinds hc
    rw [parseAtom, hs]
    dsimp only at ht ⊢
    rw [ht, Cursor.takeCallee?_of_ne hc₁ (by simp)]
    refine (gives_parseBaseType hpairs hc₁).bind fun ⟨found, c₂, h₂⟩ hfound hc₂ => ?_
    obtain rfl : found = base := hfound
    refine (Cursor.gives_expect hc₂).bind fun ⟨_, c₃, h₃⟩ _ hc₃ => ?_
    refine (gives_before (by simp) (enters_parseBinary h (Nat.zero_le _) hc₃)).bind fun ⟨size, c₄, h₄⟩ hsize hc₄ => ?_
    refine (Cursor.gives_expect hc₄).bind fun ⟨_, c₅, h₅⟩ _ hc₅ => ?_
    obtain ⟨hty, hc₆⟩ := parseBrackets_of_kinds hrest.noBrackets hc₅
    refine .pure ?_ hc₆
    show Expr.newArray .blank (parseBrackets found c₅).value size.bare = _
    rw [hty, show size.bare = _ from hsize]
    rfl

theorem gives_parseArgs {w : List Kind} {args : List Expr} : ArgsPhrase w args →
    ∀ {c rest}, c.kinds = w ++ rest → (parseArgs c).Gives (bareArgs · = bareArgs args) rest
  | .nil, c, rest, hc => by
    rw [parseArgs]
    refine (Cursor.gives_expect hc).bind fun ⟨_, c₁, h₁⟩ _ hc₁ => ?_
    obtain ⟨closed, hclosed, hc₂⟩ := Cursor.take?_of_kinds hc₁
    dsimp only
    rw [hclosed]
    exact ⟨_, rfl, rfl, hc₂⟩
  | .list h, c, rest, hc => by
    rw [parseArgs]
    refine (Cursor.gives_expect hc).bind fun ⟨_, c₁, h₁⟩ _ hc₁ => ?_
    have hne : c₁.kind ≠ .symbol .rparen := by
      rw [c₁.kind_eq, show c₁.kinds = _ from hc₁]
      exact h.starts.ne rfl rest
    dsimp only
    rw [Cursor.take?_of_ne hne]
    exact (gives_parseArgList h hc₁).bind fun s hargs hs => .pure hargs hs

theorem gives_parseArgList {w : List Kind} {args : List Expr} : ArgListPhrase w args →
    ∀ {c rest}, c.kinds = w ++ rest → (parseArgList c).Gives (bareArgs · = bareArgs args) rest
  | .one h, c, rest, hc => by
    rw [List.append_assoc] at hc
    rw [parseArgList]
    refine (gives_before (by simp) (enters_parseBinary h (Nat.zero_le _) hc)).bind fun ⟨e, c₁, h₁⟩ he hc₁ => ?_
    dsimp only at he hc₁ ⊢
    rw [Cursor.take?_of_ne (by simp [Cursor.kind_of_kinds hc₁])]
    refine (Cursor.gives_expect hc₁).bind fun s _ hs => .pure ?_ hs
    simp [bareArgs, he]
  | .cons h hargs, c, rest, hc => by
    rw [List.append_assoc] at hc
    rw [parseArgList]
    refine (gives_before (by simp) (enters_parseBinary h (Nat.zero_le _) hc)).bind fun ⟨e, c₁, h₁⟩ he hc₁ => ?_
    obtain ⟨⟨_, c₂, h₂⟩, hcomma, hc₂⟩ := Cursor.take?_of_kinds hc₁
    dsimp only
    rw [hcomma]
    refine (gives_parseArgList hargs hc₂).bind fun s hrest hs => .pure ?_ hs
    have he : e.bare = _ := he
    simp [bareArgs, he, hrest]

end

/-- **An expression is read** in front of a symbol that ends it. -/
theorem gives_parseExpr {c : Cursor} {w rest : List Kind} {e : Expr} {s : Symbol}
    (hs : s ∈ [.rparen, .rbracket, .comma, .semicolon, .assign]) (h : BinaryPhrase 0 w e)
    (hc : c.kinds = w ++ .symbol s :: rest) :
    (parseExpr c).Gives (·.bare = e.bare) (.symbol s :: rest) :=
  gives_before hs (enters_parseBinary h (Nat.zero_le _) hc)

/-! ## Statements -/

theorem gives_parseClosed {c : Cursor} {w rest : List Kind} {e : Expr} {s : Symbol}
    (hs : s ∈ [.rparen, .rbracket, .comma, .semicolon, .assign]) (h : BinaryPhrase 0 w e)
    (hc : c.kinds = w ++ .symbol s :: rest) :
    (parseClosed (.symbol s) c).Gives (·.bare = e.bare) rest := by
  unfold parseClosed
  refine (gives_parseExpr hs h hc).bind fun ⟨e, c₁, h₁⟩ he hc₁ => ?_
  exact (Cursor.gives_expect hc₁).bind fun s _ hs => .pure he hs

theorem gives_parseCondition {c : Cursor} {w rest : List Kind} {e : Expr} (h : BinaryPhrase 0 w e)
    (hc : c.kinds = .symbol .lparen :: (w ++ .symbol .rparen :: rest)) :
    (parseCondition c).Gives (·.bare = e.bare) rest := by
  unfold parseCondition
  refine (Cursor.gives_expect hc).bind fun ⟨_, c₁, h₁⟩ _ hc₁ => ?_
  exact (gives_parseClosed (by simp) h hc₁).bind fun s he hs => .pure he hs

/-- The statements that no keyword and no brace starts. -/
def Stmt.simple : Stmt → Bool
  | .decl _ _ | .assign _ _ _ | .expr _ _ => true
  | .block _ _ | .ifThen _ _ _ | .ifElse _ _ _ _ | .loop _ _ _ | .ret _ _ => false

theorem gives_parseSimple {c : Cursor} {w rest : List Kind} {s : Stmt} (hsimple : s.simple = true)
    (h : StmtPhrase w s) (hc : c.kinds = w ++ rest) :
    (parseSimple c).Gives (·.bare = s.bare) rest := by
  cases h with
  | decl var =>
    rw [List.append_assoc] at hc
    have hdecl : c.startsDecl = true := by rw [c.startsDecl_eq, hc, var.declHead_kinds]
    unfold parseSimple
    dsimp only
    rw [if_pos hdecl]
    refine (gives_parseVarDecl hc).bind fun ⟨found, c₁, h₁⟩ hvar hc₁ => ?_
    refine (Cursor.gives_expect hc₁).bind fun s _ hs => .pure ?_ hs
    exact congrArg (Stmt.decl none) hvar
  | @assign u v pos m target value ht hv =>
    rw [List.append_assoc, List.cons_append, List.append_assoc] at hc
    -- No place starts like a declaration: behind a name comes no name and no empty pair of
    -- brackets.
    have hdecl : ¬ c.startsDecl = true := by
      rw [c.startsDecl_eq, hc, ht.noDecl (noDeclarator_symbol (by simp) _)]
      simp
    unfold parseSimple
    dsimp only
    rw [if_neg hdecl]
    refine (gives_parseExpr (by simp) ht hc).bind fun ⟨lhs, c₁, h₁⟩ hlhs hc₁ => ?_
    obtain ⟨⟨_, c₂, h₂⟩, hassign, hc₂⟩ := Cursor.take?_of_kinds hc₁
    dsimp only at hlhs ⊢
    rw [hassign]
    cases lhs with
    | read m' place =>
      have hplace : place.bare = target.bare := (Expr.read.inj hlhs).2
      refine (gives_parseClosed (by simp) hv hc₂).bind fun s hvalue hs => .pure ?_ hs
      show Stmt.assign none place.bare s.value.bare = _
      rw [hplace, hvalue]
      rfl
    | _ => simp [Expr.bare] at hlhs
  | @expr u pos value hv =>
    rw [List.append_assoc, List.singleton_append] at hc
    have hdecl : ¬ c.startsDecl = true := by
      rw [c.startsDecl_eq, hc, hv.noDecl (noDeclarator_symbol (by simp) _)]
      simp
    unfold parseSimple
    dsimp only
    rw [if_neg hdecl]
    refine (gives_parseExpr (by simp) hv hc).bind fun ⟨e, c₁, h₁⟩ he hc₁ => ?_
    dsimp only at hc₁ ⊢
    rw [Cursor.take?_of_ne (by simp [Cursor.kind_of_kinds hc₁])]
    exact (Cursor.gives_expect hc₁).bind fun s _ hs => .pure (congrArg (Stmt.expr none) he) hs
  | _ => cases hsimple

theorem parseStmt_eq {c : Cursor} (h : startsExpr c.kind = true ∨ startsType c.kind = true) :
    parseStmt c = parseSimple c := by
  rw [parseStmt]
  split
  next => rfl
  next t c₁ h₁ heq =>
    rw [Cursor.kind_of_take heq] at h
    dsimp only at h
    split
    next hk => exact absurd h (by rw [hk]; decide)
    next hk => exact absurd h (by rw [hk]; decide)
    next hk => exact absurd h (by rw [hk]; decide)
    next hk => exact absurd h (by rw [hk]; decide)
    next => rfl

/-- A statement that no keyword and no brace starts. -/
theorem gives_simpleStmt {c : Cursor} {w rest : List Kind} {s : Stmt} (hsimple : s.simple = true)
    (h : StmtPhrase w s) (hc : c.kinds = w ++ rest) : (parseStmt c).Gives (·.bare = s.bare) rest := by
  have hstart : startsExpr c.kind = true ∨ startsType c.kind = true := by
    rw [c.kind_eq, hc]
    cases h with
    | decl var => exact .inr ((var.starts.append _).append rest).headD
    | assign ht _ => exact .inl ((ht.starts.append _).append rest).headD
    | expr hv => exact .inl ((hv.starts.append _).append rest).headD
    | _ => cases hsimple
  rw [parseStmt_eq hstart]
  exact gives_parseSimple hsimple h hc

mutual

/-- **A statement is read**, if no `else` follows that would belong to an `if`
at its end. -/
theorem gives_parseStmt {w : List Kind} {s : Stmt} : StmtPhrase w s → ∀ {c rest},
    c.kinds = w ++ rest → (s.openEnd = true → rest.headD .eof ≠ .keyword .else_) →
    (parseStmt c).Gives (·.bare = s.bare) rest
  | .decl var, c, rest, hc, _ => gives_simpleStmt rfl (.decl var) hc
  | .assign ht hv, c, rest, hc, _ => gives_simpleStmt rfl (.assign ht hv) hc
  | .expr hv, c, rest, hc, _ => gives_simpleStmt rfl (.expr hv) hc
  | .block h, c, rest, hc, _ => by
    obtain ⟨tail, heq⟩ := h.starts
    have hbrace : c.kinds = .symbol .lbrace :: (tail ++ rest) := by
      rw [hc, heq]
      rfl
    obtain ⟨⟨t, c₁, h₁⟩, hs, ht, -⟩ := Cursor.take_of_kinds hbrace
    rw [parseStmt, hs]
    dsimp only at ht ⊢
    rw [ht]
    refine (gives_parseBlock h hc).bind fun b hb hc₂ => .pure ?_ hc₂
    rw [Step.value_map, Stmt.bare_block, Stmt.bare_block, hb]
  | .ifThen hcond hbody, c, rest, hc, hend => by
    rw [List.cons_append, List.cons_append, List.append_assoc] at hc
    obtain ⟨⟨t, c₁, h₁⟩, hs, ht, hc₁⟩ := Cursor.take_of_kinds hc
    rw [parseStmt, hs]
    dsimp only at ht ⊢
    rw [ht]
    dsimp only
    refine (gives_parseCondition hcond hc₁).bind fun ⟨cond, c₂, h₂⟩ hcond hc₂ => ?_
    refine (gives_parseStmt hbody hc₂ fun _ => hend rfl).bind fun ⟨body, c₃, h₃⟩ hbody hc₃ => ?_
    -- No `else` follows by assumption, so the statement ends behind its body.
    have hnone : c₃.kind ≠ .keyword .else_ := by
      rw [Cursor.kind_eq, show c₃.kinds = rest from hc₃]
      exact hend rfl
    dsimp only
    rw [Cursor.take?_of_ne hnone]
    refine .pure ?_ hc₃
    show Stmt.ifThen none cond.bare body.bare = _
    rw [show body.bare = _ from hbody, show cond.bare = _ from hcond]
    rfl
  | .ifElse hcond hyes hclosed hno, c, rest, hc, hend => by
    rw [List.cons_append, List.cons_append, List.append_assoc, List.cons_append,
      List.append_assoc] at hc
    obtain ⟨⟨t, c₁, h₁⟩, hs, ht, hc₁⟩ := Cursor.take_of_kinds hc
    rw [parseStmt, hs]
    dsimp only at ht ⊢
    rw [ht]
    dsimp only
    refine (gives_parseCondition hcond hc₁).bind fun ⟨cond, c₂, h₂⟩ hcond hc₂ => ?_
    -- The first branch has no open end, so the `else` behind it is not taken by it.
    refine (gives_parseStmt hyes hc₂ fun hopen => nomatch hclosed.symm.trans hopen).bind
      fun ⟨yes, c₃, h₃⟩ hyes hc₃ => ?_
    obtain ⟨⟨_, c₄, h₄⟩, helse, hc₄⟩ := Cursor.take?_of_kinds hc₃
    dsimp only
    rw [helse]
    refine (gives_parseStmt hno hc₄ hend).bind fun s hno hs => .pure ?_ hs
    show Stmt.ifElse none cond.bare yes.bare s.value.bare = _
    rw [hno, show yes.bare = _ from hyes, show cond.bare = _ from hcond]
    rfl
  | .loop hcond hbody, c, rest, hc, hend => by
    rw [List.cons_append, List.cons_append, List.append_assoc] at hc
    obtain ⟨⟨t, c₁, h₁⟩, hs, ht, hc₁⟩ := Cursor.take_of_kinds hc
    rw [parseStmt, hs]
    dsimp only at ht ⊢
    rw [ht]
    dsimp only
    refine (gives_parseCondition hcond hc₁).bind fun ⟨cond, c₂, h₂⟩ hcond hc₂ => ?_
    refine (gives_parseStmt hbody hc₂ hend).bind fun s hbody hs => .pure ?_ hs
    show Stmt.loop none cond.bare s.value.bare = _
    rw [hbody, show cond.bare = _ from hcond]
    rfl
  | .ret hv, c, rest, hc, _ => by
    rw [List.cons_append, List.append_assoc] at hc
    obtain ⟨⟨t, c₁, h₁⟩, hs, ht, hc₁⟩ := Cursor.take_of_kinds hc
    rw [parseStmt, hs]
    dsimp only at ht ⊢
    rw [ht]
    exact (gives_parseClosed (by simp) hv hc₁).bind fun s hvalue hs =>
      .pure (congrArg (Stmt.ret none) hvalue) hs

theorem gives_parseBlock {w : List Kind} {b : Block} : BlockPhrase w b → ∀ {c rest},
    c.kinds = w ++ rest → (parseBlock c).Gives (·.bare = b.bare) rest
  | .mk h, c, rest, hc => by
    rw [List.cons_append, List.append_assoc] at hc
    rw [parseBlock]
    refine (Cursor.gives_expect hc).bind fun ⟨pos, c₁, h₁⟩ _ hc₁ => ?_
    refine (gives_parseStmts h hc₁).bind fun s hstmts hs => .pure ?_ hs
    exact congrArg (Block.mk · none) hstmts

theorem gives_parseStmts {w : List Kind} {stmts : List Stmt} : StmtsPhrase w stmts → ∀ {c rest},
    c.kinds = w ++ .symbol .rbrace :: rest →
    (parseStmts c).Gives (bareStmts · = bareStmts stmts) rest
  | .nil, c, rest, hc => by
    obtain ⟨closed, hclosed, hrest⟩ := Cursor.take?_of_kinds hc
    rw [parseStmts, hclosed]
    exact ⟨_, rfl, rfl, hrest⟩
  | .cons h hrest, c, rest, hc => by
    rw [List.append_assoc] at hc
    have hne {k : Kind} (hk : startsStmt k = false) : c.kind ≠ k := by
      rw [c.kind_eq, hc]
      exact h.starts.ne hk _
    rw [parseStmts, Cursor.take?_of_ne (hne (by decide))]
    dsimp only
    rw [if_neg (hne (by decide))]
    refine (gives_parseStmt h hc fun _ => hrest.noElse rest).bind fun ⟨s, c₁, h₁⟩ hs hc₁ => ?_
    refine (gives_parseStmts hrest hc₁).bind fun tail htail hc₂ => .pure ?_ hc₂
    have hs : s.bare = _ := hs
    simp [bareStmts, hs, htail]

end

/-! ## Declarations -/

theorem gives_parseParamList {params : List VarDecl} (hne : params ≠ []) {c : Cursor}
    {rest : List Kind} (hc : c.kinds = paramKinds params ++ .symbol .rparen :: rest) :
    (parseParamList c).Gives (·.map VarDecl.bare = params.map VarDecl.bare) rest := by
  induction params generalizing c with
  | nil => exact absurd rfl hne
  | cons param tail ih =>
    rw [parseParamList]
    cases tail with
    | nil =>
      refine (gives_parseVarDecl hc).bind ?_
      rintro ⟨var, c₁, h₁⟩ hvar hc₁
      dsimp only at hvar hc₁ ⊢
      rw [Cursor.take?_of_ne (by simp [Cursor.kind_of_kinds hc₁])]
      refine (Cursor.gives_expect hc₁).bind fun s _ hs => .pure ?_ hs
      simp [hvar]
    | cons next tail =>
      rw [paramKinds, List.append_assoc] at hc
      · refine (gives_parseVarDecl hc).bind ?_
        rintro ⟨var, c₁, h₁⟩ hvar hc₁
        obtain ⟨⟨_, c₂, h₂⟩, hcomma, hc₂⟩ := Cursor.take?_of_kinds hc₁
        dsimp only at hvar ⊢
        rw [hcomma]
        refine (ih (by simp) hc₂).bind fun s htail hs => .pure ?_ hs
        simpa [hvar] using htail
      · simp

theorem gives_parseParams {params : List VarDecl} {c : Cursor} {rest : List Kind}
    (hc : c.kinds = .symbol .lparen :: (paramKinds params ++ .symbol .rparen :: rest)) :
    (parseParams c).Gives (·.map VarDecl.bare = params.map VarDecl.bare) rest := by
  unfold parseParams
  refine (Cursor.gives_expect hc).bind fun ⟨_, c₁, h₁⟩ _ hc₁ => ?_
  dsimp only at hc₁ ⊢
  cases params with
  | nil =>
    obtain ⟨closed, hclosed, hc₂⟩ := Cursor.take?_of_kinds hc₁
    rw [hclosed]
    exact ⟨_, rfl, rfl, hc₂⟩
  | cons param tail =>
    have hne : c₁.kind ≠ .symbol .rparen := by
      rw [c₁.kind_eq, hc₁]
      exact (starts_paramKinds (by simp)).ne (by decide) _
    rw [Cursor.take?_of_ne hne]
    exact (gives_parseParamList (by simp) hc₁).bind fun s hparams hs => .pure hparams hs

/-- The heading of a function: its type and its name. -/
def FunctionDecl.heading (f : FunctionDecl) : VarDecl := ⟨f.id, f.returnType, f.name, f.pos⟩

theorem FunctionPhrase.exists_body {w : List Kind} {f : FunctionDecl} (h : FunctionPhrase w f)
    (rest : List Kind) : ∃ v, BlockPhrase v f.body ∧ w ++ rest = f.heading.kinds ++
      .symbol .lparen :: (paramKinds f.params ++ .symbol .rparen :: (v ++ rest)) := by
  cases h with
  | @mk v f h => exact ⟨v, h, by simp [VarDecl.kinds, FunctionDecl.heading]⟩

theorem gives_parseFunctionRest {c : Cursor} {f : FunctionDecl} {heading : VarDecl}
    {w rest : List Kind} (hheading : heading.bare = f.heading.bare) (hbody : BlockPhrase w f.body)
    (hc : c.kinds = .symbol .lparen :: (paramKinds f.params ++ .symbol .rparen :: (w ++ rest))) :
    (parseFunctionRest heading c).Gives (·.bare = f.bare) rest := by
  unfold parseFunctionRest
  refine (gives_parseParams hc).bind fun ⟨params, c₁, h₁⟩ hparams hc₁ => ?_
  refine (gives_parseBlock hbody hc₁).bind fun body hbody hc₂ => .pure ?_ hc₂
  have hty : heading.ty = f.returnType := congrArg VarDecl.ty hheading
  have hname : heading.name = f.name := congrArg VarDecl.name hheading
  have hparams : params.map VarDecl.bare = f.params.map VarDecl.bare := hparams
  simp [FunctionDecl.bare, hty, hname, hparams, hbody]

theorem gives_parseFunction {c : Cursor} {f : FunctionDecl} {w rest : List Kind}
    (h : FunctionPhrase w f) (hc : c.kinds = w ++ rest) :
    (parseFunction c).Gives (·.bare = f.bare) rest := by
  obtain ⟨v, hbody, heq⟩ := h.exists_body rest
  unfold parseFunction
  refine (gives_parseVarDecl (hc.trans heq)).bind fun ⟨heading, c₁, h₁⟩ hheading hc₁ => ?_
  exact (gives_parseFunctionRest hheading hbody hc₁).bind fun s hf hs => .pure hf hs

theorem gives_parseMember {c : Cursor} {m : Member} {w rest : List Kind} (h : MemberPhrase w m)
    (hc : c.kinds = w ++ rest) : (parseMember c).Gives (·.bare = m.bare) rest := by
  unfold parseMember
  cases h with
  | field var =>
    rw [List.append_assoc] at hc
    refine (gives_parseVarDecl hc).bind fun ⟨heading, c₁, h₁⟩ hheading hc₁ => ?_
    dsimp only at hheading hc₁ ⊢
    rw [if_neg (by simp [Cursor.kind_of_kinds hc₁])]
    exact (Cursor.gives_expect hc₁).bind fun s _ hs => .pure (congrArg Member.field hheading) hs
  | method hf =>
    obtain ⟨v, hbody, heq⟩ := hf.exists_body rest
    refine (gives_parseVarDecl (hc.trans heq)).bind fun ⟨heading, c₁, h₁⟩ hheading hc₁ => ?_
    dsimp only at hheading hc₁ ⊢
    rw [if_pos (Cursor.kind_of_kinds hc₁)]
    exact (gives_parseFunctionRest hheading hbody hc₁).bind fun s hf hs =>
      .pure (congrArg Member.method hf) hs

theorem gives_parseMembers {ms : List Member} {w : List Kind} (h : Phrases MemberPhrase w ms)
    {c : Cursor} {rest : List Kind} (hc : c.kinds = w ++ .symbol .rbrace :: rest) :
    (parseMembers c).Gives (·.map Member.bare = ms.map Member.bare) rest := by
  induction h generalizing c with
  | nil =>
    obtain ⟨closed, hclosed, hrest⟩ := Cursor.take?_of_kinds hc
    rw [parseMembers, hclosed]
    exact ⟨_, rfl, rfl, hrest⟩
  | cons h _ ih =>
    rw [List.append_assoc] at hc
    have hne {k : Kind} (hk : startsType k = false) : c.kind ≠ k := by
      rw [c.kind_eq, hc]
      exact h.starts.ne hk _
    rw [parseMembers, Cursor.take?_of_ne (hne (by decide))]
    dsimp only
    rw [if_neg (hne (by decide))]
    refine (gives_parseMember h hc).bind ?_
    rintro ⟨m, c₁, h₁⟩ hm hc₁
    refine (ih hc₁).bind fun tail htail hc₂ => .pure ?_ hc₂
    have hm : m.bare = _ := hm
    simp [hm, htail]

theorem gives_parseExtends {super? : Option String} {c : Cursor} {rest : List Kind}
    (hc : c.kinds = extendsKinds super? ++ .symbol .lbrace :: rest) :
    (parseExtends c).Gives (· = super?) (.symbol .lbrace :: rest) := by
  unfold parseExtends
  cases super? with
  | none =>
    rw [Cursor.take?_of_ne (by simp [Cursor.kind_of_kinds hc])]
    exact .pure rfl hc
  | some name =>
    obtain ⟨⟨_, c₁, h₁⟩, hextends, hc₁⟩ := Cursor.take?_of_kinds hc
    rw [hextends]
    exact (Cursor.gives_ident hc₁).bind fun s hname hs => .pure (congrArg some hname) hs

theorem gives_parseClass {c : Cursor} {decl : ClassDecl} {w rest : List Kind}
    (h : ClassPhrase w decl) (hc : c.kinds = w ++ rest) :
    (parseClass c).Gives (·.bare = decl.bare) rest := by
  cases h with
  | mk hmembers hfields hmethods =>
    simp only [List.cons_append, List.append_assoc, List.nil_append] at hc
    unfold parseClass
    refine (Cursor.gives_expect hc).bind fun ⟨_, c₁, h₁⟩ _ hc₁ => ?_
    have hname : (Cursor.ident ⟨c₁.tokens, c₁.next + 1⟩).Gives _ _ := Cursor.gives_ident hc₁
    refine hname.bind fun ⟨(name, pos), c₃, h₃⟩ hname hc₃ => ?_
    refine (gives_parseExtends hc₃).bind fun ⟨super?, c₄, h₄⟩ hsuper hc₄ => ?_
    refine (Cursor.gives_expect hc₄).bind fun ⟨_, c₅, h₅⟩ _ hc₅ => ?_
    refine (gives_parseMembers hmembers hc₅).bind fun ms hms hs => .pure ?_ hs
    have hname : name = decl.name := hname
    have hsuper : super? = decl.extends? := hsuper
    show (⟨0, name, super?, (ms.value.filterMap Member.field?).map VarDecl.bare,
      (ms.value.filterMap Member.method?).map FunctionDecl.bare, none⟩ : ClassDecl) = decl.bare
    rw [hname, hsuper, ClassDecl.bare, hfields, hmethods, Member.filterMap_field?_bare,
      Member.filterMap_method?_bare, Member.filterMap_field?_bare, Member.filterMap_method?_bare, hms]

/-- **An item of a program is read.** -/
theorem gives_parseItem {c : Cursor} {item : Item} {w rest : List Kind} (h : ItemPhrase w item)
    (hc : c.kinds = w ++ rest) : (parseItem c).Gives (·.bare = item.bare) rest := by
  unfold parseItem
  cases h with
  | function hf =>
    have hne : c.kind ≠ .keyword .class_ := by
      rw [c.kind_eq, hc]
      exact hf.starts.ne (by decide) rest
    rw [if_neg hne]
    exact (gives_parseFunction hf hc).bind fun s hf hs => .pure (congrArg Item.function hf) hs
  | class_ hclass =>
    have hpos : c.kind = .keyword .class_ := by
      obtain ⟨tail, rfl⟩ := hclass.starts
      exact Cursor.kind_of_kinds hc
    rw [if_pos hpos]
    exact (gives_parseClass hclass hc).bind fun s hclass hs =>
      .pure (congrArg Item.class_ hclass) hs

theorem ItemPhrase.headD_ne {item : Item} {w : List Kind} (h : ItemPhrase w item)
    (rest : List Kind) : (w ++ rest).headD .eof ≠ .eof := by
  cases h with
  | function hf => exact hf.starts.ne (by decide) rest
  | class_ hclass =>
    obtain ⟨tail, rfl⟩ := hclass.starts
    simp

/-- **Items up to the end of the file are read without an error.** -/
theorem parseItems_of_phrases {items : List Item} {w : List Kind} (h : Phrases ItemPhrase w items)
    {c : Cursor} {rest : List Kind} (hrest : rest.headD .eof = .eof) (hc : c.kinds = w ++ rest) :
    (parseItems c).2 = none ∧ (parseItems c).1.map Item.bare = items.map Item.bare := by
  induction h generalizing c with
  | nil =>
    rw [parseItems, if_pos (by rw [c.kind_eq, hc]; exact hrest)]
    exact ⟨rfl, rfl⟩
  | cons h _ ih =>
    rw [List.append_assoc] at hc
    have hne : c.kind ≠ .eof := by
      rw [c.kind_eq, hc]
      exact h.headD_ne _
    obtain ⟨⟨item, c₁, h₁⟩, hitem, hbare, hc₁⟩ := gives_parseItem h hc
    obtain ⟨herror, hitems⟩ := ih hc₁
    rw [parseItems, if_neg hne, hitem]
    have hbare : item.bare = _ := hbare
    exact ⟨herror, by simp [hbare, hitems]⟩

end ClassLang.Source
