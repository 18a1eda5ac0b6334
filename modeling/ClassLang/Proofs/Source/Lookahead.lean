import ClassLang.Proofs.Source.Phrases
/-!
# Source — the first tokens of phrases

What the parser finds out by looking at the next tokens: which phrases start
with a token (`BinaryPhrase.starts`, `StmtPhrase.starts`), and that an
expression never starts like a declaration (`BinaryPhrase.noDecl`).
-/


namespace ClassLang.Source

open Token (Kind)

/-- Can an atom start with the token? -/
def startsAtom : Kind → Bool
  | .integer digits => (literal? digits).isSome
  | .ident _ | .symbol .lparen => true
  | .keyword k => k ∈ [.true_, .false_, .null, .this, .new]
  | _ => false

/-- Can an expression start with the token? -/
def startsExpr (k : Kind) : Bool := startsAtom k || k = .symbol .minus || k = .symbol .bang

/-- Can a type start with the token? -/
def startsType : Kind → Bool
  | .ident _ | .keyword .int | .keyword .boolean => true
  | _ => false

/-- The tokens start with one that satisfies the test. -/
def Starts (test : Kind → Bool) (w : List Kind) : Prop := ∃ k rest, w = k :: rest ∧ test k = true

theorem Starts.append {test : Kind → Bool} {w : List Kind} (h : Starts test w) (rest : List Kind) :
    Starts test (w ++ rest) := by
  obtain ⟨k, tail, rfl, hk⟩ := h
  exact ⟨k, tail ++ rest, rfl, hk⟩

theorem Starts.mono {test test' : Kind → Bool} {w : List Kind} (h : Starts test w)
    (hle : ∀ k, test k = true → test' k = true) : Starts test' w := by
  obtain ⟨k, tail, rfl, hk⟩ := h
  exact ⟨k, tail, rfl, hle k hk⟩

theorem Starts.headD {test : Kind → Bool} {w : List Kind} (h : Starts test w) :
    test (w.headD .eof) = true := by
  obtain ⟨k, tail, rfl, hk⟩ := h
  exact hk

/-- What starts otherwise starts with another token. -/
theorem Starts.ne {test : Kind → Bool} {w : List Kind} (h : Starts test w) {k : Kind}
    (hk : test k = false) (rest : List Kind) : (w ++ rest).headD .eof ≠ k := by
  intro heq
  have hstart := (h.append rest).headD
  rw [heq, hk] at hstart
  cases hstart

/-! ## Expressions -/

theorem AtomPhrase.starts {w : List Kind} {e : Expr} : AtomPhrase w e → Starts startsAtom w
  | .int hvalue => ⟨_, _, rfl, by simp [startsAtom, hvalue]⟩
  | .true_ | .false_ | .null | .this | .var | .call _ | .parens _ | .newObject | .newArray _ _ =>
    ⟨_, _, rfl, rfl⟩

theorem PostfixPhrase.starts {w : List Kind} {e : Expr} : PostfixPhrase w e → Starts startsAtom w
  | .atom h => h.starts
  | .call h _ | .length h | .field h _ | .index h _ => h.starts.append _

theorem UnaryPhrase.starts {w : List Kind} {e : Expr} : UnaryPhrase w e → Starts startsExpr w
  | .suffixed h => h.starts.mono fun k hk => by simp [startsExpr, hk]
  | .unary op _ => ⟨_, _, rfl, by cases op <;> rfl⟩
  | .least => ⟨_, _, rfl, rfl⟩

/-- **What an expression starts with.** -/
theorem BinaryPhrase.starts {level : Nat} {w : List Kind} {e : Expr} :
    BinaryPhrase level w e → Starts startsExpr w
  | .unary h => h.starts
  | .binary _ _ h _ => h.starts.append _

theorem ArgListPhrase.starts {w : List Kind} {args : List Expr} :
    ArgListPhrase w args → Starts startsExpr w
  | .one h | .cons h _ => h.starts.append _

/-- Tokens that follow an expression and are no part of it do not start with an
empty bracket pair. -/
def NoBrackets (w : List Kind) : Prop := ∀ rest, w ≠ .symbol .lbracket :: .symbol .rbracket :: rest

theorem NoBrackets.of_head {w : List Kind} (h : w.headD .eof ≠ .symbol .lbracket) :
    NoBrackets w := by
  rintro rest rfl
  exact h rfl

/-- Brackets with an index between them are no pair. -/
theorem BinaryPhrase.noBrackets {level : Nat} {w : List Kind} {e : Expr}
    (h : BinaryPhrase level w e) (rest : List Kind) :
    NoBrackets (.symbol .lbracket :: (w ++ rest)) := by
  intro rest' heq
  refine h.starts.ne (k := .symbol .rbracket) rfl rest ?_
  rw [(List.cons.inj heq).2]
  rfl

/-- Do the tokens start like a declaration of a local variable? -/
def declHead : List Kind → Bool
  | .keyword .int :: _ | .keyword .boolean :: _ => true
  | .ident _ :: .ident _ :: _ => true
  | .ident _ :: .symbol .lbracket :: .symbol .rbracket :: _ => true
  | _ => false

/-- What can follow an expression that is no declaration. -/
structure NoDeclarator (rest : List Kind) : Prop where
  noName : ∀ name, rest.headD .eof ≠ .ident name
  noBrackets : NoBrackets rest

/-- A name starts no declaration if no other name and no bracket pair follows. -/
theorem NoDeclarator.declHead_ident {rest : List Kind} (h : NoDeclarator rest) (name : String) :
    declHead (.ident name :: rest) = false := by
  unfold declHead
  split
  next heq => cases heq
  next heq => cases heq
  next heq =>
    cases heq
    exact absurd rfl (h.noName _)
  next heq =>
    cases heq
    exact absurd rfl (h.noBrackets _)
  next => rfl

theorem ArgsPhrase.starts {w : List Kind} {args : List Expr} :
    ArgsPhrase w args → ∃ rest, w = .symbol .lparen :: rest
  | .nil | .list _ => ⟨_, rfl⟩

theorem ArgsPhrase.headD {w : List Kind} {args : List Expr} (h : ArgsPhrase w args)
    (rest : List Kind) : (w ++ rest).headD .eof = .symbol .lparen := by
  obtain ⟨tail, rfl⟩ := h.starts
  rfl

theorem noDeclarator_symbol {s : Symbol} (hs : s ≠ .lbracket) (rest : List Kind) :
    NoDeclarator (.symbol s :: rest) :=
  ⟨nofun, .of_head fun heq => hs (Kind.symbol.inj heq)⟩

theorem AtomPhrase.noDecl {w rest : List Kind} {e : Expr} (hrest : NoDeclarator rest) :
    AtomPhrase w e → declHead (w ++ rest) = false
  | .int _ | .true_ | .false_ | .null | .this | .parens _ | .newObject | .newArray _ _ => rfl
  | .var => hrest.declHead_ident _
  | .call h => by
    obtain ⟨args, rfl⟩ := h.starts
    exact (noDeclarator_symbol (by simp) _).declHead_ident _

theorem PostfixPhrase.noDecl {w : List Kind} {e : Expr} : PostfixPhrase w e →
    ∀ {rest}, NoDeclarator rest → declHead (w ++ rest) = false
  | .atom h, _, hrest => h.noDecl hrest
  | .call h _, _, _ | .length h, _, _ | .field h _, _, _ => by
    rw [List.append_assoc]
    exact h.noDecl (noDeclarator_symbol (by simp) _)
  | .index h hi, rest, _ => by
    rw [List.append_assoc, List.cons_append, List.append_assoc]
    exact h.noDecl ⟨nofun, hi.noBrackets _⟩

theorem UnaryPhrase.noDecl {w rest : List Kind} {e : Expr} (hrest : NoDeclarator rest) :
    UnaryPhrase w e → declHead (w ++ rest) = false
  | .suffixed h => h.noDecl hrest
  | .unary _ _ | .least => rfl

/-- **An expression never starts like a declaration.** -/
theorem BinaryPhrase.noDecl {level : Nat} {w : List Kind} {e : Expr} : BinaryPhrase level w e →
    ∀ {rest}, NoDeclarator rest → declHead (w ++ rest) = false
  | .unary h, _, hrest => h.noDecl hrest
  | .binary op _ h _, _, _ => by
    rw [List.append_assoc]
    exact h.noDecl (noDeclarator_symbol (by cases op <;> simp [BinaryOp.symbol]) _)

/-! ## Declarations and statements -/

theorem TypeExpr.startsType_base (ty : TypeExpr) : startsType ty.base = true := by
  induction ty with
  | array elem ih => exact ih
  | _ => rfl

theorem VarDecl.starts (var : VarDecl) : Starts startsType var.kinds :=
  ⟨_, _, rfl, var.ty.startsType_base⟩

theorem starts_paramKinds {params : List VarDecl} (hne : params ≠ []) :
    Starts startsType (paramKinds params) := by
  match params, hne with
  | [param], _ => exact param.starts
  | param :: next :: rest, _ => exact param.starts.append _

/-- **A declaration starts like one.** -/
theorem VarDecl.declHead_kinds (var : VarDecl) (rest : List Kind) :
    declHead (var.kinds ++ rest) = true := by
  obtain ⟨n, elem, hpairs, hty⟩ := var.ty.exists_arrays
  rw [VarDecl.kinds, TypeExpr.kinds, hty, TypeExpr.base_arrays, TypeExpr.pairs_arrays, hpairs]
  cases elem with
  | int => rfl
  | bool => rfl
  | array inner => cases hpairs
  | class_ name => cases n <;> rfl

/-- Can a statement start with the token? -/
def startsStmt (k : Kind) : Bool :=
  startsExpr k || startsType k || k ∈ [.symbol .lbrace, .keyword .if_, .keyword .while_, .keyword .return_]

theorem BlockPhrase.starts {w : List Kind} {b : Block} :
    BlockPhrase w b → ∃ rest, w = .symbol .lbrace :: rest
  | .mk _ => ⟨_, rfl⟩

/-- **What a statement starts with.** -/
theorem StmtPhrase.starts {w : List Kind} {s : Stmt} : StmtPhrase w s → Starts startsStmt w
  | .block h => by
    obtain ⟨rest, rfl⟩ := h.starts
    exact ⟨_, _, rfl, rfl⟩
  | .decl var => (var.starts.append _).mono fun k hk => by simp [startsStmt, hk]
  | .assign h _ | .expr h => (h.starts.append _).mono fun k hk => by simp [startsStmt, hk]
  | .ifThen _ _ | .ifElse _ _ _ _ | .loop _ _ | .ret _ => ⟨_, _, rfl, rfl⟩

/-- No `else` follows a statement in a block. -/
theorem StmtsPhrase.noElse {w : List Kind} {stmts : List Stmt} (h : StmtsPhrase w stmts)
    (rest : List Kind) : (w ++ .symbol .rbrace :: rest).headD .eof ≠ .keyword .else_ := by
  cases h with
  | nil => simp
  | cons hs hrest =>
    rw [List.append_assoc]
    exact hs.starts.ne (by decide) _

theorem FunctionPhrase.starts {w : List Kind} {f : FunctionDecl} :
    FunctionPhrase w f → Starts startsType w
  | .mk _ => ⟨_, _, rfl, f.returnType.startsType_base⟩

theorem MemberPhrase.starts {w : List Kind} {m : Member} : MemberPhrase w m → Starts startsType w
  | .field var => var.starts.append _
  | .method h => h.starts

theorem ClassPhrase.starts {w : List Kind} {c : ClassDecl} :
    ClassPhrase w c → ∃ rest, w = .keyword .class_ :: rest
  | .mk _ _ _ => ⟨_, rfl⟩

end ClassLang.Source
