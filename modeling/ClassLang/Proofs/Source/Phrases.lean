import ClassLang.Source.Parse.Program
/-!
# Source — phrases

A phrase is a list of tokens together with the tree that it is written for.
The rules have one case for each way to write a node; parentheses change
nothing about the tree. An operator at the end of an operand binds as its level
says, and an `else` belongs to the nearest `if`, so there is one tree for each
list of tokens that the parser takes. Identities and positions in the trees
are left open.
-/


namespace ClassLang.Source

open Token (Kind)

/-! ## Types and variables -/

/-- The token of the type inside of all brackets. -/
def TypeExpr.base : TypeExpr → Kind
  | int => .keyword .int
  | bool => .keyword .boolean
  | class_ name => .ident name
  | array elem => elem.base

/-- The bracket pairs of a type. -/
def TypeExpr.pairs : TypeExpr → List Kind
  | int | bool | class_ _ => []
  | array elem => .symbol .lbracket :: .symbol .rbracket :: elem.pairs

/-- A number of bracket pairs. -/
def brackets : Nat → List Kind
  | 0 => []
  | n + 1 => .symbol .lbracket :: .symbol .rbracket :: brackets n

/-- The type of arrays of arrays of a type, as deep as `n` says. -/
def TypeExpr.arrays : Nat → TypeExpr → TypeExpr
  | 0, ty => ty
  | n + 1, ty => array (arrays n ty)

theorem TypeExpr.arrays_array (n : Nat) (ty : TypeExpr) :
    arrays n (array ty) = array (arrays n ty) := by
  induction n with
  | zero => rfl
  | succ n ih => rw [arrays, arrays, ih]

theorem TypeExpr.base_arrays (n : Nat) (ty : TypeExpr) : (arrays n ty).base = ty.base := by
  induction n with
  | zero => rfl
  | succ n ih => exact ih

theorem TypeExpr.pairs_arrays (n : Nat) (ty : TypeExpr) :
    (arrays n ty).pairs = brackets n ++ ty.pairs := by
  induction n with
  | zero => rfl
  | succ n ih => rw [arrays, pairs, ih, brackets, List.cons_append, List.cons_append]

/-- Every type is made of one without brackets. -/
theorem TypeExpr.exists_arrays (ty : TypeExpr) : ∃ n elem, elem.pairs = [] ∧ ty = arrays n elem := by
  induction ty with
  | array elem ih =>
    obtain ⟨n, inner, hpairs, rfl⟩ := ih
    exact ⟨n + 1, inner, hpairs, rfl⟩
  | int => exact ⟨0, int, rfl, rfl⟩
  | bool => exact ⟨0, bool, rfl, rfl⟩
  | class_ name => exact ⟨0, class_ name, rfl, rfl⟩

/-- The tokens of a type. -/
def TypeExpr.kinds (ty : TypeExpr) : List Kind := ty.base :: ty.pairs

/-- The tokens of a variable without what ends its declaration. -/
def VarDecl.kinds (var : VarDecl) : List Kind := var.ty.kinds ++ [.ident var.name]

/-- The tokens of parameters. -/
def paramKinds : List VarDecl → List Kind
  | [] => []
  | [param] => param.kinds
  | param :: rest => param.kinds ++ .symbol .comma :: paramKinds rest

/-! ## Expressions -/

/-- The symbol of an operator between its operands. -/
def BinaryOp.symbol : BinaryOp → Symbol
  | plus => .plus
  | minus => .minus
  | times => .star
  | div => .slash
  | less => .less
  | equals => .equals
  | and => .conj

/-- The symbol of an operator in front of its operand. -/
def UnaryOp.symbol : UnaryOp → Symbol
  | minus => .minus
  | negate => .bang

mutual

/-- Expressions whose binary operators outside parentheses bind at least as
tightly as the level. -/
inductive BinaryPhrase : Nat → List Kind → Expr → Prop
  | unary {level w e} : UnaryPhrase w e → BinaryPhrase level w e
  /-- The left operand may have operators of the same level, the right one
  has not. -/
  | binary {level u v m lhs rhs} (op : BinaryOp) : level ≤ op.level → BinaryPhrase op.level u lhs →
      BinaryPhrase (op.level + 1) v rhs →
      BinaryPhrase level (u ++ .symbol op.symbol :: v) (.binary m op lhs rhs)

/-- Expressions with operators in front. -/
inductive UnaryPhrase : List Kind → Expr → Prop
  | suffixed {w e} : PostfixPhrase w e → UnaryPhrase w e
  | unary {w m e} (op : UnaryOp) : UnaryPhrase w e → UnaryPhrase (.symbol op.symbol :: w) (.unary m op e)
  | least {m} : UnaryPhrase [.symbol .minus, .integer leastMagnitude] (.int m Int32.minValue)

/-- Expressions with what follows an atom. -/
inductive PostfixPhrase : List Kind → Expr → Prop
  | atom {w e} : AtomPhrase w e → PostfixPhrase w e
  | call {u v m e name args} : PostfixPhrase u e → ArgsPhrase v args →
      PostfixPhrase (u ++ .symbol .dot :: .ident name :: v) (.methodCall m e name args)
  | length {u m e} : PostfixPhrase u e →
      PostfixPhrase (u ++ [.symbol .dot, .ident "length"]) (.arrayLength m e)
  | field {u m m' e name} : PostfixPhrase u e → name ≠ "length" →
      PostfixPhrase (u ++ [.symbol .dot, .ident name]) (.read m (.field m' e name))
  | index {u v m m' e i} : PostfixPhrase u e → BinaryPhrase 0 v i →
      PostfixPhrase (u ++ .symbol .lbracket :: (v ++ [.symbol .rbracket]))
        (.read m (.index m' e i))

/-- Literals, names, calls, expressions between parentheses, and new objects
and arrays. -/
inductive AtomPhrase : List Kind → Expr → Prop
  | int {m digits value} : literal? digits = some value →
      AtomPhrase [.integer digits] (.int m value)
  | true_ {m} : AtomPhrase [.keyword .true_] (.bool m true)
  | false_ {m} : AtomPhrase [.keyword .false_] (.bool m false)
  | null {m} : AtomPhrase [.keyword .null] (.null m)
  | this {m} : AtomPhrase [.keyword .this] (.this m)
  | var {m m' name} : AtomPhrase [.ident name] (.read m (.var m' name))
  | call {v m name args} : ArgsPhrase v args → AtomPhrase (.ident name :: v) (.call m name args)
  | parens {w e} : BinaryPhrase 0 w e →
      AtomPhrase (.symbol .lparen :: (w ++ [.symbol .rparen])) e
  | newObject {m name} : AtomPhrase
      [.keyword .new, .ident name, .symbol .lparen, .symbol .rparen] (.newObject m name)
  | newArray {v m size} (elem : TypeExpr) : BinaryPhrase 0 v size →
      AtomPhrase (.keyword .new :: elem.base :: .symbol .lbracket ::
        (v ++ .symbol .rbracket :: elem.pairs)) (.newArray m elem size)

/-- Arguments between parentheses. -/
inductive ArgsPhrase : List Kind → List Expr → Prop
  | nil : ArgsPhrase [.symbol .lparen, .symbol .rparen] []
  | list {w args} : ArgListPhrase w args → ArgsPhrase (.symbol .lparen :: w) args

/-- One or more arguments and the parenthesis that closes them. -/
inductive ArgListPhrase : List Kind → List Expr → Prop
  | one {w e} : BinaryPhrase 0 w e → ArgListPhrase (w ++ [.symbol .rparen]) [e]
  | cons {u v e args} : BinaryPhrase 0 u e → ArgListPhrase v args →
      ArgListPhrase (u ++ .symbol .comma :: v) (e :: args)

end

/-- A level that asks for less. -/
theorem BinaryPhrase.weaken {level level' : Nat} {w : List Kind} {e : Expr} (hle : level' ≤ level) :
    BinaryPhrase level w e → BinaryPhrase level' w e
  | .unary h => .unary h
  | .binary op hop hl hr => .binary op (Nat.le_trans hle hop) hl hr

/-! ## Statements -/

/-- Would an `else` behind the statement belong to an `if` at its end? -/
def Stmt.openEnd : Stmt → Bool
  | .ifThen _ _ _ => true
  | .ifElse _ _ _ no => no.openEnd
  | .loop _ _ body => body.openEnd
  | .block _ _ | .decl _ _ | .assign _ _ _ | .expr _ _ | .ret _ _ => false

mutual

/-- Statements. -/
inductive StmtPhrase : List Kind → Stmt → Prop
  | block {w pos body} : BlockPhrase w body → StmtPhrase w (.block pos body)
  | decl {pos} (var : VarDecl) : StmtPhrase (var.kinds ++ [.symbol .semicolon]) (.decl pos var)
  | assign {u v pos m target value} : BinaryPhrase 0 u (.read m target) → BinaryPhrase 0 v value →
      StmtPhrase (u ++ .symbol .assign :: (v ++ [.symbol .semicolon])) (.assign pos target value)
  | expr {w pos value} : BinaryPhrase 0 w value →
      StmtPhrase (w ++ [.symbol .semicolon]) (.expr pos value)
  | ifThen {u v pos cond body} : BinaryPhrase 0 u cond → StmtPhrase v body →
      StmtPhrase (.keyword .if_ :: .symbol .lparen :: (u ++ .symbol .rparen :: v))
        (.ifThen pos cond body)
  | ifElse {u v w pos cond yes no} : BinaryPhrase 0 u cond → StmtPhrase v yes →
      yes.openEnd = false → StmtPhrase w no →
      StmtPhrase (.keyword .if_ :: .symbol .lparen ::
        (u ++ .symbol .rparen :: (v ++ .keyword .else_ :: w))) (.ifElse pos cond yes no)
  | loop {u v pos cond body} : BinaryPhrase 0 u cond → StmtPhrase v body →
      StmtPhrase (.keyword .while_ :: .symbol .lparen :: (u ++ .symbol .rparen :: v))
        (.loop pos cond body)
  | ret {w pos value} : BinaryPhrase 0 w value →
      StmtPhrase (.keyword .return_ :: (w ++ [.symbol .semicolon])) (.ret pos value)

/-- Blocks. -/
inductive BlockPhrase : List Kind → Block → Prop
  | mk {w stmts pos} : StmtsPhrase w stmts →
      BlockPhrase (.symbol .lbrace :: (w ++ [.symbol .rbrace])) (.mk stmts pos)

/-- Statements in turn. -/
inductive StmtsPhrase : List Kind → List Stmt → Prop
  | nil : StmtsPhrase [] []
  | cons {u v s rest} : StmtPhrase u s → StmtsPhrase v rest → StmtsPhrase (u ++ v) (s :: rest)

end

/-! ## Declarations -/

/-- Phrases in turn. -/
inductive Phrases {α : Type} (R : List Kind → α → Prop) : List Kind → List α → Prop
  | nil : Phrases R [] []
  | cons {u v a rest} : R u a → Phrases R v rest → Phrases R (u ++ v) (a :: rest)

/-- Functions and methods. -/
inductive FunctionPhrase : List Kind → FunctionDecl → Prop
  | mk {w f} : BlockPhrase w f.body → FunctionPhrase (f.returnType.kinds ++ .ident f.name ::
      .symbol .lparen :: (paramKinds f.params ++ .symbol .rparen :: w)) f

/-- Fields and methods of a class. -/
inductive MemberPhrase : List Kind → Member → Prop
  | field (var : VarDecl) : MemberPhrase (var.kinds ++ [.symbol .semicolon]) (.field var)
  | method {w f} : FunctionPhrase w f → MemberPhrase w (.method f)

/-- The tokens that name a superclass. -/
def extendsKinds : Option String → List Kind
  | none => []
  | some name => [.keyword .extends_, .ident name]

/-- Classes: fields and methods may stand in any order. -/
inductive ClassPhrase : List Kind → ClassDecl → Prop
  | mk {w members c} : Phrases MemberPhrase w members →
      c.fields = members.filterMap Member.field? → c.methods = members.filterMap Member.method? →
      ClassPhrase (.keyword .class_ :: .ident c.name :: (extendsKinds c.extends? ++
        .symbol .lbrace :: (w ++ [.symbol .rbrace]))) c

/-- Functions and classes. -/
inductive ItemPhrase : List Kind → Item → Prop
  | function {w f} : FunctionPhrase w f → ItemPhrase w (.function f)
  | class_ {w c} : ClassPhrase w c → ItemPhrase w (.class_ c)

end ClassLang.Source
