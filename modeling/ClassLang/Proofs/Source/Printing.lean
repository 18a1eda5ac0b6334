import ClassLang.Proofs.Source.Phrases
import ClassLang.Proofs.Token.Spelling
/-!
# Source — printing programs

A tree is printed with parentheses around those operands and receivers only that
do not hold together as tightly as their place asks for. Not every tree can
be read from a text: its names have to be identifiers, its integers literals
with or without a minus, and an `else` must not have a nearer `if` than its
own. These are the printable trees.
-/


namespace ClassLang.Source

open Token (Kind)

/-! ## Expressions -/

/-- The level of what needs no parentheses in any place. -/
def suffixedLevel : Nat := UnaryOp.level + 1

/-- How tightly an expression holds together. The least integer is written
with a minus. -/
def Expr.level : Expr → Nat
  | binary _ op _ _ => op.level
  | unary _ _ _ => UnaryOp.level
  | int _ value => if 0 ≤ value then suffixedLevel else UnaryOp.level
  | bool _ _ | null _ | this _ | read _ _ | arrayLength _ _ | call _ _ _ | methodCall _ _ _ _
  | newObject _ _ | newArray _ _ _ => suffixedLevel

/-- What is printed for an expression of a level: it stands between parentheses
if its place asks for more. -/
def enclosed (wanted level : Nat) (w : List Kind) : List Kind :=
  if level < wanted then .symbol .lparen :: (w ++ [.symbol .rparen]) else w

/-- The tokens of an integer. -/
def intKinds (value : Int32) : List Kind :=
  let digits := Kind.integer (toString value.toInt.natAbs)
  if 0 ≤ value then [digits] else [.symbol .minus, digits]

mutual

/-- The tokens of an expression. -/
def Expr.kinds : Expr → List Kind
  | .int _ value => intKinds value
  | .bool _ value => [.keyword (if value then .true_ else .false_)]
  | .null _ => [.keyword .null]
  | .this _ => [.keyword .this]
  | .read _ place => place.kinds
  | .arrayLength _ array =>
    enclosed suffixedLevel array.level array.kinds ++ [.symbol .dot, .ident "length"]
  | .unary _ op operand =>
    .symbol op.symbol :: enclosed UnaryOp.level operand.level operand.kinds
  | .binary _ op lhs rhs => enclosed op.level lhs.level lhs.kinds ++
      .symbol op.symbol :: enclosed (op.level + 1) rhs.level rhs.kinds
  | .call _ name args => .ident name :: .symbol .lparen :: (argKinds args ++ [.symbol .rparen])
  | .methodCall _ receiver method args => enclosed suffixedLevel receiver.level receiver.kinds ++
      .symbol .dot :: .ident method :: .symbol .lparen :: (argKinds args ++ [.symbol .rparen])
  | .newObject _ name => [.keyword .new, .ident name, .symbol .lparen, .symbol .rparen]
  | .newArray _ elem size => .keyword .new :: elem.base :: .symbol .lbracket ::
      (size.kinds ++ .symbol .rbracket :: elem.pairs)

/-- The tokens of a place. -/
def Place.kinds : Place → List Kind
  | .var _ name => [.ident name]
  | .field _ receiver name =>
    enclosed suffixedLevel receiver.level receiver.kinds ++ [.symbol .dot, .ident name]
  | .index _ array index => enclosed suffixedLevel array.level array.kinds ++
      .symbol .lbracket :: (index.kinds ++ [.symbol .rbracket])

/-- The tokens of arguments. -/
def argKinds : List Expr → List Kind
  | [] => []
  | [e] => e.kinds
  | e :: next :: rest => e.kinds ++ .symbol .comma :: argKinds (next :: rest)

end

/-- The names in the type are identifiers. -/
def TypeExpr.Printable : TypeExpr → Prop
  | int | bool => True
  | class_ name => IsName name
  | array elem => elem.Printable

mutual

/-- The expression can be read: its names are identifiers, its integers are
none below zero but the least one, and no field is called `length`. -/
def Expr.Printable : Expr → Prop
  | .int _ value => 0 ≤ value ∨ value = Int32.minValue
  | .bool _ _ | .null _ | .this _ => True
  | .read _ place => place.Printable
  | .arrayLength _ array => array.Printable
  | .unary _ _ operand => operand.Printable
  | .binary _ _ lhs rhs => lhs.Printable ∧ rhs.Printable
  | .call _ name args => IsName name ∧ PrintableArgs args
  | .methodCall _ receiver method args =>
    receiver.Printable ∧ IsName method ∧ PrintableArgs args
  | .newObject _ name => IsName name
  | .newArray _ elem size => elem.Printable ∧ size.Printable

/-- The place can be read. -/
def Place.Printable : Place → Prop
  | .var _ name => IsName name
  | .field _ receiver name => receiver.Printable ∧ IsName name ∧ name ≠ "length"
  | .index _ array index => array.Printable ∧ index.Printable

/-- The arguments can be read. -/
def PrintableArgs : List Expr → Prop
  | [] => True
  | e :: rest => e.Printable ∧ PrintableArgs rest

end

/-! ## Statements -/

mutual

/-- The tokens of a statement. -/
def Stmt.kinds : Stmt → List Kind
  | .block _ (.mk stmts _) => .symbol .lbrace :: (stmtKinds stmts ++ [.symbol .rbrace])
  | .decl _ var => var.kinds ++ [.symbol .semicolon]
  | .assign _ target value =>
    target.kinds ++ .symbol .assign :: (value.kinds ++ [.symbol .semicolon])
  | .expr _ value => value.kinds ++ [.symbol .semicolon]
  | .ifThen _ cond body =>
    .keyword .if_ :: .symbol .lparen :: (cond.kinds ++ .symbol .rparen :: body.kinds)
  | .ifElse _ cond yes no => .keyword .if_ :: .symbol .lparen ::
      (cond.kinds ++ .symbol .rparen :: (yes.kinds ++ .keyword .else_ :: no.kinds))
  | .loop _ cond body =>
    .keyword .while_ :: .symbol .lparen :: (cond.kinds ++ .symbol .rparen :: body.kinds)
  | .ret _ value => .keyword .return_ :: (value.kinds ++ [.symbol .semicolon])

/-- The tokens of statements. -/
def stmtKinds : List Stmt → List Kind
  | [] => []
  | s :: rest => s.kinds ++ stmtKinds rest

end

/-- The tokens of a block. -/
def Block.kinds (b : Block) : List Kind :=
  .symbol .lbrace :: (stmtKinds b.stmts ++ [.symbol .rbrace])

/-- The type and the name of the variable can be read. -/
structure VarDecl.Printable (var : VarDecl) : Prop where
  ty : var.ty.Printable
  name : IsName var.name

mutual

/-- The statement can be read: what is in it can, and no branch in front of an
`else` ends in an `if` without one. -/
def Stmt.Printable : Stmt → Prop
  | .block _ (.mk stmts _) => PrintableStmts stmts
  | .decl _ var => var.Printable
  | .assign _ target value => target.Printable ∧ value.Printable
  | .expr _ value => value.Printable
  | .ifThen _ cond body => cond.Printable ∧ body.Printable
  | .ifElse _ cond yes no =>
    cond.Printable ∧ yes.Printable ∧ yes.openEnd = false ∧ no.Printable
  | .loop _ cond body => cond.Printable ∧ body.Printable
  | .ret _ value => value.Printable

/-- The statements can be read. -/
def PrintableStmts : List Stmt → Prop
  | [] => True
  | s :: rest => s.Printable ∧ PrintableStmts rest

end

/-! ## Declarations -/

/-- The tokens of a function. -/
def FunctionDecl.kinds (f : FunctionDecl) : List Kind :=
  f.returnType.kinds ++ .ident f.name :: .symbol .lparen ::
    (paramKinds f.params ++ .symbol .rparen :: f.body.kinds)

/-- The tokens of a class, the fields in front of the methods. -/
def ClassDecl.kinds (c : ClassDecl) : List Kind :=
  .keyword .class_ :: .ident c.name :: (extendsKinds c.extends? ++ .symbol .lbrace ::
    (c.fields.flatMap (fun var => var.kinds ++ [.symbol .semicolon]) ++
      c.methods.flatMap FunctionDecl.kinds ++ [.symbol .rbrace]))

/-- The tokens of a program. -/
def Program.kinds (p : Program) : List Kind :=
  p.functions.flatMap FunctionDecl.kinds ++ p.classes.flatMap ClassDecl.kinds

/-- **The text of a program.** -/
def Program.print (p : Program) : String := spell p.kinds

/-- What is in the function can be read. -/
structure FunctionDecl.Printable (f : FunctionDecl) : Prop where
  returnType : f.returnType.Printable
  name : IsName f.name
  params : ∀ param ∈ f.params, param.Printable
  body : PrintableStmts f.body.stmts

/-- What is in the class can be read. -/
structure ClassDecl.Printable (c : ClassDecl) : Prop where
  name : IsName c.name
  extends? : ∀ name, c.extends? = some name → IsName name
  fields : ∀ var ∈ c.fields, var.Printable
  methods : ∀ m ∈ c.methods, m.Printable

/-- **The program can be read**: what is in it can. -/
structure Program.Printable (p : Program) : Prop where
  functions : ∀ f ∈ p.functions, f.Printable
  classes : ∀ c ∈ p.classes, c.Printable

end ClassLang.Source
