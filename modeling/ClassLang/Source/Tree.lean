import ClassLang.Text.Span
/-!
# Source — the tree of a program

A program is a list of functions and a list of classes, each in the order
of its declarations. The nodes that later stages speak about
(expressions, places, variables, functions and classes) carry an identity,
and every node may carry a position.
-/


namespace ClassLang.Source

/-- What tells the nodes of one program apart. -/
abbrev NodeId := Nat

/-- A type as it is written; two types are the same if they are written
the same. -/
inductive TypeExpr
  | int
  | bool
  | class_ (name : String)
  | array (elem : TypeExpr)
deriving DecidableEq, Repr, Inhabited

/-- How a type is written. -/
def TypeExpr.text : TypeExpr → String
  | int => "int"
  | bool => "boolean"
  | class_ name => name
  | array elem => elem.text ++ "[]"

/-- A parameter, a local variable or a field. -/
structure VarDecl where
  id : NodeId
  ty : TypeExpr
  name : String
  pos : Option Pos
deriving DecidableEq, Repr

/-- Operators in front of their operand. -/
inductive UnaryOp
  | minus
  | negate
deriving DecidableEq, Repr

/-- Operators between their operands. -/
inductive BinaryOp
  | plus
  | minus
  | times
  | div
  | less
  | equals
  | and
deriving DecidableEq, Repr

/-- The identity and the position of an expression or a place. -/
structure Mark where
  id : NodeId
  pos : Option Pos
deriving DecidableEq, Repr

mutual

/-- Expressions. -/
inductive Expr
  | int (mark : Mark) (value : Int32)
  | bool (mark : Mark) (value : Bool)
  | null (mark : Mark)
  | this (mark : Mark)
  /-- The value of a variable, a field or an element. -/
  | read (mark : Mark) (place : Place)
  | arrayLength (mark : Mark) (array : Expr)
  | unary (mark : Mark) (op : UnaryOp) (operand : Expr)
  | binary (mark : Mark) (op : BinaryOp) (lhs rhs : Expr)
  /-- A call of a function or a built-in. -/
  | call (mark : Mark) (name : String) (args : List Expr)
  | methodCall (mark : Mark) (receiver : Expr) (method : String) (args : List Expr)
  | newObject (mark : Mark) (class_ : String)
  /-- A new array of `size` elements of type `elem`. -/
  | newArray (mark : Mark) (elem : TypeExpr) (size : Expr)

/-- What can be read and assigned. -/
inductive Place
  /-- A bare name: a local variable, a parameter, or a field of `this`. -/
  | var (mark : Mark) (name : String)
  | field (mark : Mark) (receiver : Expr) (name : String)
  | index (mark : Mark) (array index : Expr)

end

/-- The identity and position of an expression. -/
def Expr.mark : Expr → Mark
  | int m _ | bool m _ | null m | this m | read m _ | arrayLength m _ | unary m _ _
  | binary m _ _ _ | call m _ _ | methodCall m _ _ _ | newObject m _ | newArray m _ _ => m

/-- The identity and position of a place. -/
def Place.mark : Place → Mark
  | var m _ | field m _ _ | index m _ _ => m

/-- The identity of an expression. -/
abbrev Expr.id (e : Expr) : NodeId := e.mark.id

/-- The identity of a place. -/
abbrev Place.id (p : Place) : NodeId := p.mark.id

mutual

/-- Statements. -/
inductive Stmt
  | block (pos : Option Pos) (body : Block)
  | decl (pos : Option Pos) (var : VarDecl)
  | assign (pos : Option Pos) (target : Place) (value : Expr)
  | expr (pos : Option Pos) (value : Expr)
  | ifThen (pos : Option Pos) (cond : Expr) (body : Stmt)
  | ifElse (pos : Option Pos) (cond : Expr) (yes no : Stmt)
  | loop (pos : Option Pos) (cond : Expr) (body : Stmt)
  | ret (pos : Option Pos) (value : Expr)

/-- Statements between braces. -/
inductive Block
  | mk (stmts : List Stmt) (pos : Option Pos)

end

/-- The position of a statement. -/
def Stmt.pos : Stmt → Option Pos
  | block p _ | decl p _ | assign p _ _ | expr p _ | ifThen p _ _ | ifElse p _ _ _
  | loop p _ _ | ret p _ => p

/-- Is the statement a return? -/
def Stmt.isReturn : Stmt → Bool
  | ret _ _ => true
  | _ => false

/-- The statements of a block. -/
def Block.stmts : Block → List Stmt
  | mk stmts _ => stmts

/-- The position of a block. -/
def Block.pos : Block → Option Pos
  | mk _ pos => pos

mutual

/-- The variables declared anywhere in a statement, in source order. -/
def Stmt.varDecls : Stmt → List VarDecl
  | .block _ (.mk stmts _) => listVarDecls stmts
  | .decl _ var => [var]
  | .ifThen _ _ body => body.varDecls
  | .ifElse _ _ yes no => yes.varDecls ++ no.varDecls
  | .loop _ _ body => body.varDecls
  | .assign _ _ _ | .expr _ _ | .ret _ _ => []

/-- The variables declared anywhere in a list of statements. -/
def listVarDecls : List Stmt → List VarDecl
  | [] => []
  | s :: rest => s.varDecls ++ listVarDecls rest

end

/-- The variables declared anywhere in a block, in source order. -/
def Block.varDecls (b : Block) : List VarDecl := listVarDecls b.stmts

/-- A free function or a method. -/
structure FunctionDecl where
  id : NodeId
  returnType : TypeExpr
  name : String
  params : List VarDecl
  body : Block
  pos : Option Pos

/-- A class; `extends` names its superclass. -/
structure ClassDecl where
  id : NodeId
  name : String
  extends? : Option String
  fields : List VarDecl
  methods : List FunctionDecl
  pos : Option Pos

/-- A whole program. -/
structure Program where
  functions : List FunctionDecl
  classes : List ClassDecl
  pos : Option Pos

/-- The first function of a name. -/
def Program.function? (p : Program) (name : String) : Option FunctionDecl :=
  p.functions.find? (·.name == name)

/-- The first class of a name. -/
def Program.class? (p : Program) (name : String) : Option ClassDecl :=
  p.classes.find? (·.name == name)

end ClassLang.Source
