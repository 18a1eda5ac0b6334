import ClassLang.Source.Tree
/-!
# Source — trees without positions

A tree that was built by other means than reading a text may lack
positions. `Program.erase` takes the positions of chosen kinds of node
away, at every depth, and leaves everything else as it is.
-/


namespace ClassLang.Source

/-- The kinds of node that carry a position. -/
inductive NodeKind
  | program
  | class_
  | field
  | method
  | function
  | param
  /-- A local variable; the statement around it is a `stmt`. -/
  | local_
  | block
  | stmt
  | expr
  | place
deriving DecidableEq, Repr

namespace NodeKind

/-- All kinds of node. -/
def all : List NodeKind :=
  [program, class_, field, method, function, param, local_, block, stmt, expr, place]

/-- How a kind of node is called. -/
def name : NodeKind → String
  | program => "program"
  | class_ => "class"
  | field => "field"
  | method => "method"
  | function => "function"
  | param => "param"
  | local_ => "local"
  | block => "block"
  | stmt => "stmt"
  | expr => "expr"
  | place => "place"

/-- The kind of node with a name. -/
def ofString? (s : String) : Option NodeKind := all.find? (·.name == s)

end NodeKind

variable (kinds : List NodeKind)

/-- A position, unless nodes of this kind lose theirs. -/
def keep (kind : NodeKind) (pos : Option Pos) : Option Pos :=
  if kind ∈ kinds then none else pos

/-- A mark, without position if nodes of this kind lose theirs. -/
def Mark.erase (kind : NodeKind) (m : Mark) : Mark := ⟨m.id, keep kinds kind m.pos⟩

/-- A variable without the chosen positions. -/
def VarDecl.erase (kind : NodeKind) (v : VarDecl) : VarDecl :=
  { v with pos := keep kinds kind v.pos }

mutual

/-- An expression without the chosen positions. -/
def Expr.erase : Expr → Expr
  | .int m value => .int (m.erase kinds .expr) value
  | .bool m value => .bool (m.erase kinds .expr) value
  | .null m => .null (m.erase kinds .expr)
  | .this m => .this (m.erase kinds .expr)
  | .read m place => .read (m.erase kinds .expr) place.erase
  | .arrayLength m array => .arrayLength (m.erase kinds .expr) array.erase
  | .unary m op operand => .unary (m.erase kinds .expr) op operand.erase
  | .binary m op lhs rhs => .binary (m.erase kinds .expr) op lhs.erase rhs.erase
  | .call m name args => .call (m.erase kinds .expr) name (eraseExprs args)
  | .methodCall m receiver method args =>
    .methodCall (m.erase kinds .expr) receiver.erase method (eraseExprs args)
  | .newObject m class_ => .newObject (m.erase kinds .expr) class_
  | .newArray m elem size => .newArray (m.erase kinds .expr) elem size.erase

/-- A place without the chosen positions. -/
def Place.erase : Place → Place
  | .var m name => .var (m.erase kinds .place) name
  | .field m receiver name => .field (m.erase kinds .place) receiver.erase name
  | .index m array index => .index (m.erase kinds .place) array.erase index.erase

/-- Expressions without the chosen positions. -/
def eraseExprs : List Expr → List Expr
  | [] => []
  | e :: rest => e.erase :: eraseExprs rest

end

mutual

/-- A statement without the chosen positions. -/
def Stmt.erase : Stmt → Stmt
  | .block pos body => .block (keep kinds .stmt pos) body.erase
  | .decl pos var => .decl (keep kinds .stmt pos) (var.erase kinds .local_)
  | .assign pos target value =>
    .assign (keep kinds .stmt pos) (target.erase kinds) (value.erase kinds)
  | .expr pos value => .expr (keep kinds .stmt pos) (value.erase kinds)
  | .ifThen pos cond body => .ifThen (keep kinds .stmt pos) (cond.erase kinds) body.erase
  | .ifElse pos cond yes no =>
    .ifElse (keep kinds .stmt pos) (cond.erase kinds) yes.erase no.erase
  | .loop pos cond body => .loop (keep kinds .stmt pos) (cond.erase kinds) body.erase
  | .ret pos value => .ret (keep kinds .stmt pos) (value.erase kinds)

/-- A block without the chosen positions. -/
def Block.erase : Block → Block
  | .mk stmts pos => .mk (eraseStmts stmts) (keep kinds .block pos)

/-- Statements without the chosen positions. -/
def eraseStmts : List Stmt → List Stmt
  | [] => []
  | s :: rest => s.erase :: eraseStmts rest

end

/-- A function or method without the chosen positions. -/
def FunctionDecl.erase (kind : NodeKind) (f : FunctionDecl) : FunctionDecl :=
  { f with
    params := f.params.map (·.erase kinds .param)
    body := f.body.erase kinds
    pos := keep kinds kind f.pos }

/-- A class without the chosen positions. -/
def ClassDecl.erase (c : ClassDecl) : ClassDecl :=
  { c with
    fields := c.fields.map (·.erase kinds .field)
    methods := c.methods.map (·.erase kinds .method)
    pos := keep kinds .class_ c.pos }

/-- A program without the positions of the chosen kinds of node. -/
def Program.erase (p : Program) : Program where
  functions := p.functions.map (·.erase kinds .function)
  classes := p.classes.map (·.erase kinds)
  pos := keep kinds .program p.pos

end ClassLang.Source
