import ClassLang.Source.Tree
/-!
# Source — trees with all positions

`Program.positioned` gives every node without a position that of the nearest
node around it that has one, up to the program, or else the origin. The other
nodes keep theirs.
-/


namespace ClassLang.Source

/-- A mark with its position, or else the one around it. -/
def Mark.positioned (outer : Pos) (m : Mark) : Mark := { m with pos := some (m.pos.getD outer) }

/-- A variable with its position, or else the one around it. -/
def VarDecl.positioned (outer : Pos) (v : VarDecl) : VarDecl :=
  { v with pos := some (v.pos.getD outer) }

/-! ## Expressions and places -/

mutual

/-- An expression with all positions, given the one around it. -/
def Expr.positioned (outer : Pos) : Expr → Expr
  | .int m value => .int (m.positioned outer) value
  | .bool m value => .bool (m.positioned outer) value
  | .null m => .null (m.positioned outer)
  | .this m => .this (m.positioned outer)
  | .read m place => .read (m.positioned outer) (place.positioned (m.pos.getD outer))
  | .arrayLength m array =>
    .arrayLength (m.positioned outer) (array.positioned (m.pos.getD outer))
  | .unary m op operand => .unary (m.positioned outer) op (operand.positioned (m.pos.getD outer))
  | .binary m op lhs rhs =>
    .binary (m.positioned outer) op (lhs.positioned (m.pos.getD outer))
      (rhs.positioned (m.pos.getD outer))
  | .call m name args => .call (m.positioned outer) name (positionedArgs (m.pos.getD outer) args)
  | .methodCall m receiver method args =>
    .methodCall (m.positioned outer) (receiver.positioned (m.pos.getD outer)) method
      (positionedArgs (m.pos.getD outer) args)
  | .newObject m class_ => .newObject (m.positioned outer) class_
  | .newArray m elem size =>
    .newArray (m.positioned outer) elem (size.positioned (m.pos.getD outer))

/-- A place with all positions, given the one around it. -/
def Place.positioned (outer : Pos) : Place → Place
  | .var m name => .var (m.positioned outer) name
  | .field m receiver name =>
    .field (m.positioned outer) (receiver.positioned (m.pos.getD outer)) name
  | .index m array index =>
    .index (m.positioned outer) (array.positioned (m.pos.getD outer))
      (index.positioned (m.pos.getD outer))

/-- Arguments with all positions, given the one around them. -/
def positionedArgs (outer : Pos) : List Expr → List Expr
  | [] => []
  | arg :: args => arg.positioned outer :: positionedArgs outer args

end

@[simp] theorem Expr.mark_positioned (outer : Pos) (e : Expr) :
    (e.positioned outer).mark = e.mark.positioned outer := by
  cases e <;> rfl

/-! ## Statements -/

mutual

/-- A statement with all positions, given the one around it. -/
def Stmt.positioned (outer : Pos) : Stmt → Stmt
  | .block pos body =>
    .block (some (pos.getD outer)) (body.positioned (pos.getD outer))
  | .decl pos var => .decl (some (pos.getD outer)) (var.positioned (pos.getD outer))
  | .assign pos target value =>
    .assign (some (pos.getD outer)) (target.positioned (pos.getD outer))
      (value.positioned (pos.getD outer))
  | .expr pos value => .expr (some (pos.getD outer)) (value.positioned (pos.getD outer))
  | .ifThen pos cond body =>
    .ifThen (some (pos.getD outer)) (cond.positioned (pos.getD outer))
      (body.positioned (pos.getD outer))
  | .ifElse pos cond yes no =>
    .ifElse (some (pos.getD outer)) (cond.positioned (pos.getD outer))
      (yes.positioned (pos.getD outer)) (no.positioned (pos.getD outer))
  | .loop pos cond body =>
    .loop (some (pos.getD outer)) (cond.positioned (pos.getD outer))
      (body.positioned (pos.getD outer))
  | .ret pos value => .ret (some (pos.getD outer)) (value.positioned (pos.getD outer))

/-- A block with all positions, given the one around it. -/
def Block.positioned (outer : Pos) : Block → Block
  | .mk stmts pos => .mk (positionedStmts (pos.getD outer) stmts) (some (pos.getD outer))

/-- Statements with all positions, given the one around them. -/
def positionedStmts (outer : Pos) : List Stmt → List Stmt
  | [] => []
  | s :: rest => s.positioned outer :: positionedStmts outer rest

end

theorem positionedStmts_eq_map (outer : Pos) (stmts : List Stmt) :
    positionedStmts outer stmts = stmts.map (·.positioned outer) := by
  induction stmts with
  | nil => rfl
  | cons s rest ih => rw [positionedStmts, ih, List.map_cons]

theorem Stmt.isReturn_positioned (outer : Pos) (s : Stmt) :
    (s.positioned outer).isReturn = s.isReturn := by
  cases s <;> rfl

/-- A block ends in a return as before. -/
theorem Block.isReturn_positioned (outer : Pos) (body : Block) :
    (body.positioned outer).stmts.getLast?.any Stmt.isReturn =
      body.stmts.getLast?.any Stmt.isReturn := by
  obtain ⟨stmts, pos⟩ := body
  rw [Block.positioned, Block.stmts, Block.stmts, positionedStmts_eq_map, List.getLast?_map,
    Option.any_map]
  simp only [Stmt.isReturn_positioned]

/-! ## Declarations -/

/-- A function or a method with all positions, given the one around it. -/
def FunctionDecl.positioned (outer : Pos) (f : FunctionDecl) : FunctionDecl :=
  { f with
    params := f.params.map (·.positioned (f.pos.getD outer))
    body := f.body.positioned (f.pos.getD outer)
    pos := some (f.pos.getD outer) }

/-- A class with all positions, given the one around it. -/
def ClassDecl.positioned (outer : Pos) (c : ClassDecl) : ClassDecl :=
  { c with
    fields := c.fields.map (·.positioned (c.pos.getD outer))
    methods := c.methods.map (·.positioned (c.pos.getD outer))
    pos := some (c.pos.getD outer) }

/-- **A program with all positions**: every node has its own, or else that of the
nearest node around it that has one. -/
def Program.positioned (p : Program) : Program where
  functions := p.functions.map (·.positioned (p.pos.getD .origin))
  classes := p.classes.map (·.positioned (p.pos.getD .origin))
  pos := some (p.pos.getD .origin)

end ClassLang.Source
