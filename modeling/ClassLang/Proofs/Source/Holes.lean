import ClassLang.Proofs.Source.Parts
/-!
# Source — programs with a hole

An occurrence of an expression is the rest of the program around it: a program
with a hole where the expression stands. To replace the expression there is to
fill the hole with another one. The expressions that stand in a tree are those
that fill a hole of it (`Expr.mem_parts_iff`).
-/


namespace ClassLang.Source

mutual

/-- An expression with a hole. -/
inductive ExprHole
  /-- The hole itself. -/
  | here
  | read (mark : Mark) (place : PlaceHole)
  | arrayLength (mark : Mark) (array : ExprHole)
  | unary (mark : Mark) (op : UnaryOp) (operand : ExprHole)
  | lhs (mark : Mark) (op : BinaryOp) (lhs : ExprHole) (rhs : Expr)
  | rhs (mark : Mark) (op : BinaryOp) (lhs : Expr) (rhs : ExprHole)
  | call (mark : Mark) (name : String) (args : ArgsHole)
  | receiver (mark : Mark) (receiver : ExprHole) (method : String) (args : List Expr)
  | methodCall (mark : Mark) (receiver : Expr) (method : String) (args : ArgsHole)
  | newArray (mark : Mark) (elem : TypeExpr) (size : ExprHole)

/-- A place with a hole. -/
inductive PlaceHole
  | field (mark : Mark) (receiver : ExprHole) (name : String)
  | array (mark : Mark) (array : ExprHole) (index : Expr)
  | index (mark : Mark) (array : Expr) (index : ExprHole)

/-- Arguments with a hole. -/
inductive ArgsHole
  | head (arg : ExprHole) (rest : List Expr)
  | tail (arg : Expr) (rest : ArgsHole)

end

mutual

/-- The expression with `e` in its hole. -/
def ExprHole.fill (e : Expr) : ExprHole → Expr
  | .here => e
  | .read m place => .read m (place.fill e)
  | .arrayLength m array => .arrayLength m (array.fill e)
  | .unary m op operand => .unary m op (operand.fill e)
  | .lhs m op lhs rhs => .binary m op (lhs.fill e) rhs
  | .rhs m op lhs rhs => .binary m op lhs (rhs.fill e)
  | .call m name args => .call m name (args.fill e)
  | .receiver m receiver method args => .methodCall m (receiver.fill e) method args
  | .methodCall m receiver method args => .methodCall m receiver method (args.fill e)
  | .newArray m elem size => .newArray m elem (size.fill e)

/-- The place with `e` in its hole. -/
def PlaceHole.fill (e : Expr) : PlaceHole → Place
  | .field m receiver name => .field m (receiver.fill e) name
  | .array m array index => .index m (array.fill e) index
  | .index m array index => .index m array (index.fill e)

/-- The arguments with `e` in their hole. -/
def ArgsHole.fill (e : Expr) : ArgsHole → List Expr
  | .head arg rest => arg.fill e :: rest
  | .tail arg rest => arg :: rest.fill e

end

mutual

/-- A statement with a hole. -/
inductive StmtHole
  | block (pos : Option Pos) (stmts : StmtsHole) (bodyPos : Option Pos)
  | target (pos : Option Pos) (target : PlaceHole) (value : Expr)
  | assign (pos : Option Pos) (target : Place) (value : ExprHole)
  | expr (pos : Option Pos) (value : ExprHole)
  | ifCond (pos : Option Pos) (cond : ExprHole) (body : Stmt)
  | ifThen (pos : Option Pos) (cond : Expr) (body : StmtHole)
  | elseCond (pos : Option Pos) (cond : ExprHole) (yes no : Stmt)
  | yes (pos : Option Pos) (cond : Expr) (yes : StmtHole) (no : Stmt)
  | no (pos : Option Pos) (cond : Expr) (yes : Stmt) (no : StmtHole)
  | loopCond (pos : Option Pos) (cond : ExprHole) (body : Stmt)
  | loop (pos : Option Pos) (cond : Expr) (body : StmtHole)
  | ret (pos : Option Pos) (value : ExprHole)

/-- Statements with a hole. -/
inductive StmtsHole
  | head (s : StmtHole) (rest : List Stmt)
  | tail (s : Stmt) (rest : StmtsHole)

end

mutual

/-- The statement with `e` in its hole. -/
def StmtHole.fill (e : Expr) : StmtHole → Stmt
  | .block pos stmts bodyPos => .block pos (.mk (stmts.fill e) bodyPos)
  | .target pos target value => .assign pos (target.fill e) value
  | .assign pos target value => .assign pos target (value.fill e)
  | .expr pos value => .expr pos (value.fill e)
  | .ifCond pos cond body => .ifThen pos (cond.fill e) body
  | .ifThen pos cond body => .ifThen pos cond (body.fill e)
  | .elseCond pos cond yes no => .ifElse pos (cond.fill e) yes no
  | .yes pos cond yes no => .ifElse pos cond (yes.fill e) no
  | .no pos cond yes no => .ifElse pos cond yes (no.fill e)
  | .loopCond pos cond body => .loop pos (cond.fill e) body
  | .loop pos cond body => .loop pos cond (body.fill e)
  | .ret pos value => .ret pos (value.fill e)

/-- The statements with `e` in their hole. -/
def StmtsHole.fill (e : Expr) : StmtsHole → List Stmt
  | .head s rest => s.fill e :: rest
  | .tail s rest => s :: rest.fill e

end

/-- A function or a method with a hole in its body. -/
structure FunctionHole where
  id : NodeId
  returnType : TypeExpr
  name : String
  params : List VarDecl
  stmts : StmtsHole
  bodyPos : Option Pos
  pos : Option Pos

/-- The function with `e` in its hole. -/
def FunctionHole.fill (e : Expr) (g : FunctionHole) : FunctionDecl :=
  ⟨g.id, g.returnType, g.name, g.params, .mk (g.stmts.fill e) g.bodyPos, g.pos⟩

/-- A class with a hole in one of its methods. -/
structure ClassHole where
  id : NodeId
  name : String
  extends? : Option String
  fields : List VarDecl
  before : List FunctionDecl
  method : FunctionHole
  after : List FunctionDecl
  pos : Option Pos

/-- The class with `e` in its hole. -/
def ClassHole.fill (e : Expr) (c : ClassHole) : ClassDecl :=
  ⟨c.id, c.name, c.extends?, c.fields, c.before ++ c.method.fill e :: c.after, c.pos⟩

/-- **A program with a hole** in one of its bodies. -/
inductive ProgramHole
  | function (before : List FunctionDecl) (g : FunctionHole) (after : List FunctionDecl)
    (classes : List ClassDecl) (pos : Option Pos)
  | method (functions : List FunctionDecl) (before : List ClassDecl) (c : ClassHole)
    (after : List ClassDecl) (pos : Option Pos)

namespace ProgramHole

/-- The program with `e` in its hole. -/
def fill (e : Expr) : ProgramHole → Program
  | function before g after classes pos => ⟨before ++ g.fill e :: after, classes, pos⟩
  | method functions before c after pos => ⟨functions, before ++ c.fill e :: after, pos⟩

/-- The class whose method the hole is in. -/
def owner : ProgramHole → Option Nat
  | function _ _ _ _ _ => none
  | method _ before _ _ _ => some before.length

end ProgramHole

/-- What stands around the hole keeps its position. -/
theorem ExprHole.pos_fill {e e' : Expr} (h : e'.mark.pos = e.mark.pos) (x : ExprHole) :
    (x.fill e').mark.pos = (x.fill e).mark.pos := by
  cases x with
  | here => exact h
  | read | arrayLength | unary | lhs | rhs | call | receiver | methodCall | newArray => rfl

/-! ## Parts and holes -/

theorem Expr.mem_parts_self (e : Expr) : .expr e ∈ e.parts := by
  cases e <;> exact List.mem_cons_self

mutual

/-- **What fills the hole** of an expression is a part of it. -/
theorem ExprHole.mem_parts_fill (e : Expr) : (hole : ExprHole) → .expr e ∈ (hole.fill e).parts
  | .here => e.mem_parts_self
  | .read _ place => .tail _ (place.mem_parts_fill e)
  | .arrayLength _ inner | .unary _ _ inner | .newArray _ _ inner =>
    .tail _ (inner.mem_parts_fill e)
  | .lhs _ _ inner _ | .receiver _ inner _ _ =>
    .tail _ (List.mem_append_left _ (inner.mem_parts_fill e))
  | .rhs _ _ _ inner => .tail _ (List.mem_append_right _ (inner.mem_parts_fill e))
  | .call _ _ args => .tail _ (args.mem_parts_fill e)
  | .methodCall _ _ _ args => .tail _ (List.mem_append_right _ (args.mem_parts_fill e))

theorem PlaceHole.mem_parts_fill (e : Expr) : (hole : PlaceHole) → .expr e ∈ (hole.fill e).parts
  | .field _ inner _ => .tail _ (inner.mem_parts_fill e)
  | .array _ inner _ => .tail _ (List.mem_append_left _ (inner.mem_parts_fill e))
  | .index _ _ inner => .tail _ (List.mem_append_right _ (inner.mem_parts_fill e))

theorem ArgsHole.mem_parts_fill (e : Expr) : (hole : ArgsHole) → .expr e ∈ argParts (hole.fill e)
  | .head arg _ => List.mem_append_left _ (arg.mem_parts_fill e)
  | .tail _ rest => List.mem_append_right _ (rest.mem_parts_fill e)

end

mutual

/-- **Every part** of an expression fills a hole of it. -/
theorem exists_exprHole {e : Expr} : (x : Expr) → .expr e ∈ x.parts →
    ∃ hole : ExprHole, hole.fill e = x
  | .int _ _, h | .bool _ _, h | .null _, h | .this _, h | .newObject _ _, h =>
    ⟨.here, Part.expr.inj (List.mem_singleton.1 h)⟩
  | .read m place, h => by
    rcases List.mem_cons.1 h with heq | h
    · exact ⟨.here, Part.expr.inj heq⟩
    · obtain ⟨hole, rfl⟩ := exists_placeHole place h
      exact ⟨.read m hole, rfl⟩
  | .arrayLength m array, h => by
    rcases List.mem_cons.1 h with heq | h
    · exact ⟨.here, Part.expr.inj heq⟩
    · obtain ⟨hole, rfl⟩ := exists_exprHole array h
      exact ⟨.arrayLength m hole, rfl⟩
  | .unary m op operand, h => by
    rcases List.mem_cons.1 h with heq | h
    · exact ⟨.here, Part.expr.inj heq⟩
    · obtain ⟨hole, rfl⟩ := exists_exprHole operand h
      exact ⟨.unary m op hole, rfl⟩
  | .binary m op lhs rhs, h => by
    rcases List.mem_cons.1 h with heq | h
    · exact ⟨.here, Part.expr.inj heq⟩
    rcases List.mem_append.1 h with h | h
    · obtain ⟨hole, rfl⟩ := exists_exprHole lhs h
      exact ⟨.lhs m op hole rhs, rfl⟩
    · obtain ⟨hole, rfl⟩ := exists_exprHole rhs h
      exact ⟨.rhs m op lhs hole, rfl⟩
  | .call m name args, h => by
    rcases List.mem_cons.1 h with heq | h
    · exact ⟨.here, Part.expr.inj heq⟩
    · obtain ⟨hole, rfl⟩ := exists_argsHole args h
      exact ⟨.call m name hole, rfl⟩
  | .methodCall m receiver method args, h => by
    rcases List.mem_cons.1 h with heq | h
    · exact ⟨.here, Part.expr.inj heq⟩
    rcases List.mem_append.1 h with h | h
    · obtain ⟨hole, rfl⟩ := exists_exprHole receiver h
      exact ⟨.receiver m hole method args, rfl⟩
    · obtain ⟨hole, rfl⟩ := exists_argsHole args h
      exact ⟨.methodCall m receiver method hole, rfl⟩
  | .newArray m elem size, h => by
    rcases List.mem_cons.1 h with heq | h
    · exact ⟨.here, Part.expr.inj heq⟩
    · obtain ⟨hole, rfl⟩ := exists_exprHole size h
      exact ⟨.newArray m elem hole, rfl⟩

theorem exists_placeHole {e : Expr} : (pl : Place) → .expr e ∈ pl.parts →
    ∃ hole : PlaceHole, hole.fill e = pl
  | .var _ _, h => nomatch List.mem_singleton.1 h
  | .field m receiver name, h => by
    rcases List.mem_cons.1 h with heq | h
    · cases heq
    · obtain ⟨hole, rfl⟩ := exists_exprHole receiver h
      exact ⟨.field m hole name, rfl⟩
  | .index m array index, h => by
    rcases List.mem_cons.1 h with heq | h
    · cases heq
    rcases List.mem_append.1 h with h | h
    · obtain ⟨hole, rfl⟩ := exists_exprHole array h
      exact ⟨.array m hole index, rfl⟩
    · obtain ⟨hole, rfl⟩ := exists_exprHole index h
      exact ⟨.index m array hole, rfl⟩

theorem exists_argsHole {e : Expr} : (args : List Expr) → .expr e ∈ argParts args →
    ∃ hole : ArgsHole, hole.fill e = args
  | [], h => nomatch h
  | arg :: rest, h => by
    rcases List.mem_append.1 h with h | h
    · obtain ⟨hole, rfl⟩ := exists_exprHole arg h
      exact ⟨.head hole rest, rfl⟩
    · obtain ⟨hole, rfl⟩ := exists_argsHole rest h
      exact ⟨.tail arg hole, rfl⟩

end

/-- **The expressions in an expression** are those that fill a hole of it. -/
theorem Expr.mem_parts_iff {e x : Expr} : .expr e ∈ x.parts ↔ ∃ hole : ExprHole, hole.fill e = x :=
  ⟨exists_exprHole x, fun ⟨hole, h⟩ => h ▸ hole.mem_parts_fill e⟩

theorem Place.mem_parts_iff {e : Expr} {pl : Place} :
    .expr e ∈ pl.parts ↔ ∃ hole : PlaceHole, hole.fill e = pl :=
  ⟨exists_placeHole pl, fun ⟨hole, h⟩ => h ▸ hole.mem_parts_fill e⟩

/-! ## Returns -/

theorem StmtHole.isReturn_fill (e e' : Expr) (s : StmtHole) :
    (s.fill e').isReturn = (s.fill e).isReturn := by
  cases s <;> rfl

/-- Statements end in a return whatever fills their hole, or do not. -/
theorem StmtsHole.isReturn_fill (e e' : Expr) : (stmts : StmtsHole) →
    (stmts.fill e').getLast?.any Stmt.isReturn = (stmts.fill e).getLast?.any Stmt.isReturn
  | .head s rest => by
    rw [StmtsHole.fill, StmtsHole.fill, List.getLast?_cons, List.getLast?_cons]
    cases rest.getLast? with
    | none => exact s.isReturn_fill e e'
    | some last => rfl
  | .tail s rest => by
    have hrest := StmtsHole.isReturn_fill e e' rest
    rw [StmtsHole.fill, StmtsHole.fill]
    cases rest with
    | head | tail =>
      simp only [StmtsHole.fill] at hrest ⊢
      rwa [List.getLast?_cons_cons, List.getLast?_cons_cons]

end ClassLang.Source
