import ClassLang.Proofs.Source.Outcomes
/-!
# Source — reading by single moves

The reading routines again, as loops over one cursor that moves by `Cursor.bump` and
nothing else. A move never leaves the last token, so a loop that moves without looking
for the end of the file would go round for ever; nothing in the definitions here rules
that out. An `Attempt` comes to nothing where it goes round too often: a `loop` has a
number of rounds, and expressions and statements have a depth. What the attempts come
to is shown elsewhere.
-/


namespace ClassLang.Source

open Token (Kind)

/-- Moves behind the next token. The last token is never left. -/
def Cursor.bump (c : Cursor) : Cursor :=
  match c.tokens with
  | _ :: t :: rest => ⟨t :: rest, c.next⟩
  | _ => c

/-- Reads from a cursor and moves it, or fails, or comes to nothing. -/
abbrev Attempt (α : Type) := StateT Cursor (ExceptT ParseError Option) α

namespace Attempt

/-- What an attempt comes to at a cursor, if it comes to anything. -/
def outcome? {α : Type} (x : Attempt α) (c : Cursor) : Option (Outcome α) := (x.run c).run

/-- Comes to nothing. -/
def never {α : Type} : Attempt α := fun _ => ExceptT.mk none

/-- What an attempt comes to, or its error, as a value. -/
def observe {α : Type} (x : Attempt α) : Attempt (Except ParseError α) := fun c =>
  ExceptT.mk <| (x.outcome? c).map fun
    | .ok (a, c') => .ok (.ok a, c')
    | .error e => .ok (.error e, c)

/-! ## Tokens -/

/-- Moves behind the next token; the position of that token. -/
def bump : Attempt Pos := do
  let c ← get
  set c.bump
  return c.pos

/-- Moves behind the next token if it is of the kind; whether it was. -/
def eat (kind : Kind) : Attempt Bool := do
  let c ← get
  if c.kind = kind then
    let _ ← bump
    return true
  else return false

/-- Moves behind the next token, which has to be of the kind; its position. -/
def expect (kind : Kind) : Attempt Pos := do
  let c ← get
  if c.kind = kind then bump else throw (c.expected (.token kind))

/-- Moves behind the next token, which has to be an identifier; its text and position. -/
def ident : Attempt (String × Pos) := do
  let c ← get
  match c.kind with
  | .ident name =>
    let pos ← bump
    return (name, pos)
  | _ => throw (c.expected .identifier)

/-- A node with an identity that was not given before. -/
def node {α : Type} (f : NodeId → α) : Attempt α := do
  let c ← get
  set (⟨c.tokens, c.next + 1⟩ : Cursor)
  return f c.next

/-! ## Loops -/

/-- How a round of a loop ends: another round follows, or the loop is left. -/
inductive Round (σ α : Type)
  | again (state : σ)
  | leave (value : α)

/-- Rounds from a state until one leaves the loop, so many of them at most. -/
def loop {σ α : Type} (round : σ → Attempt (Round σ α)) : Nat → σ → Attempt α
  | 0, _ => never
  | bound + 1, state => do
    match ← round state with
    | .again state => loop round bound state
    | .leave a => return a

/-! ## Lists -/

section

variable {α : Type} (bound : Nat) (x : Attempt α)

/-- One element of a list with commas. -/
def commaRound (xs : List α) : Attempt (Round (List α) (List α)) := do
  let a ← x
  if ← eat (.symbol .comma) then return .again (xs ++ [a])
  else return .leave (xs ++ [a])

/-- Elements in front of the parenthesis that closes them, if there are any. -/
def commaList : Attempt (List α) := do
  if (← get).kind = .symbol .rparen then return []
  else loop (commaRound x) bound []

/-- Elements with commas between parentheses. -/
def enclosed : Attempt (List α) := do
  let _ ← expect (.symbol .lparen)
  let xs ← commaList bound x
  let _ ← expect (.symbol .rparen)
  return xs

/-- One element in front of the brace that closes them. -/
def braceRound (missing : Expected) (xs : List α) : Attempt (Round (List α) (List α)) := do
  let c ← get
  if c.kind = .symbol .rbrace then return .leave xs
  else if c.kind = .eof then throw (c.expected missing)
  else
    let a ← x
    return .again (xs ++ [a])

/-- Elements between braces, and the position of the first brace. -/
def braced (missing : Expected) : Attempt (Pos × List α) := do
  let pos ← expect (.symbol .lbrace)
  let xs ← loop (braceRound x missing) bound []
  let _ ← bump
  return (pos, xs)

end

/-! ## Types -/

/-- `int`, `boolean` or a class name. -/
def baseType : Attempt TypeExpr := do
  let c ← get
  match TypeExpr.ofKind? c.kind with
  | some ty =>
    let _ ← bump
    return ty
  | none => throw (c.expected .type)

/-- One bracket pair. -/
def pairRound (ty : TypeExpr) : Attempt (Round TypeExpr TypeExpr) := do
  let c ← get
  if c.kind = .symbol .lbracket ∧ c.kind₁ = .symbol .rbracket then
    let _ ← bump
    let _ ← bump
    return .again (.array ty)
  else return .leave ty

section

variable (bound : Nat)

/-- A type. -/
def type : Attempt TypeExpr := do
  let base ← baseType
  loop pairRound bound base

/-- A type and a name. -/
def varDecl : Attempt VarDecl := do
  let ty ← type bound
  let id ← node id
  let (name, pos) ← ident
  return ⟨id, ty, name, some pos⟩

/-! ## Expressions -/

section

variable (expr : Nat → Attempt Expr)

/-- Arguments between parentheses. -/
def args : Attempt (List Expr) := enclosed bound (expr 0)

/-- A new array, behind `new`. -/
def newArray (pos : Pos) : Attempt Expr := do
  let base ← baseType
  let _ ← expect (.symbol .lbracket)
  let size ← expr 0
  let _ ← expect (.symbol .rbracket)
  let elem ← loop pairRound bound base
  node fun id => .newArray ⟨id, some pos⟩ elem size

/-- What follows `new`: an object if a parenthesis stands behind its class, and an
array otherwise. -/
def created (pos : Pos) : Attempt Expr := do
  let c ← get
  match c.kind, c.kind₁ with
  | .ident class_, .symbol .lparen =>
    let _ ← bump
    let _ ← expect (.symbol .lparen)
    let _ ← expect (.symbol .rparen)
    node fun id => .newObject ⟨id, some pos⟩ class_
  | _, _ => newArray bound expr pos

/-- A variable, behind its name: arguments make it a call. -/
def named (name : String) (pos : Pos) : Attempt Expr := do
  if (← get).kind = .symbol .lparen then
    let args ← args bound expr
    node fun id => .call ⟨id, some pos⟩ name args
  else
    let place ← node fun id => Place.var ⟨id, some pos⟩ name
    node fun id => .read ⟨id, some pos⟩ place

/-- A literal, a name, a call, an expression between parentheses or a new object or
array. -/
def atom : Attempt Expr := do
  let c ← get
  match c.kind with
  | .integer digits =>
    match literal? digits with
    | some value =>
      let pos ← bump
      node fun id => .int ⟨id, some pos⟩ value
    | none => throw (c.fail (.literalOutOfRange digits))
  | .keyword .true_ =>
    let pos ← bump
    node fun id => .bool ⟨id, some pos⟩ true
  | .keyword .false_ =>
    let pos ← bump
    node fun id => .bool ⟨id, some pos⟩ false
  | .keyword .null =>
    let pos ← bump
    node fun id => .null ⟨id, some pos⟩
  | .keyword .this =>
    let pos ← bump
    node fun id => .this ⟨id, some pos⟩
  | .ident name =>
    let pos ← bump
    named bound expr name pos
  | .symbol .lparen =>
    let _ ← bump
    let inner ← expr 0
    let _ ← expect (.symbol .rparen)
    return inner
  | .keyword .new =>
    let pos ← bump
    created bound expr pos
  | _ => throw (c.expected .expression)

/-- A member behind an expression and a dot: arguments behind its name make it a
call. -/
def memberRound (lhs : Expr) (name : String) (pos : Pos) : Attempt (Round Expr Expr) := do
  if (← get).kind = .symbol .lparen then
    let args ← args bound expr
    let call ← node fun id => Expr.methodCall ⟨id, some pos⟩ lhs name args
    return .again call
  else if name = "length" then
    let length ← node fun id => Expr.arrayLength ⟨id, some pos⟩ lhs
    return .again length
  else
    let place ← node fun id => Place.field ⟨id, some pos⟩ lhs name
    let field ← node fun id => Expr.read ⟨id, some pos⟩ place
    return .again field

/-- One member, call or index behind an expression. -/
def accessRound (lhs : Expr) : Attempt (Round Expr Expr) := do
  let c ← get
  match c.kind with
  | .symbol .dot =>
    let _ ← bump
    let (name, pos) ← ident
    memberRound bound expr lhs name pos
  | .symbol .lbracket =>
    let pos ← bump
    let index ← expr 0
    let _ ← expect (.symbol .rbracket)
    let place ← node fun id => Place.index ⟨id, some pos⟩ lhs index
    let element ← node fun id => Expr.read ⟨id, some pos⟩ place
    return .again element
  | _ => return .leave lhs

/-- The operand of an operator in front. The literal that only a minus makes fit is taken
with the minus. -/
def operand (op : UnaryOp) (pos : Pos) : Attempt Expr := do
  if op = .minus ∧ (← get).kind = .integer leastMagnitude then
    let _ ← bump
    node fun id => .int ⟨id, some pos⟩ Int32.minValue
  else
    let operand ← expr UnaryOp.level
    node fun id => .unary ⟨id, some pos⟩ op operand

/-- An operator in front and its operand, or an atom and what follows it. -/
def unary : Attempt Expr := do
  let c ← get
  match UnaryOp.ofKind? c.kind with
  | some op =>
    let pos ← bump
    operand expr op pos
  | none =>
    let e ← atom bound expr
    loop (accessRound bound expr) bound e

/-- One binary operator and its right operand. -/
def operatorRound (level : Nat) (lhs : Expr) : Attempt (Round Expr Expr) := do
  let c ← get
  match BinaryOp.ofKind? level c.kind with
  | some op =>
    let pos ← bump
    let rhs ← expr (op.level + 1)
    let binary ← node fun id => Expr.binary ⟨id, some pos⟩ op lhs rhs
    return .again binary
  | none => return .leave lhs

end

end

/-- An expression whose binary operators outside parentheses bind at least as tightly
as `level`, and that nests less deep than the bound. -/
def expr : Nat → Nat → Attempt Expr
  | 0, _ => never
  | bound + 1, level => do
    let lhs ← unary (bound + 1) (expr bound)
    loop (operatorRound (expr bound) level) (bound + 1) lhs

/-! ## Statements -/

section

variable (bound : Nat)

/-- An expression between parentheses. -/
def condition : Attempt Expr := do
  let _ ← expect (.symbol .lparen)
  let cond ← expr bound 0
  let _ ← expect (.symbol .rparen)
  return cond

/-- An assignment or an expression, behind what is a target perhaps. -/
def assigned (pos : Pos) (lhs : Expr) : Attempt Stmt := do
  let c ← get
  if c.kind = .symbol .assign then
    match lhs with
    | .read _ target =>
      let _ ← bump
      let value ← expr bound 0
      let _ ← expect (.symbol .semicolon)
      return .assign pos target value
    | _ => throw (c.fail .notAssignable)
  else
    let _ ← expect (.symbol .semicolon)
    return .expr pos lhs

/-- A declaration, up to its semicolon. -/
def declared (pos : Pos) : Attempt Stmt := do
  let var ← varDecl bound
  let _ ← expect (.symbol .semicolon)
  return .decl pos var

/-- A declaration, an assignment or an expression, up to its semicolon. -/
def simple : Attempt Stmt := do
  let c ← get
  if c.startsDecl then declared bound c.pos
  else
    let lhs ← expr bound 0
    assigned bound c.pos lhs

section

variable (stmt : Attempt Stmt)

/-- Statements between braces. -/
def block : Attempt Block := do
  let (pos, stmts) ← braced bound stmt .blockEnd
  return .mk stmts pos

/-- What follows a condition and the statement that it decides about. -/
def alternative (pos : Pos) (cond : Expr) (yes : Stmt) : Attempt Stmt := do
  if ← eat (.keyword .else_) then
    let no ← stmt
    return .ifElse pos cond yes no
  else return .ifThen pos cond yes

/-- A statement; `stmt` reads the statements in it. -/
def compound : Attempt Stmt := do
  let c ← get
  match c.kind with
  | .symbol .lbrace =>
    let body ← block bound stmt
    return .block c.pos body
  | .keyword .if_ =>
    let _ ← bump
    let cond ← condition bound
    let yes ← stmt
    alternative stmt c.pos cond yes
  | .keyword .while_ =>
    let _ ← bump
    let cond ← condition bound
    let body ← stmt
    return .loop c.pos cond body
  | .keyword .return_ =>
    let _ ← bump
    let value ← expr bound 0
    let _ ← expect (.symbol .semicolon)
    return .ret c.pos value
  | _ => simple bound

end

end

/-- A statement that nests less deep than the bound. -/
def stmt : Nat → Attempt Stmt
  | 0 => never
  | bound + 1 => compound (bound + 1) (stmt bound)

/-! ## Declarations -/

section

variable (bound : Nat)

/-- Parameters between parentheses. -/
def params : Attempt (List VarDecl) := enclosed bound (varDecl bound)

/-- The parameters and the body of a function. -/
def functionRest (heading : VarDecl) : Attempt FunctionDecl := do
  let params ← params bound
  let body ← block bound (stmt bound)
  return ⟨heading.id, heading.ty, heading.name, params, body, heading.pos⟩

/-- A function. -/
def function : Attempt FunctionDecl := do
  let heading ← varDecl bound
  functionRest bound heading

/-- A member of a class, behind its type and its name. -/
def fieldOrMethod (heading : VarDecl) : Attempt Member := do
  if (← get).kind = .symbol .lparen then
    let f ← functionRest bound heading
    return .method f
  else
    let _ ← expect (.symbol .semicolon)
    return .field heading

/-- A member of a class. -/
def member : Attempt Member := do
  let heading ← varDecl bound
  fieldOrMethod bound heading

/-- The name of a superclass, if one is given. -/
def extends_ : Attempt (Option String) := do
  if ← eat (.keyword .extends_) then
    let (super, _) ← ident
    return some super
  else return none

/-- A class, behind its name. -/
def classBody (id : NodeId) (name : String) (pos : Pos) : Attempt ClassDecl := do
  let extends? ← extends_
  let (_, members) ← braced bound (member bound) .classEnd
  return ⟨id, name, extends?, members.filterMap Member.field?, members.filterMap Member.method?, pos⟩

/-- A class. -/
def class_ : Attempt ClassDecl := do
  let _ ← expect (.keyword .class_)
  let id ← node id
  let (name, pos) ← ident
  classBody bound id name pos

/-- A function or a class. -/
def item : Attempt Item := do
  if (← get).kind = .keyword .class_ then
    let decl ← class_ bound
    return .class_ decl
  else
    let decl ← function bound
    return .function decl

/-- One item. An error leaves the loop. -/
def itemRound (items : List Item) :
    Attempt (Round (List Item) (List Item × Option ParseError)) := do
  if (← get).kind = .eof then return .leave (items, none)
  else
    match ← observe (item bound) with
    | .ok item => return .again (items ++ [item])
    | .error e => return .leave (items, some e)

/-- The items up to the end of the file or up to the first error. -/
def items : Attempt (List Item × Option ParseError) := loop (itemRound bound) bound []

end

end Attempt

end ClassLang.Source
