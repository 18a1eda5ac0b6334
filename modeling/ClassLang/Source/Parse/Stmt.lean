import ClassLang.Source.Parse.Expr
/-!
# Source — reading statements

A statement takes the position of its first token. A name starts a
declaration if another name or an empty bracket pair follows it;
otherwise it starts an expression, which has to read a place if it is
assigned to.
-/


namespace ClassLang.Source

/-- Does a declaration of a local variable start here? -/
def Cursor.startsDecl (c : Cursor) : Bool :=
  match c.kind, c.kind₁, c.kind₂ with
  | .keyword .int, _, _ | .keyword .boolean, _, _ => true
  | .ident _, .ident _, _ => true
  | .ident _, .symbol .lbracket, .symbol .rbracket => true
  | _, _, _ => false

/-- An expression and the token that closes it. -/
def parseClosed (close : Token.Kind) (c : Cursor) : Reads Expr c.left := do
  let ⟨e, c₁, h₁⟩ ← parseExpr c
  let closed ← c₁.expect close
  return (closed.map fun _ => e).behind h₁

/-- An expression between parentheses. -/
def parseCondition (c : Cursor) : Reads Expr c.left := do
  let ⟨_, c₁, h₁⟩ ← c.expect (.symbol .lparen)
  let cond ← parseClosed (.symbol .rparen) c₁
  return cond.behind h₁

/-- An expression and a semicolon. -/
def parseTerminated (c : Cursor) : Reads Expr c.left := parseClosed (.symbol .semicolon) c

/-- A declaration, an assignment or an expression, up to its semicolon. -/
def parseSimple (c : Cursor) : Reads Stmt c.left := do
  if c.startsDecl then
    let ⟨var, c₁, h₁⟩ ← parseVarDecl c
    let closed ← c₁.expect (.symbol .semicolon)
    return (closed.map fun _ => .decl c.pos var).behind h₁
  let ⟨lhs, c₁, h₁⟩ ← parseExpr c
  match c₁.take? (.symbol .assign) with
  | some ⟨_, c₂, h₂⟩ =>
    match lhs with
    | .read _ target =>
      let value ← parseTerminated c₂
      return ((value.map (.assign c.pos target)).behind h₂).behind h₁
    | _ => .error (c₁.fail .notAssignable)
  | none =>
    let closed ← c₁.expect (.symbol .semicolon)
    return (closed.map fun _ => .expr c.pos lhs).behind h₁

mutual

/-- A statement. -/
def parseStmt (c : Cursor) : Reads Stmt c.left :=
  match c.take with
  | none => parseSimple c
  | some ⟨t, c₁, h₁⟩ =>
    match t.kind with
    | .symbol .lbrace => do
      let body ← parseBlock c
      return body.map (.block t.pos)
    | .keyword .if_ => do
      let ⟨cond, c₂, h₂⟩ ← parseCondition c₁
      let ⟨yes, c₃, h₃⟩ ← parseStmt c₂
      match c₃.take? (.keyword .else_) with
      | some ⟨_, c₄, h₄⟩ =>
        let no ← parseStmt c₄
        let s := no.map (.ifElse t.pos cond yes)
        return (((s.behind h₄).behind h₃).behind h₂).behind h₁
      | none => return (((c₃.stay (.ifThen t.pos cond yes)).within h₃).behind h₂).behind h₁
    | .keyword .while_ => do
      let ⟨cond, c₂, h₂⟩ ← parseCondition c₁
      let body ← parseStmt c₂
      return ((body.map (.loop t.pos cond)).behind h₂).behind h₁
    | .keyword .return_ => do
      let value ← parseTerminated c₁
      return (value.map (.ret t.pos)).behind h₁
    | _ => parseSimple c
termination_by 4 * c.left + 1

/-- Statements between braces. -/
def parseBlock (c : Cursor) : Reads Block c.left := do
  let ⟨pos, c₁, h₁⟩ ← c.expect (.symbol .lbrace)
  let stmts ← parseStmts c₁
  return (stmts.map (.mk · pos)).behind h₁
termination_by 4 * c.left

/-- Statements and the brace that closes them. -/
def parseStmts (c : Cursor) : Reads (List Stmt) c.left :=
  match c.take? (.symbol .rbrace) with
  | some closed => return closed.map fun _ => []
  | none =>
    if c.kind = .eof then .error (c.expected .blockEnd)
    else do
      let ⟨s, c₁, h₁⟩ ← parseStmt c
      let rest ← parseStmts c₁
      return (rest.map (s :: ·)).behind h₁
termination_by 4 * c.left + 2

end

end ClassLang.Source
