import ClassLang.Source.Parse.TypeExpr
/-!
# Source — reading expressions

Binary operators have levels and associate to the left; operators in front
bind tighter than all of them, and what follows an expression (members,
arguments, indices) binds tightest. A node takes its identity when all its
parts are read, a place before the expression that reads it.

How far a reader still has to go is one number, not a pair: the kernel can
then read a given text by evaluation.
-/


namespace ClassLang.Source

/-- How tightly an operator binds its left operand; its right operand has
to bind more tightly than that. -/
def BinaryOp.level : BinaryOp → Nat
  | and => 1
  | equals => 3
  | less => 5
  | plus | minus => 7
  | times | div => 9

/-- How tightly an operator in front binds its operand. -/
def UnaryOp.level : Nat := 11

/-- The binary operator that a symbol stands for. -/
def BinaryOp.ofSymbol? : Symbol → Option BinaryOp
  | .conj => some .and
  | .equals => some .equals
  | .less => some .less
  | .plus => some .plus
  | .minus => some .minus
  | .star => some .times
  | .slash => some .div
  | _ => none

/-- The unary operator that a symbol stands for. -/
def UnaryOp.ofSymbol? : Symbol → Option UnaryOp
  | .minus => some .minus
  | .bang => some .negate
  | _ => none

/-- The binary operator that a token is, if it binds at least as tightly
as `level`. -/
def BinaryOp.ofKind? (level : Nat) : Token.Kind → Option BinaryOp
  | .symbol s => (ofSymbol? s).filter (level ≤ ·.level)
  | _ => none

/-- The unary operator that a token is. -/
def UnaryOp.ofKind? : Token.Kind → Option UnaryOp
  | .symbol s => ofSymbol? s
  | _ => none

/-- The number that digits denote. -/
def digitsValue (digits : String) : Nat :=
  digits.toList.foldl (fun n c => 10 * n + (c.toNat - '0'.toNat)) 0

/-- The value of an integer literal, if a 32-bit integer has it. -/
def literal? (digits : String) : Option Int32 :=
  let n := digitsValue digits
  if n < 2147483648 then some (Int32.ofNat n) else none

/-- The literal whose negation is the least integer although no integer
equals it; a minus has to stand right in front of it. -/
def leastMagnitude : String := "2147483648"

mutual

/-- An expression whose binary operators outside parentheses bind at least
as tightly as `level`. -/
def parseBinary (level : Nat) (c : Cursor) : Reads Expr c.left := do
  let ⟨lhs, c₁, h₁⟩ ← parseUnary c
  let e ← parseOperators level lhs c₁
  return e.within h₁
termination_by 4 * c.left + 2

/-- The operators and right operands that follow a left operand. -/
def parseOperators (level : Nat) (lhs : Expr) (c : Cursor) : Reads Expr (c.left + 1) :=
  match c.takeSome? (BinaryOp.ofKind? level) with
  | none => return c.stay lhs
  | some ⟨(op, pos), c₁, h₁⟩ => do
    let rhs ← parseBinary (op.level + 1) c₁
    let ⟨lhs, c₂, h₂⟩ := rhs.node fun id rhs => .binary ⟨id, some pos⟩ op lhs rhs
    let e ← parseOperators level lhs c₂
    return ((e.within h₂).behind h₁).relax
termination_by 4 * c.left + 2

/-- An operator in front and its operand, or an atom and what follows it. -/
def parseUnary (c : Cursor) : Reads Expr c.left :=
  match c.takeSome? UnaryOp.ofKind? with
  | some ⟨(op, pos), c₁, h₁⟩ =>
    match if op = .minus then c₁.take? (.integer leastMagnitude) else none with
    | some digits => return (digits.node fun id _ => .int ⟨id, some pos⟩ Int32.minValue).behind h₁
    | none => do
      let operand ← parseBinary UnaryOp.level c₁
      return (operand.node fun id operand => .unary ⟨id, some pos⟩ op operand).behind h₁
  | none => do
    let ⟨e, c₁, h₁⟩ ← parseAtom c
    let e ← parsePostfix e c₁
    return e.within h₁
termination_by 4 * c.left + 1

/-- A literal, a name, a call, an expression between parentheses or a new
object or array. -/
def parseAtom (c : Cursor) : Reads Expr c.left :=
  match c.take with
  | none => .error (c.expected .expression)
  | some ⟨t, c₁, h₁⟩ =>
    let leaf (e : Mark → Expr) : Reads Expr c.left :=
      return ((c₁.stay ()).node fun id _ => e ⟨id, some t.pos⟩).within h₁
    match t.kind with
    | .integer digits =>
      match literal? digits with
      | some value => leaf (.int · value)
      | none => .error (c.fail (.literalOutOfRange digits))
    | .keyword .true_ => leaf (.bool · true)
    | .keyword .false_ => leaf (.bool · false)
    | .keyword .null => leaf .null
    | .keyword .this => leaf .this
    | .ident name =>
      if c₁.kind = .symbol .lparen then do
        let args ← parseArgs c₁
        return (args.node fun id args => .call ⟨id, some t.pos⟩ name args).behind h₁
      else
        let place := (c₁.stay ()).node fun id _ => Place.var ⟨id, some t.pos⟩ name
        return (place.node fun id place => .read ⟨id, some t.pos⟩ place).within h₁
    | .symbol .lparen => do
      let ⟨e, c₂, h₂⟩ ← parseBinary 0 c₁
      let closed ← c₂.expect (.symbol .rparen)
      return ((closed.map fun _ => e).behind h₂).behind h₁
    | .keyword .new =>
      match c₁.takeCallee? with
      | some ⟨class_, c₂, h₂⟩ => do
        let closed ← c₂.expect (.symbol .rparen)
        return ((closed.node fun id _ => .newObject ⟨id, some t.pos⟩ class_).behind h₂).behind h₁
      | none => do
        let ⟨base, c₂, h₂⟩ ← parseBaseType c₁
        let ⟨_, c₃, h₃⟩ ← c₂.expect (.symbol .lbracket)
        let ⟨size, c₄, h₄⟩ ← parseBinary 0 c₃
        let ⟨_, c₅, h₅⟩ ← c₄.expect (.symbol .rbracket)
        let array := (parseBrackets base c₅).node fun id elem => .newArray ⟨id, some t.pos⟩ elem size
        return ((((array.within h₅).behind h₄).behind h₃).behind h₂).behind h₁
    | _ => .error (c.expected .expression)
termination_by 4 * c.left

/-- The members, calls and indices that follow an expression. -/
def parsePostfix (lhs : Expr) (c : Cursor) : Reads Expr (c.left + 1) :=
  match c.take? (.symbol .dot) with
  | some ⟨_, c₁, h₁⟩ => do
    let ⟨(name, pos), c₂, h₂⟩ ← c₁.ident
    if c₂.kind = .symbol .lparen then
      let args ← parseArgs c₂
      let ⟨call, c₃, h₃⟩ := args.node fun id args => .methodCall ⟨id, some pos⟩ lhs name args
      let e ← parsePostfix call c₃
      return (((e.within h₃).behind h₂).behind h₁).relax
    else if name = "length" then
      let ⟨length, c₃, h₃⟩ := (c₂.stay lhs).node fun id lhs => .arrayLength ⟨id, some pos⟩ lhs
      let e ← parsePostfix length c₃
      return (((e.within h₃).within h₂).behind h₁).relax
    else
      let place := (c₂.stay lhs).node fun id lhs => Place.field ⟨id, some pos⟩ lhs name
      let ⟨field, c₃, h₃⟩ := place.node fun id place => .read ⟨id, some pos⟩ place
      let e ← parsePostfix field c₃
      return (((e.within h₃).within h₂).behind h₁).relax
  | none =>
    match c.take? (.symbol .lbracket) with
    | some ⟨pos, c₁, h₁⟩ => do
      let ⟨index, c₂, h₂⟩ ← parseBinary 0 c₁
      let closed ← c₂.expect (.symbol .rbracket)
      let place := closed.node fun id _ => Place.index ⟨id, some pos⟩ lhs index
      let ⟨element, c₃, h₃⟩ := place.node fun id place => .read ⟨id, some pos⟩ place
      let e ← parsePostfix element c₃
      return (((e.within h₃).behind h₂).behind h₁).relax
    | none => return c.stay lhs
termination_by 4 * c.left + 2

/-- Arguments between parentheses. -/
def parseArgs (c : Cursor) : Reads (List Expr) c.left := do
  let ⟨_, c₁, h₁⟩ ← c.expect (.symbol .lparen)
  match c₁.take? (.symbol .rparen) with
  | some closed => return (closed.map fun _ => []).behind h₁
  | none =>
    let args ← parseArgList c₁
    return args.behind h₁
termination_by 4 * c.left + 3

/-- One or more arguments and the parenthesis that closes them. -/
def parseArgList (c : Cursor) : Reads (List Expr) c.left := do
  let ⟨e, c₁, h₁⟩ ← parseBinary 0 c
  match c₁.take? (.symbol .comma) with
  | some ⟨_, c₂, h₂⟩ =>
    let rest ← parseArgList c₂
    return ((rest.map (e :: ·)).behind h₂).behind h₁
  | none =>
    let closed ← c₁.expect (.symbol .rparen)
    return (closed.map fun _ => [e]).behind h₁
termination_by 4 * c.left + 3

end

/-- An expression. -/
def parseExpr (c : Cursor) : Reads Expr c.left := parseBinary 0 c

end ClassLang.Source
