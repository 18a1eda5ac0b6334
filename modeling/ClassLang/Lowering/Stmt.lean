import ClassLang.Lowering.Expr
/-!
# Lowering — statements

A branch or loop gets blocks of its own; a branch that does not end in a
return goes on behind the statement. A declaration sets its variable back
to the default value whenever it is reached.
-/


namespace ClassLang.Lowering

open Source (Stmt Block)
open Typing (Analysis)
open Lower

/-- How comments name a kind of statement. -/
def describe : Stmt → String
  | .block _ _ => "block"
  | .decl _ _ => "declaration"
  | .assign _ _ _ => "assignment"
  | .expr _ _ => "expression"
  | .ifThen _ _ _ | .ifElse _ _ _ _ => "if"
  | .loop _ _ _ => "while"
  | .ret _ _ => "return"

/-- Notes the line of a statement, and writes a comment if there are to be
any. -/
def enterStmt (comments : Bool) (s : Stmt) : Lower Unit := do
  match s.pos with
  | some pos => modify fun b => { b with line := pos.line }
  | none => pure ()
  if comments then
    let line := (← get).line
    emit fun _ => Emit.comment ("line " ++ toString line ++ ": " ++ describe s)

variable (a : Analysis) (comments : Bool)

/-- Computes a condition and branches on it; goes on in the first of two
fresh blocks. Yields the second and the block behind the statement. -/
def branchIf (cond : Source.Expr) : Lower (Ir.BlockId × Ir.BlockId) := do
  let value ← rvalue a cond
  emit fun _ => do
    let yes ← Emit.newBlock "if_then"
    let no ← Emit.newBlock "if_else"
    let join ← Emit.newBlock "if_end"
    Emit.terminate (.branch value yes no)
    Emit.switchTo yes
    return (no, join)

/-- Leaves a branch for the block behind the statement and goes on in
another block. -/
def leaveBranch (join next : Ir.BlockId) : Lower Unit := emit fun _ => do
  Emit.jumpIfOpen join
  Emit.switchTo next

mutual

/-- Lowers a statement. -/
def lowerStmt : Stmt → Lower Unit
  | .block pos body => do
    enterStmt comments (.block pos body)
    lowerBlock body
  | .decl pos var => do
    enterStmt comments (.decl pos var)
    let slot ← localSlot var.id
    let ty ← session (irTyOf a var.ty)
    emit fun _ => Emit.store slot (defaultValue ty)
  | .assign pos target value => do
    enterStmt comments (.assign pos target value)
    let addr ← placeAddr a target
    let value ← rvalue a value
    let ty ← emit fun p => Emit.pointee p addr
    let value ← cast value ty
    emit fun _ => Emit.store addr value
  | .expr pos value => do
    enterStmt comments (.expr pos value)
    let _ ← rvalue a value
  | .ifThen pos cond body => do
    enterStmt comments (.ifThen pos cond body)
    let (no, join) ← branchIf a cond
    lowerStmt body
    leaveBranch join no
    leaveBranch join join
  | .ifElse pos cond yes no => do
    enterStmt comments (.ifElse pos cond yes no)
    let (other, join) ← branchIf a cond
    lowerStmt yes
    leaveBranch join other
    lowerStmt no
    leaveBranch join join
  | .loop pos cond body => do
    enterStmt comments (.loop pos cond body)
    let (head, inside, exit) ← emit fun _ => do
      let head ← Emit.newBlock "while_cond"
      let inside ← Emit.newBlock "while_body"
      let exit ← Emit.newBlock "while_end"
      Emit.terminate (.jump head)
      Emit.switchTo head
      return (head, inside, exit)
    let value ← rvalue a cond
    emit fun _ => do
      Emit.terminate (.branch value inside exit)
      Emit.switchTo inside
    lowerStmt body
    leaveBranch head exit
  | .ret pos value => do
    enterStmt comments (.ret pos value)
    let value ← rvalue a value
    let value ← cast value (← get).builder.ret
    emit fun _ => Emit.terminate (.ret value)

/-- Lowers a block. -/
def lowerBlock : Block → Lower Unit
  | .mk stmts _ => lowerStmts stmts

/-- Lowers statements in turn. -/
def lowerStmts : List Stmt → Lower Unit
  | [] => return
  | s :: rest => do
    lowerStmt s
    lowerStmts rest

end

end ClassLang.Lowering
