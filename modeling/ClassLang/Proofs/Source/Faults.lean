import ClassLang.Proofs.Source.Semantics
/-!
# Source — the faults of a tree

What code for a tree may halt with, in source order: a fault names the line of
its node, or else one that is handed on from statement to statement. Whether
that is the line of a statement around the node is a question of what is handed
on behind a statement (`Stmt.faults`). It makes no difference in an even body, in
which all statements have a position or none has (`FunctionDecl.faults_of_even`).
-/


namespace ClassLang.Source

open Semantics (Fault lineOf lineAfter lineAfterAll)

/-! ## Expressions and places -/

mutual

/-- The faults of an expression, given the line for nodes without a position. -/
def Expr.faults (line : Nat) : Expr → List Fault
  | .int _ _ | .bool _ _ | .null _ | .this _ | .newObject _ _ => []
  | .read _ place => place.faults line
  | .arrayLength m array => array.faults line ++ [.nullPointer (lineOf line m.pos)]
  | .unary _ _ operand => operand.faults line
  | .binary m op lhs rhs =>
    lhs.faults line ++ rhs.faults line ++
      if op = .div then [.divisionByZero (lineOf line m.pos)] else []
  | .call _ _ args => argsFaults line args
  | .methodCall m receiver _ args =>
    receiver.faults line ++ .nullPointer (lineOf line m.pos) :: argsFaults line args
  | .newArray _ _ size => size.faults line

/-- The faults of a place. -/
def Place.faults (line : Nat) : Place → List Fault
  | .var _ _ => []
  | .field m receiver _ => receiver.faults line ++ [.nullPointer (lineOf line m.pos)]
  | .index m array index =>
    array.faults line ++ .nullPointer (lineOf line m.pos) ::
      (index.faults line ++ [.outOfBounds (lineOf line m.pos)])

/-- The faults of arguments. -/
def argsFaults (line : Nat) : List Expr → List Fault
  | [] => []
  | arg :: args => arg.faults line ++ argsFaults line args

end

/-! ## Statements -/

/-- The line that is handed on behind a statement if it is the one around both. -/
def lineAround (line : Nat) (_ : Stmt) : Nat := line

section Statements

variable (after : Nat → Stmt → Nat)

mutual

/-- The faults of a statement, given the line around it and the line that is
handed on behind a statement. -/
def Stmt.faults (line : Nat) : Stmt → List Fault
  | .block pos (.mk stmts _) => stmtsFaults (lineOf line pos) stmts
  | .decl _ _ => []
  | .assign pos target value =>
    target.faults (lineOf line pos) ++ value.faults (lineOf line pos)
  | .expr pos value | .ret pos value => value.faults (lineOf line pos)
  | .ifThen pos cond body | .loop pos cond body =>
    cond.faults (lineOf line pos) ++ body.faults (lineOf line pos)
  | .ifElse pos cond yes no =>
    cond.faults (lineOf line pos) ++ yes.faults (lineOf line pos) ++
      no.faults (after (lineOf line pos) yes)

/-- The faults of statements in turn. -/
def stmtsFaults (line : Nat) : List Stmt → List Fault
  | [] => []
  | s :: rest => s.faults line ++ stmtsFaults (after line s) rest

end

/-- The faults of a function or a method, given the line that is handed on behind
a statement. -/
def FunctionDecl.faults (f : FunctionDecl) : List Fault :=
  stmtsFaults after (lineOf 0 f.pos) f.body.stmts

end Statements

/-- The functions and methods of a program. -/
def Program.bodies (p : Program) : List FunctionDecl :=
  p.functions ++ p.classes.flatMap (·.methods)

/-! ## Even bodies -/

mutual

/-- The positions of a statement and of those in it. -/
def Stmt.positions : Stmt → List (Option Pos)
  | .block pos (.mk stmts _) => pos :: stmtsPositions stmts
  | .decl pos _ | .assign pos _ _ | .expr pos _ | .ret pos _ => [pos]
  | .ifThen pos _ body | .loop pos _ body => pos :: body.positions
  | .ifElse pos _ yes no => pos :: (yes.positions ++ no.positions)

/-- The positions of statements and of those in them. -/
def stmtsPositions : List Stmt → List (Option Pos)
  | [] => []
  | s :: rest => s.positions ++ stmtsPositions rest

end

/-- All positions are there, or none is. -/
def Even (positions : List (Option Pos)) : Prop :=
  (∀ pos ∈ positions, pos ≠ none) ∨ ∀ pos ∈ positions, pos = none

theorem Even.mono {positions positions' : List (Option Pos)} (h : Even positions)
    (hsub : positions' ⊆ positions) : Even positions' :=
  h.imp (fun h pos hpos => h pos (hsub hpos)) fun h pos hpos => h pos (hsub hpos)

theorem Even.left {positions positions' : List (Option Pos)} (h : Even (positions ++ positions')) :
    Even positions := h.mono (List.subset_append_left _ _)

theorem Even.right {positions positions' : List (Option Pos)} (h : Even (positions ++ positions')) :
    Even positions' := h.mono (List.subset_append_right _ _)

theorem Even.tail {pos : Option Pos} {positions : List (Option Pos)} (h : Even (pos :: positions)) :
    Even positions := h.mono (List.subset_cons_self _ _)

theorem lineOf_of_ne_none {pos : Option Pos} (h : pos ≠ none) (line line' : Nat) :
    lineOf line pos = lineOf line' pos := by
  cases pos with
  | none => exact absurd rfl h
  | some pos => rfl

theorem Stmt.pos_mem_positions (s : Stmt) : s.pos ∈ s.positions := by
  cases s with
  | block pos body =>
    cases body
    exact List.mem_cons_self
  | _ => exact List.mem_cons_self

/-- A statement with a position takes no line from around it. -/
theorem Stmt.faults_of_pos {s : Stmt} (h : s.pos ≠ none) (after : Nat → Stmt → Nat)
    (line line' : Nat) : s.faults after line = s.faults after line' := by
  have hline := lineOf_of_ne_none h line line'
  cases s with
  | block pos body =>
    cases body
    simp only [Stmt.faults, show lineOf line pos = lineOf line' pos from hline]
  | decl pos var => rfl
  | assign pos _ _ | expr pos _ | ret pos _ | ifThen pos _ _ | loop pos _ _ | ifElse pos _ _ _ =>
    simp only [Stmt.faults, show lineOf line pos = lineOf line' pos from hline]

theorem stmtsFaults_around_of_pos {stmts : List Stmt} (h : ∀ pos ∈ stmtsPositions stmts, pos ≠ none)
    (line line' : Nat) : stmtsFaults lineAround line stmts = stmtsFaults lineAround line' stmts := by
  induction stmts generalizing line line' with
  | nil => rfl
  | cons s rest ih =>
    rw [stmtsPositions, List.forall_mem_append] at h
    rw [stmtsFaults, stmtsFaults, Stmt.faults_of_pos (h.1 _ s.pos_mem_positions) _ line line']
    exact congrArg _ (ih h.2 line line')

mutual

theorem lineAfter_of_none {s : Stmt} (h : ∀ pos ∈ s.positions, pos = none) (line : Nat) :
    lineAfter line s = line := by
  match s with
  | .block pos (.mk stmts _) =>
    rw [Stmt.positions, List.forall_mem_cons] at h
    obtain ⟨rfl, hstmts⟩ := h
    rw [lineAfter]
    exact lineAfterAll_of_none hstmts line
  | .decl pos _ | .assign pos _ _ | .expr pos _ | .ret pos _ =>
    rw [Stmt.positions, List.forall_mem_singleton] at h
    rw [h]
    rfl
  | .ifThen pos _ body | .loop pos _ body =>
    rw [Stmt.positions, List.forall_mem_cons] at h
    obtain ⟨rfl, hbody⟩ := h
    rw [lineAfter]
    exact lineAfter_of_none hbody line
  | .ifElse pos _ yes no =>
    rw [Stmt.positions, List.forall_mem_cons, List.forall_mem_append] at h
    obtain ⟨rfl, hyes, hno⟩ := h
    rw [lineAfter, lineAfter_of_none hno, lineAfter_of_none hyes]
    rfl

theorem lineAfterAll_of_none {stmts : List Stmt} (h : ∀ pos ∈ stmtsPositions stmts, pos = none)
    (line : Nat) : lineAfterAll line stmts = line := by
  match stmts with
  | [] => rw [lineAfterAll]
  | s :: rest =>
    rw [stmtsPositions, List.forall_mem_append] at h
    rw [lineAfterAll, lineAfter_of_none h.1, lineAfterAll_of_none h.2]

end

/-- What is handed on to a statement with a position does not matter, and without
positions the line around a statement is handed on. -/
theorem Stmt.faults_handed_on {s next : Stmt} (h : Even (s.positions ++ next.positions))
    (line : Nat) : next.faults lineAround (lineAfter line s) = next.faults lineAround line := by
  rcases h with h | h
  · rw [List.forall_mem_append] at h
    exact Stmt.faults_of_pos (h.2 _ next.pos_mem_positions) _ _ _
  · rw [List.forall_mem_append] at h
    rw [lineAfter_of_none h.1]

theorem stmtsFaults_handed_on {s : Stmt} {rest : List Stmt}
    (h : Even (s.positions ++ stmtsPositions rest)) (line : Nat) :
    stmtsFaults lineAround (lineAfter line s) rest = stmtsFaults lineAround line rest := by
  rcases h with h | h
  · rw [List.forall_mem_append] at h
    exact stmtsFaults_around_of_pos h.2 _ _
  · rw [List.forall_mem_append] at h
    rw [lineAfter_of_none h.1]

mutual

theorem Stmt.faults_of_even {s : Stmt} (h : Even s.positions) (line : Nat) :
    s.faults lineAfter line = s.faults lineAround line := by
  match s with
  | .block pos (.mk stmts _) =>
    rw [Stmt.positions] at h
    exact stmtsFaults_of_even h.tail _
  | .decl _ _ | .assign _ _ _ | .expr _ _ | .ret _ _ => simp only [Stmt.faults]
  | .ifThen pos cond body | .loop pos cond body =>
    rw [Stmt.positions] at h
    simp only [Stmt.faults, Stmt.faults_of_even h.tail]
  | .ifElse pos cond yes no =>
    rw [Stmt.positions] at h
    simp only [Stmt.faults, Stmt.faults_of_even h.tail.left, Stmt.faults_of_even h.tail.right,
      Stmt.faults_handed_on h.tail, lineAround]

theorem stmtsFaults_of_even {stmts : List Stmt} (h : Even (stmtsPositions stmts)) (line : Nat) :
    stmtsFaults lineAfter line stmts = stmtsFaults lineAround line stmts := by
  match stmts with
  | [] => simp only [stmtsFaults]
  | s :: rest =>
    -- The statements behind `s` get the line from `s` on one side, and that around on the other.
    rw [stmtsPositions] at h
    simp only [stmtsFaults, Stmt.faults_of_even h.left, stmtsFaults_of_even h.right,
      stmtsFaults_handed_on h, lineAround]

end

/-- All statements of a body have a position, or none has. -/
def FunctionDecl.Even (f : FunctionDecl) : Prop := Source.Even (stmtsPositions f.body.stmts)

/-- **In an even body** every fault names the line of its node or of the
statement around it. -/
theorem FunctionDecl.faults_of_even {f : FunctionDecl} (h : f.Even) :
    f.faults lineAfter = f.faults lineAround :=
  stmtsFaults_of_even h _

end ClassLang.Source
