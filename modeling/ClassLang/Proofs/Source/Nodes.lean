import ClassLang.Source.Tree
/-!
# Source — the identities in a tree

`marks` lists the marks of the expressions and places in a tree, each
before those of its parts, and `nodes` their identities.
-/


namespace ClassLang.Source

mutual

/-- The expressions and places in an expression. -/
def Expr.nodes : Expr → List NodeId
  | .int m _ | .bool m _ | .null m | .this m | .newObject m _ => [m.id]
  | .read m place => m.id :: place.nodes
  | .arrayLength m e | .unary m _ e | .newArray m _ e => m.id :: e.nodes
  | .binary m _ lhs rhs => m.id :: (lhs.nodes ++ rhs.nodes)
  | .call m _ args => m.id :: argNodes args
  | .methodCall m receiver _ args => m.id :: (receiver.nodes ++ argNodes args)

/-- The expressions and places in a place. -/
def Place.nodes : Place → List NodeId
  | .var m _ => [m.id]
  | .field m receiver _ => m.id :: receiver.nodes
  | .index m array index => m.id :: (array.nodes ++ index.nodes)

/-- The expressions and places in arguments. -/
def argNodes : List Expr → List NodeId
  | [] => []
  | e :: rest => e.nodes ++ argNodes rest

end

theorem Expr.id_mem_nodes (e : Expr) : e.id ∈ e.nodes := by
  cases e <;> simp [Expr.nodes, Expr.id, Expr.mark]

mutual

/-- The marks of the expressions and places in an expression. -/
def Expr.marks : Expr → List Mark
  | .int m _ | .bool m _ | .null m | .this m | .newObject m _ => [m]
  | .read m place => m :: place.marks
  | .arrayLength m e | .unary m _ e | .newArray m _ e => m :: e.marks
  | .binary m _ lhs rhs => m :: (lhs.marks ++ rhs.marks)
  | .call m _ args => m :: argMarks args
  | .methodCall m receiver _ args => m :: (receiver.marks ++ argMarks args)

/-- The marks of the expressions and places in a place. -/
def Place.marks : Place → List Mark
  | .var m _ => [m]
  | .field m receiver _ => m :: receiver.marks
  | .index m array index => m :: (array.marks ++ index.marks)

/-- The marks of the expressions and places in arguments. -/
def argMarks : List Expr → List Mark
  | [] => []
  | e :: rest => e.marks ++ argMarks rest

end

mutual

theorem Expr.map_id_marks : (e : Expr) → e.marks.map (·.id) = e.nodes
  | .int _ _ | .bool _ _ | .null _ | .this _ | .newObject _ _ => rfl
  | .read _ place => by simp [Expr.marks, Expr.nodes, place.map_id_marks]
  | .arrayLength _ e | .unary _ _ e | .newArray _ _ e => by
    simp [Expr.marks, Expr.nodes, e.map_id_marks]
  | .binary _ _ lhs rhs => by
    simp [Expr.marks, Expr.nodes, lhs.map_id_marks, rhs.map_id_marks]
  | .call _ _ args => by simp [Expr.marks, Expr.nodes, map_id_argMarks args]
  | .methodCall _ receiver _ args => by
    simp [Expr.marks, Expr.nodes, receiver.map_id_marks, map_id_argMarks args]

theorem Place.map_id_marks : (place : Place) → place.marks.map (·.id) = place.nodes
  | .var _ _ => rfl
  | .field _ receiver _ => by simp [Place.marks, Place.nodes, receiver.map_id_marks]
  | .index _ array index => by
    simp [Place.marks, Place.nodes, array.map_id_marks, index.map_id_marks]

theorem map_id_argMarks : (args : List Expr) → (argMarks args).map (·.id) = argNodes args
  | [] => rfl
  | e :: rest => by simp [argMarks, argNodes, e.map_id_marks, map_id_argMarks rest]

end

mutual

/-- The marks of the expressions and places in a statement. -/
def Stmt.marks : Stmt → List Mark
  | .block _ (.mk stmts _) => stmtMarks stmts
  | .decl _ _ => []
  | .assign _ target value => target.marks ++ value.marks
  | .expr _ value | .ret _ value => value.marks
  | .ifThen _ cond body | .loop _ cond body => cond.marks ++ body.marks
  | .ifElse _ cond yes no => cond.marks ++ (yes.marks ++ no.marks)

/-- The marks of the expressions and places in statements. -/
def stmtMarks : List Stmt → List Mark
  | [] => []
  | s :: rest => s.marks ++ stmtMarks rest

end

mutual

/-- The expressions and places in a statement. -/
def Stmt.nodes : Stmt → List NodeId
  | .block _ (.mk stmts _) => stmtNodes stmts
  | .decl _ _ => []
  | .assign _ target value => target.nodes ++ value.nodes
  | .expr _ value | .ret _ value => value.nodes
  | .ifThen _ cond body | .loop _ cond body => cond.nodes ++ body.nodes
  | .ifElse _ cond yes no => cond.nodes ++ (yes.nodes ++ no.nodes)

/-- The expressions and places in statements. -/
def stmtNodes : List Stmt → List NodeId
  | [] => []
  | s :: rest => s.nodes ++ stmtNodes rest

end

mutual

theorem Stmt.map_id_marks : (s : Stmt) → s.marks.map (·.id) = s.nodes
  | .block _ (.mk stmts _) => by simp [Stmt.marks, Stmt.nodes, map_id_stmtMarks stmts]
  | .decl _ _ => rfl
  | .assign _ target value => by
    simp [Stmt.marks, Stmt.nodes, target.map_id_marks, value.map_id_marks]
  | .expr _ value | .ret _ value => by simp [Stmt.marks, Stmt.nodes, value.map_id_marks]
  | .ifThen _ cond body | .loop _ cond body => by
    simp [Stmt.marks, Stmt.nodes, cond.map_id_marks, body.map_id_marks]
  | .ifElse _ cond yes no => by
    simp [Stmt.marks, Stmt.nodes, cond.map_id_marks, yes.map_id_marks, no.map_id_marks]

theorem map_id_stmtMarks : (stmts : List Stmt) → (stmtMarks stmts).map (·.id) = stmtNodes stmts
  | [] => rfl
  | s :: rest => by simp [stmtMarks, stmtNodes, s.map_id_marks, map_id_stmtMarks rest]

end

/-- The expressions and places in the body of a function. -/
def FunctionDecl.nodes (f : FunctionDecl) : List NodeId := stmtNodes f.body.stmts

/-- The expressions and places in the bodies of functions. -/
def bodyNodes (fs : List FunctionDecl) : List NodeId := fs.flatMap (·.nodes)

/-- The expressions and places in a program. -/
def Program.nodes (p : Program) : List NodeId :=
  bodyNodes p.functions ++ p.classes.flatMap fun c => bodyNodes c.methods

end ClassLang.Source
