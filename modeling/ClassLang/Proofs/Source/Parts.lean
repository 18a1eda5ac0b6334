import ClassLang.Proofs.Source.Nodes
/-!
# Source — the parts of a tree

`parts` lists the expressions and places in a tree, each before its own
parts. Their identities are the `nodes` of the tree (`Program.map_id_parts`),
so where no identity repeats, an identity tells what kind of part it is of.
-/


namespace ClassLang.Source

/-- An expression or a place. -/
inductive Part
  | expr (e : Expr)
  | place (pl : Place)

/-- The identity of a part. -/
def Part.id : Part → NodeId
  | expr e => e.id
  | place pl => pl.id

mutual

/-- An expression and the expressions and places in it. -/
def Expr.parts : Expr → List Part
  | .int m value => [.expr (.int m value)]
  | .bool m value => [.expr (.bool m value)]
  | .null m => [.expr (.null m)]
  | .this m => [.expr (.this m)]
  | .read m place => .expr (.read m place) :: place.parts
  | .arrayLength m array => .expr (.arrayLength m array) :: array.parts
  | .unary m op operand => .expr (.unary m op operand) :: operand.parts
  | .binary m op lhs rhs => .expr (.binary m op lhs rhs) :: (lhs.parts ++ rhs.parts)
  | .call m name args => .expr (.call m name args) :: argParts args
  | .methodCall m receiver method args =>
    .expr (.methodCall m receiver method args) :: (receiver.parts ++ argParts args)
  | .newObject m class_ => [.expr (.newObject m class_)]
  | .newArray m elem size => .expr (.newArray m elem size) :: size.parts

/-- A place and the expressions and places in it. -/
def Place.parts : Place → List Part
  | .var m name => [.place (.var m name)]
  | .field m receiver name => .place (.field m receiver name) :: receiver.parts
  | .index m array index => .place (.index m array index) :: (array.parts ++ index.parts)

/-- The expressions and places in arguments. -/
def argParts : List Expr → List Part
  | [] => []
  | e :: rest => e.parts ++ argParts rest

end

mutual

/-- The expressions and places in a statement. -/
def Stmt.parts : Stmt → List Part
  | .block _ (.mk stmts _) => stmtParts stmts
  | .decl _ _ => []
  | .assign _ target value => target.parts ++ value.parts
  | .expr _ value | .ret _ value => value.parts
  | .ifThen _ cond body | .loop _ cond body => cond.parts ++ body.parts
  | .ifElse _ cond yes no => cond.parts ++ (yes.parts ++ no.parts)

/-- The expressions and places in statements. -/
def stmtParts : List Stmt → List Part
  | [] => []
  | s :: rest => s.parts ++ stmtParts rest

end

/-- The expressions and places in the body of a function. -/
def FunctionDecl.parts (f : FunctionDecl) : List Part := stmtParts f.body.stmts

/-- The expressions and places in the bodies of functions. -/
def bodyParts (fs : List FunctionDecl) : List Part := fs.flatMap (·.parts)

/-- The expressions and places in a program. -/
def Program.parts (p : Program) : List Part :=
  bodyParts p.functions ++ p.classes.flatMap fun c => bodyParts c.methods

/-! ## Identities -/

mutual

theorem Expr.map_id_parts : (e : Expr) → e.parts.map Part.id = e.nodes
  | .int _ _ | .bool _ _ | .null _ | .this _ | .newObject _ _ => rfl
  | .read _ place => by simp [Expr.parts, Expr.nodes, Part.id, Expr.id, Expr.mark, place.map_id_parts]
  | .arrayLength _ e | .unary _ _ e | .newArray _ _ e => by
    simp [Expr.parts, Expr.nodes, Part.id, Expr.id, Expr.mark, e.map_id_parts]
  | .binary _ _ lhs rhs => by
    simp [Expr.parts, Expr.nodes, Part.id, Expr.id, Expr.mark, lhs.map_id_parts, rhs.map_id_parts]
  | .call _ _ args => by
    simp [Expr.parts, Expr.nodes, Part.id, Expr.id, Expr.mark, map_id_argParts args]
  | .methodCall _ receiver _ args => by
    simp [Expr.parts, Expr.nodes, Part.id, Expr.id, Expr.mark, receiver.map_id_parts, map_id_argParts args]

theorem Place.map_id_parts : (place : Place) → place.parts.map Part.id = place.nodes
  | .var _ _ => rfl
  | .field _ receiver _ => by
    simp [Place.parts, Place.nodes, Part.id, Place.id, Place.mark, receiver.map_id_parts]
  | .index _ array index => by
    simp [Place.parts, Place.nodes, Part.id, Place.id, Place.mark, array.map_id_parts, index.map_id_parts]

theorem map_id_argParts : (args : List Expr) → (argParts args).map Part.id = argNodes args
  | [] => rfl
  | e :: rest => by simp [argParts, argNodes, e.map_id_parts, map_id_argParts rest]

end

mutual

theorem Stmt.map_id_parts : (s : Stmt) → s.parts.map Part.id = s.nodes
  | .block _ (.mk stmts _) => by simp [Stmt.parts, Stmt.nodes, map_id_stmtParts stmts]
  | .decl _ _ => rfl
  | .assign _ target value => by
    simp [Stmt.parts, Stmt.nodes, target.map_id_parts, value.map_id_parts]
  | .expr _ value | .ret _ value => by simp [Stmt.parts, Stmt.nodes, value.map_id_parts]
  | .ifThen _ cond body | .loop _ cond body => by
    simp [Stmt.parts, Stmt.nodes, cond.map_id_parts, body.map_id_parts]
  | .ifElse _ cond yes no => by
    simp [Stmt.parts, Stmt.nodes, cond.map_id_parts, yes.map_id_parts, no.map_id_parts]

theorem map_id_stmtParts : (stmts : List Stmt) → (stmtParts stmts).map Part.id = stmtNodes stmts
  | [] => rfl
  | s :: rest => by simp [stmtParts, stmtNodes, s.map_id_parts, map_id_stmtParts rest]

end

theorem map_id_bodyParts (fs : List FunctionDecl) : (bodyParts fs).map Part.id = bodyNodes fs := by
  simp [bodyParts, bodyNodes, List.map_flatMap, FunctionDecl.parts, FunctionDecl.nodes,
    map_id_stmtParts]

/-- **The identities of the parts are the nodes.** -/
theorem Program.map_id_parts (p : Program) : p.parts.map Part.id = p.nodes := by
  simp [Program.parts, Program.nodes, List.map_flatMap, map_id_bodyParts]

/-! ## Parts of parts -/

/-- The identities of a part and of the parts in it. -/
def Part.nodes : Part → List NodeId
  | expr e => e.nodes
  | place pl => pl.nodes

/-- A part and the parts in it. -/
def Part.parts : Part → List Part
  | expr e => e.parts
  | place pl => pl.parts

theorem Part.map_id_parts : (part : Part) → part.parts.map Part.id = part.nodes
  | .expr e => e.map_id_parts
  | .place pl => pl.map_id_parts

theorem Part.id_mem_nodes (part : Part) : part.id ∈ part.nodes := by
  rw [← part.map_id_parts]
  cases part with
  | expr e => cases e <;> exact List.mem_cons_self
  | place pl => cases pl <;> exact List.mem_cons_self

mutual

theorem Expr.parts_sublist : (e : Expr) → ∀ part ∈ e.parts, part.parts.Sublist e.parts
  | .int _ _ | .bool _ _ | .null _ | .this _ | .newObject _ _ => by simp [Expr.parts, Part.parts]
  | .read _ place => List.forall_mem_cons.2 ⟨.refl _, fun part hpart =>
      (Place.parts_sublist place part hpart).cons _⟩
  | .arrayLength _ e | .unary _ _ e | .newArray _ _ e => List.forall_mem_cons.2
      ⟨.refl _, fun part hpart => (Expr.parts_sublist e part hpart).cons _⟩
  | .binary _ _ lhs rhs => List.forall_mem_cons.2 ⟨.refl _, List.forall_mem_append.2
      ⟨fun part hpart =>
          ((Expr.parts_sublist lhs part hpart).trans (List.sublist_append_left _ _)).cons _,
        fun part hpart =>
          ((Expr.parts_sublist rhs part hpart).trans (List.sublist_append_right _ _)).cons _⟩⟩
  | .call _ _ args => List.forall_mem_cons.2 ⟨.refl _, fun part hpart =>
      (argParts_sublist args part hpart).cons _⟩
  | .methodCall _ receiver _ args => List.forall_mem_cons.2 ⟨.refl _, List.forall_mem_append.2
      ⟨fun part hpart =>
          ((Expr.parts_sublist receiver part hpart).trans (List.sublist_append_left _ _)).cons _,
        fun part hpart =>
          ((argParts_sublist args part hpart).trans (List.sublist_append_right _ _)).cons _⟩⟩

theorem Place.parts_sublist : (place : Place) → ∀ part ∈ place.parts, part.parts.Sublist place.parts
  | .var _ _ => by simp [Place.parts, Part.parts]
  | .field _ receiver _ => List.forall_mem_cons.2 ⟨.refl _, fun part hpart =>
      (Expr.parts_sublist receiver part hpart).cons _⟩
  | .index _ array index => List.forall_mem_cons.2 ⟨.refl _, List.forall_mem_append.2
      ⟨fun part hpart =>
          ((Expr.parts_sublist array part hpart).trans (List.sublist_append_left _ _)).cons _,
        fun part hpart =>
          ((Expr.parts_sublist index part hpart).trans (List.sublist_append_right _ _)).cons _⟩⟩

theorem argParts_sublist : (args : List Expr) → ∀ part ∈ argParts args, part.parts.Sublist (argParts args)
  | [] => by simp [argParts]
  | e :: rest => List.forall_mem_append.2
      ⟨fun part hpart => (Expr.parts_sublist e part hpart).trans (List.sublist_append_left _ _),
        fun part hpart => (argParts_sublist rest part hpart).trans (List.sublist_append_right _ _)⟩

end

/-- The parts of a part are parts of the whole. -/
theorem Part.parts_sublist : (whole : Part) → ∀ part ∈ whole.parts, part.parts.Sublist whole.parts
  | .expr e => e.parts_sublist
  | .place pl => pl.parts_sublist

mutual

theorem Stmt.parts_sublist : (s : Stmt) → ∀ part ∈ s.parts, part.parts.Sublist s.parts
  | .block _ (.mk stmts _) => stmtParts_sublist stmts
  | .decl _ _ => by simp [Stmt.parts]
  | .assign _ target value => List.forall_mem_append.2
      ⟨fun part hpart => (target.parts_sublist part hpart).trans (List.sublist_append_left _ _),
        fun part hpart => (value.parts_sublist part hpart).trans (List.sublist_append_right _ _)⟩
  | .expr _ value | .ret _ value => value.parts_sublist
  | .ifThen _ cond body | .loop _ cond body => List.forall_mem_append.2
      ⟨fun part hpart => (cond.parts_sublist part hpart).trans (List.sublist_append_left _ _),
        fun part hpart =>
          (Stmt.parts_sublist body part hpart).trans (List.sublist_append_right _ _)⟩
  | .ifElse _ cond yes no => List.forall_mem_append.2
      ⟨fun part hpart => (cond.parts_sublist part hpart).trans (List.sublist_append_left _ _),
        List.forall_mem_append.2
          ⟨fun part hpart => ((Stmt.parts_sublist yes part hpart).trans
              (List.sublist_append_left _ _)).trans (List.sublist_append_right _ _),
            fun part hpart => ((Stmt.parts_sublist no part hpart).trans
              (List.sublist_append_right _ _)).trans (List.sublist_append_right _ _)⟩⟩

theorem stmtParts_sublist : (stmts : List Stmt) → ∀ part ∈ stmtParts stmts,
    part.parts.Sublist (stmtParts stmts)
  | [] => by simp [stmtParts]
  | s :: rest => List.forall_mem_append.2
      ⟨fun part hpart => (Stmt.parts_sublist s part hpart).trans (List.sublist_append_left _ _),
        fun part hpart => (stmtParts_sublist rest part hpart).trans (List.sublist_append_right _ _)⟩

end

/-- The nodes of a part are nodes of the whole. -/
theorem Part.nodes_sublist {whole part : Part} (h : part ∈ whole.parts) :
    part.nodes.Sublist whole.nodes := by
  rw [← part.map_id_parts, ← whole.map_id_parts]
  exact (whole.parts_sublist part h).map Part.id

end ClassLang.Source
