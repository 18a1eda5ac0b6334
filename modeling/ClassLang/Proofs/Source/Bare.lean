import ClassLang.Source.Parse.Program
/-!
# Source — trees without identities and positions

Two trees are the same apart from the identities of their nodes and from
positions if they are bare the same.
-/


namespace ClassLang.Source

/-- The mark of a node that tells nothing. -/
def Mark.blank : Mark := ⟨0, none⟩

mutual

/-- The expression without identities and positions. -/
def Expr.bare : Expr → Expr
  | .int _ value => .int .blank value
  | .bool _ value => .bool .blank value
  | .null _ => .null .blank
  | .this _ => .this .blank
  | .read _ place => .read .blank place.bare
  | .arrayLength _ array => .arrayLength .blank array.bare
  | .unary _ op operand => .unary .blank op operand.bare
  | .binary _ op lhs rhs => .binary .blank op lhs.bare rhs.bare
  | .call _ name args => .call .blank name (bareArgs args)
  | .methodCall _ receiver method args => .methodCall .blank receiver.bare method (bareArgs args)
  | .newObject _ class_ => .newObject .blank class_
  | .newArray _ elem size => .newArray .blank elem size.bare

/-- The place without identities and positions. -/
def Place.bare : Place → Place
  | .var _ name => .var .blank name
  | .field _ receiver name => .field .blank receiver.bare name
  | .index _ array index => .index .blank array.bare index.bare

/-- The arguments without identities and positions. -/
def bareArgs : List Expr → List Expr
  | [] => []
  | e :: rest => e.bare :: bareArgs rest

end

/-- The variable without its identity and position. -/
def VarDecl.bare (var : VarDecl) : VarDecl := ⟨0, var.ty, var.name, none⟩

mutual

/-- The statement without identities and positions. -/
def Stmt.bare : Stmt → Stmt
  | .block _ (.mk stmts _) => .block none (.mk (bareStmts stmts) none)
  | .decl _ var => .decl none var.bare
  | .assign _ target value => .assign none target.bare value.bare
  | .expr _ value => .expr none value.bare
  | .ifThen _ cond body => .ifThen none cond.bare body.bare
  | .ifElse _ cond yes no => .ifElse none cond.bare yes.bare no.bare
  | .loop _ cond body => .loop none cond.bare body.bare
  | .ret _ value => .ret none value.bare

/-- The statements without identities and positions. -/
def bareStmts : List Stmt → List Stmt
  | [] => []
  | s :: rest => s.bare :: bareStmts rest

end

/-- The block without identities and positions. -/
def Block.bare (b : Block) : Block := .mk (bareStmts b.stmts) none

theorem Stmt.bare_block (pos : Option Pos) (b : Block) :
    (Stmt.block pos b).bare = .block none b.bare := by
  cases b
  rfl

/-- The function without identities and positions. -/
def FunctionDecl.bare (f : FunctionDecl) : FunctionDecl :=
  ⟨0, f.returnType, f.name, f.params.map VarDecl.bare, f.body.bare, none⟩

/-- The class without identities and positions. -/
def ClassDecl.bare (c : ClassDecl) : ClassDecl :=
  ⟨0, c.name, c.extends?, c.fields.map VarDecl.bare, c.methods.map FunctionDecl.bare, none⟩

/-- The member without identities and positions. -/
def Member.bare : Member → Member
  | field decl => .field decl.bare
  | method decl => .method decl.bare

theorem Member.filterMap_field?_bare (ms : List Member) :
    (ms.filterMap Member.field?).map VarDecl.bare = (ms.map Member.bare).filterMap Member.field? := by
  rw [List.map_filterMap, List.filterMap_map]
  congr 1
  funext m
  cases m <;> rfl

theorem Member.filterMap_method?_bare (ms : List Member) :
    (ms.filterMap Member.method?).map FunctionDecl.bare =
      (ms.map Member.bare).filterMap Member.method? := by
  rw [List.map_filterMap, List.filterMap_map]
  congr 1
  funext m
  cases m <;> rfl

/-- The item without identities and positions. -/
def Item.bare : Item → Item
  | function decl => .function decl.bare
  | class_ decl => .class_ decl.bare

/-- The program without identities and positions. -/
def Program.bare (p : Program) : Program :=
  ⟨p.functions.map FunctionDecl.bare, p.classes.map ClassDecl.bare, none⟩

theorem Item.filterMap_function?_bare (items : List Item) :
    (items.filterMap Item.function?).map FunctionDecl.bare =
      (items.map Item.bare).filterMap Item.function? := by
  rw [List.map_filterMap, List.filterMap_map]
  congr 1
  funext item
  cases item <;> rfl

theorem Item.filterMap_class?_bare (items : List Item) :
    (items.filterMap Item.class?).map ClassDecl.bare =
      (items.map Item.bare).filterMap Item.class? := by
  rw [List.map_filterMap, List.filterMap_map]
  congr 1
  funext item
  cases item <;> rfl

/-- The program of items depends on bare items only. -/
theorem Program.bare_ofItems {items items' : List Item} {pos pos' : Option Pos}
    (h : items.map Item.bare = items'.map Item.bare) :
    (ofItems items pos).bare = (ofItems items' pos').bare := by
  simp only [ofItems, bare, Item.filterMap_function?_bare, Item.filterMap_class?_bare, h]

end ClassLang.Source
