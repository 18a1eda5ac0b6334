import ClassLang.Proofs.Hierarchy.Headers
import ClassLang.Proofs.Source.Holes
/-!
# Hierarchy — resolution does not read bodies

The outline of a program has its declarations, and of every body only whether
it ends in a return. It has the headers of the program (`sameHeaders_outline`),
so the names of functions and the hierarchy of classes are resolved in the
outline as in the program, with the same errors.
-/


namespace ClassLang

open Source (Expr Block Stmt FunctionDecl ClassDecl VarDecl Program)

namespace Source

/-- All that is left of a body is whether it ends in a return. -/
def Block.outline (body : Block) : Block :=
  .mk (if body.stmts.getLast?.any Stmt.isReturn then [.ret none (.null ⟨0, none⟩)] else []) none

/-- A function without its body. -/
def FunctionDecl.outline (g : FunctionDecl) : FunctionDecl := { g with body := g.body.outline }

/-- A class without the bodies of its methods. -/
def ClassDecl.outline (c : ClassDecl) : ClassDecl :=
  { c with methods := c.methods.map FunctionDecl.outline }

/-- A program without its bodies. -/
def Program.outline (p : Program) : Program :=
  { p with
    functions := p.functions.map FunctionDecl.outline
    classes := p.classes.map ClassDecl.outline }

theorem Block.isReturn_outline (body : Block) :
    body.outline.stmts.getLast?.any Stmt.isReturn = body.stmts.getLast?.any Stmt.isReturn := by
  rw [Block.outline, Block.stmts]
  split
  next h => rw [h]; rfl
  next h => simpa using h

/-- Whatever fills a hole, the outline is the same. -/
theorem FunctionHole.outline_fill (e e' : Expr) (g : FunctionHole) :
    (g.fill e').outline = (g.fill e).outline := by
  have hbody : Block.outline (.mk (g.stmts.fill e') g.bodyPos) =
      Block.outline (.mk (g.stmts.fill e) g.bodyPos) := by
    rw [Block.outline, Block.outline, Block.stmts, Block.stmts, g.stmts.isReturn_fill e e']
  rw [FunctionDecl.outline, FunctionDecl.outline]
  simp only [FunctionHole.fill, hbody]

theorem ProgramHole.outline_fill (e e' : Expr) (hole : ProgramHole) :
    (hole.fill e').outline = (hole.fill e).outline := by
  cases hole with
  | function before g after classes pos =>
    simp only [ProgramHole.fill, Program.outline, List.map_append, List.map_cons, g.outline_fill e e']
  | method functions before c after pos =>
    have hclass : (c.fill e').outline = (c.fill e).outline := by
      simp only [ClassHole.fill, ClassDecl.outline, List.map_append, List.map_cons,
        c.method.outline_fill e e']
    simp only [ProgramHole.fill, Program.outline, List.map_append, List.map_cons, hclass]

theorem Program.getElem?_functions_outline (p : Program) (i : Nat) :
    p.outline.functions[i]? = p.functions[i]?.map FunctionDecl.outline :=
  List.getElem?_map ..

theorem Program.getElem?_classes_outline (p : Program) (id : ClassId) :
    p.outline.classes[id]? = p.classes[id]?.map ClassDecl.outline :=
  List.getElem?_map ..

end Source

theorem Source.Program.methodPos?_outline (p : Program) (ref : MemberRef) :
    p.outline.methodPos? ref = p.methodPos? ref := by
  rw [Program.methodPos?, Program.methodPos?, methodDecl?, methodDecl?, p.getElem?_classes_outline]
  cases p.classes[ref.class_]? with
  | none => rfl
  | some c =>
    show ((c.methods.map FunctionDecl.outline)[ref.index]?).bind _ = (c.methods[ref.index]?).bind _
    rw [List.getElem?_map]
    cases c.methods[ref.index]? <;> rfl

/-- **The outline has the headers** of the program. -/
theorem Source.Program.sameHeaders_outline (p : Program) (outer : Pos) :
    p.SameHeaders outer outer p.outline where
  functions := List.forall₂_map_right_iff.2 (List.forall₂_same.2 fun _ _ => ⟨rfl, rfl, rfl⟩)
  classes := List.forall₂_map_right_iff.2 <| List.forall₂_same.2 fun c _ =>
    ⟨rfl, rfl, List.forall₂_same.2 fun _ _ => ⟨rfl, rfl⟩,
      List.forall₂_map_right_iff.2 (List.forall₂_same.2 fun _ _ => ⟨rfl, rfl, rfl⟩), rfl⟩
  methodPos ref id c d hc hd _ := by
    rw [p.getElem?_classes_outline, hc] at hd
    obtain rfl := Option.some.inj hd
    rw [p.methodPos?_outline, ClassDecl.outline]

end ClassLang
