import ClassLang.Proofs.Source.Holes
import ClassLang.Proofs.Typing.Coverage
/-!
# Typing — names at a hole

The names in scope at the hole of a program are those of the statements around
it. A program with a hole thus says what the list of its parts with the names in
scope there says, and where the part stands (`mem_programScopedParts_iff`).
-/


namespace ClassLang

open Source (NodeId Expr Stmt Block FunctionDecl ClassDecl Part)
open Source (ExprHole StmtHole StmtsHole FunctionHole ClassHole ProgramHole)
open Typing (Names)

mutual

/-- The names in scope at the hole, given those in front of the statement. -/
def Source.StmtHole.names (names : Names) : StmtHole → Names
  | .block _ stmts _ => stmts.names names
  | .ifThen _ _ body | .loop _ _ body => body.names names
  | .yes _ _ yes _ => yes.names names
  | .no _ _ _ no => no.names names
  | .target _ _ _ | .assign _ _ _ | .expr _ _ | .ifCond _ _ _ | .elseCond _ _ _ _
  | .loopCond _ _ _ | .ret _ _ => names

/-- The names in scope at the hole, given those in front of the statements. -/
def Source.StmtsHole.names (names : Names) : StmtsHole → Names
  | .head s _ => s.names names
  | .tail s rest => rest.names (names.behind s)

end

/-- The names in scope at the hole, in a method of the class if there is one. -/
def Source.FunctionHole.names (this? : Option String) (g : FunctionHole) : Names :=
  g.stmts.names ⟨this?, g.params.reverse⟩

/-- The names in scope at the hole of a program. -/
def Source.ProgramHole.names : ProgramHole → Names
  | .function _ g _ _ _ => g.names none
  | .method _ _ c _ _ => c.method.names (some c.name)

namespace Typing

open Source (Program)

section Parts

variable {e : Expr} {names inner : Names}

theorem mem_map_parts {parts : List Part} :
    (inner, Part.expr e) ∈ parts.map (names, ·) ↔ names = inner ∧ .expr e ∈ parts := by
  simp [and_comm]

mutual

/-- **What fills the hole** of a statement has the names at the hole in scope. -/
theorem mem_scopedParts_fill (e : Expr) (names : Names) : (hole : StmtHole) →
    (hole.names names, .expr e) ∈ scopedParts names (hole.fill e)
  | .block _ stmts _ => mem_scopedPartsIn_fill e names stmts
  | .target _ target _ =>
    mem_map_parts.2 ⟨rfl, List.mem_append_left _ (target.mem_parts_fill e)⟩
  | .assign _ _ value =>
    mem_map_parts.2 ⟨rfl, List.mem_append_right _ (value.mem_parts_fill e)⟩
  | .expr _ value | .ret _ value => mem_map_parts.2 ⟨rfl, value.mem_parts_fill e⟩
  | .ifCond _ cond _ | .loopCond _ cond _ | .elseCond _ cond _ _ =>
    List.mem_append_left _ (mem_map_parts.2 ⟨rfl, cond.mem_parts_fill e⟩)
  | .ifThen _ _ body | .loop _ _ body =>
    List.mem_append_right _ (mem_scopedParts_fill e names body)
  | .yes _ _ yes _ =>
    List.mem_append_right _ (List.mem_append_left _ (mem_scopedParts_fill e names yes))
  | .no _ _ _ no =>
    List.mem_append_right _ (List.mem_append_right _ (mem_scopedParts_fill e names no))

theorem mem_scopedPartsIn_fill (e : Expr) (names : Names) : (hole : StmtsHole) →
    (hole.names names, .expr e) ∈ scopedPartsIn names (hole.fill e)
  | .head s _ => List.mem_append_left _ (mem_scopedParts_fill e names s)
  | .tail s rest => List.mem_append_right _ (mem_scopedPartsIn_fill e (names.behind s) rest)

end

mutual

/-- **Every expression** in a statement fills a hole of it, with these names. -/
theorem exists_stmtHole : (s : Stmt) → {names : Names} → (inner, .expr e) ∈ scopedParts names s →
    ∃ hole : StmtHole, hole.fill e = s ∧ hole.names names = inner
  | .block pos (.mk stmts bodyPos), _, h => by
    obtain ⟨hole, rfl, hnames⟩ := exists_stmtsHole stmts h
    exact ⟨.block pos hole bodyPos, rfl, hnames⟩
  | .decl _ _, _, h => nomatch h
  | .assign pos target value, _, h => by
    obtain ⟨rfl, hmem⟩ := mem_map_parts.1 h
    rcases List.mem_append.1 hmem with hmem | hmem
    · obtain ⟨hole, rfl⟩ := Source.Place.mem_parts_iff.1 hmem
      exact ⟨.target pos hole value, rfl, rfl⟩
    · obtain ⟨hole, rfl⟩ := Source.Expr.mem_parts_iff.1 hmem
      exact ⟨.assign pos target hole, rfl, rfl⟩
  | .expr pos value, _, h => by
    obtain ⟨rfl, hmem⟩ := mem_map_parts.1 h
    obtain ⟨hole, rfl⟩ := Source.Expr.mem_parts_iff.1 hmem
    exact ⟨.expr pos hole, rfl, rfl⟩
  | .ret pos value, _, h => by
    obtain ⟨rfl, hmem⟩ := mem_map_parts.1 h
    obtain ⟨hole, rfl⟩ := Source.Expr.mem_parts_iff.1 hmem
    exact ⟨.ret pos hole, rfl, rfl⟩
  | .ifThen pos cond body, _, h => by
    rcases List.mem_append.1 h with h | h
    · obtain ⟨rfl, hmem⟩ := mem_map_parts.1 h
      obtain ⟨hole, rfl⟩ := Source.Expr.mem_parts_iff.1 hmem
      exact ⟨.ifCond pos hole body, rfl, rfl⟩
    · obtain ⟨hole, rfl, hnames⟩ := exists_stmtHole body h
      exact ⟨.ifThen pos cond hole, rfl, hnames⟩
  | .loop pos cond body, _, h => by
    rcases List.mem_append.1 h with h | h
    · obtain ⟨rfl, hmem⟩ := mem_map_parts.1 h
      obtain ⟨hole, rfl⟩ := Source.Expr.mem_parts_iff.1 hmem
      exact ⟨.loopCond pos hole body, rfl, rfl⟩
    · obtain ⟨hole, rfl, hnames⟩ := exists_stmtHole body h
      exact ⟨.loop pos cond hole, rfl, hnames⟩
  | .ifElse pos cond yes no, _, h => by
    rcases List.mem_append.1 h with h | h
    · obtain ⟨rfl, hmem⟩ := mem_map_parts.1 h
      obtain ⟨hole, rfl⟩ := Source.Expr.mem_parts_iff.1 hmem
      exact ⟨.elseCond pos hole yes no, rfl, rfl⟩
    rcases List.mem_append.1 h with h | h
    · obtain ⟨hole, rfl, hnames⟩ := exists_stmtHole yes h
      exact ⟨.yes pos cond hole no, rfl, hnames⟩
    · obtain ⟨hole, rfl, hnames⟩ := exists_stmtHole no h
      exact ⟨.no pos cond yes hole, rfl, hnames⟩

theorem exists_stmtsHole : (stmts : List Stmt) → {names : Names} →
    (inner, .expr e) ∈ scopedPartsIn names stmts →
    ∃ hole : StmtsHole, hole.fill e = stmts ∧ hole.names names = inner
  | [], _, h => nomatch h
  | s :: rest, _, h => by
    rcases List.mem_append.1 h with h | h
    · obtain ⟨hole, rfl, hnames⟩ := exists_stmtHole s h
      exact ⟨.head hole rest, rfl, hnames⟩
    · obtain ⟨hole, rfl, hnames⟩ := exists_stmtsHole rest h
      exact ⟨.tail s hole, rfl, hnames⟩

end

theorem mem_bodyScopedParts_iff {this? : Option String} {g : FunctionDecl} :
    (inner, .expr e) ∈ bodyScopedParts this? g ↔
      ∃ hole : FunctionHole, hole.fill e = g ∧ hole.names this? = inner := by
  constructor
  · intro h
    obtain ⟨id, returnType, name, params, ⟨stmts, bodyPos⟩, pos⟩ := g
    obtain ⟨hole, rfl, hnames⟩ := exists_stmtsHole stmts h
    exact ⟨⟨id, returnType, name, params, hole, bodyPos, pos⟩, rfl, hnames⟩
  · rintro ⟨hole, rfl, rfl⟩
    exact mem_scopedPartsIn_fill e _ hole.stmts

/-- **The expressions in the bodies of a program**, with the names in scope
there, are those that fill a hole of the program. -/
theorem mem_programScopedParts_iff {p : Program} :
    (inner, .expr e) ∈ programScopedParts p ↔
      ∃ hole : ProgramHole, hole.fill e = p ∧ hole.names = inner := by
  constructor
  · intro h
    obtain ⟨functions, classes, pos⟩ := p
    rcases List.mem_append.1 h with h | h
    · obtain ⟨g, hg, hbody⟩ := List.mem_flatMap.1 h
      obtain ⟨before, after, rfl⟩ := List.append_of_mem hg
      obtain ⟨hole, rfl, hnames⟩ := mem_bodyScopedParts_iff.1 hbody
      exact ⟨.function before hole after classes pos, rfl, hnames⟩
    · obtain ⟨c, hc, hclass⟩ := List.mem_flatMap.1 h
      obtain ⟨before, after, rfl⟩ := List.append_of_mem hc
      obtain ⟨id, name, extends?, fields, methods, classPos⟩ := c
      obtain ⟨m, hm, hbody⟩ := List.mem_flatMap.1 hclass
      obtain ⟨methodsBefore, methodsAfter, rfl⟩ := List.append_of_mem hm
      obtain ⟨hole, rfl, hnames⟩ := mem_bodyScopedParts_iff.1 hbody
      exact ⟨.method functions before
        ⟨id, name, extends?, fields, methodsBefore, hole, methodsAfter, classPos⟩ after pos,
        rfl, hnames⟩
  · rintro ⟨hole, rfl, rfl⟩
    cases hole with
    | function before g after classes pos =>
      exact List.mem_append_left _ (List.mem_flatMap.2
        ⟨g.fill e, List.mem_append_right _ List.mem_cons_self, mem_bodyScopedParts_iff.2 ⟨g, rfl, rfl⟩⟩)
    | method functions before c after pos =>
      have hmethod : (c.method.names (some c.name), .expr e) ∈
          (c.fill e).methods.flatMap (bodyScopedParts (some c.name)) :=
        List.mem_flatMap.2 ⟨c.method.fill e, List.mem_append_right _ List.mem_cons_self,
          mem_bodyScopedParts_iff.2 ⟨c.method, rfl, rfl⟩⟩
      exact List.mem_append_right _ (List.mem_flatMap.2
        ⟨c.fill e, List.mem_append_right _ List.mem_cons_self, hmethod⟩)

/-- **The expressions in a program** are those that fill a hole of it. -/
theorem mem_programParts_iff {p : Program} :
    .expr e ∈ p.parts ↔ ∃ hole : ProgramHole, hole.fill e = p := by
  rw [← map_part_programScopedParts, List.mem_map]
  constructor
  · rintro ⟨⟨inner, _⟩, h, rfl⟩
    obtain ⟨hole, hfill, -⟩ := mem_programScopedParts_iff.1 h
    exact ⟨hole, hfill⟩
  · rintro ⟨hole, hfill⟩
    exact ⟨_, mem_programScopedParts_iff.2 ⟨hole, hfill, rfl⟩, rfl⟩

end Parts

end Typing

end ClassLang
