import ClassLang.Proofs.Source.Parts
/-!
# Source — where declarations can be seen from

The blocks and branches of a body are its regions. A region is named by the
way that leads to it from the body: the statements that are entered one after
the other, by their index, and for a branch with an alternative which of the
two it is. `sights` lists what stands in a function in source order, each with
the innermost region around it: parameters and local declarations, expressions
and places. A declaration can be seen from what comes after it in the region it
stands in, or in a region inside (`InSight`).
-/


namespace ClassLang.Source

/-- What can stand in a region. -/
inductive Sight
  | decl (var : VarDecl)
  | part (found : Part)

/-- The expression or place that stands there. -/
def Sight.part? : Sight → Option Part
  | decl _ => none
  | part found => some found

/-- The variable that is declared there. -/
def Sight.decl? : Sight → Option VarDecl
  | decl var => some var
  | part _ => none

/-- Something and the innermost region around it. -/
structure Occurrence where
  region : List Nat
  sight : Sight

/-- Parts that stand in a region. -/
def partsAt (region : List Nat) (parts : List Part) : List Occurrence :=
  parts.map fun part => ⟨region, .part part⟩

mutual

/-- What stands in a statement, the one with index `k` of its region. -/
def Stmt.sights (region : List Nat) (k : Nat) : Stmt → List Occurrence
  | .block _ (.mk stmts _) => stmtSights (region ++ [k]) 0 stmts
  | .decl _ var => [⟨region, .decl var⟩]
  | .assign _ target value => partsAt region (target.parts ++ value.parts)
  | .expr _ value | .ret _ value => partsAt region value.parts
  | .ifThen _ cond body | .loop _ cond body =>
    partsAt region cond.parts ++ body.sights (region ++ [k]) 0
  | .ifElse _ cond yes no => partsAt region cond.parts ++
    (yes.sights (region ++ [k, 0]) 0 ++ no.sights (region ++ [k, 1]) 0)

/-- What stands in statements, the first with index `k` of its region. -/
def stmtSights (region : List Nat) (k : Nat) : List Stmt → List Occurrence
  | [] => []
  | s :: rest => s.sights region k ++ stmtSights region (k + 1) rest

end

/-- What stands in a function: the parameters, and then what stands in its
body. -/
def FunctionDecl.sights (f : FunctionDecl) : List Occurrence :=
  f.params.map (fun param => ⟨[], .decl param⟩) ++ stmtSights [] 0 f.body.stmts

/-- A variable of the name is declared before, and the region around the
declaration is around this region as well. -/
def InSight (before : List Occurrence) (region : List Nat) (name : String) (var : VarDecl) : Prop :=
  var.name = name ∧ ∃ around, around <+: region ∧ ⟨around, .decl var⟩ ∈ before

/-! ## All parts and declarations stand somewhere -/

theorem parts_partsAt (region : List Nat) (parts : List Part) :
    (partsAt region parts).filterMap (·.sight.part?) = parts := by
  simp only [partsAt, List.filterMap_map, Function.comp_def, Sight.part?, List.filterMap_some]

theorem decls_partsAt (region : List Nat) (parts : List Part) :
    (partsAt region parts).filterMap (·.sight.decl?) = [] := by
  refine List.filterMap_eq_nil_iff.2 fun o ho => ?_
  obtain ⟨part, -, rfl⟩ := List.mem_map.1 ho
  rfl

mutual

theorem Stmt.parts_sights (region : List Nat) (k : Nat) : (s : Stmt) →
    (s.sights region k).filterMap (·.sight.part?) = s.parts
  | .block _ (.mk stmts _) => parts_stmtSights (region ++ [k]) 0 stmts
  | .decl _ _ => rfl
  | .assign _ target value => parts_partsAt region (target.parts ++ value.parts)
  | .expr _ value | .ret _ value => parts_partsAt region value.parts
  | .ifThen _ cond body | .loop _ cond body => by
    simp [Stmt.sights, Stmt.parts, parts_partsAt, body.parts_sights]
  | .ifElse _ cond yes no => by
    simp [Stmt.sights, Stmt.parts, parts_partsAt, yes.parts_sights, no.parts_sights]

theorem parts_stmtSights (region : List Nat) (k : Nat) : (stmts : List Stmt) →
    (stmtSights region k stmts).filterMap (·.sight.part?) = stmtParts stmts
  | [] => rfl
  | s :: rest => by
    simp [stmtSights, stmtParts, s.parts_sights, parts_stmtSights region (k + 1) rest]

end

/-- **The expressions and places of a body stand in it**, each once and in the
same order. -/
theorem FunctionDecl.parts_sights (f : FunctionDecl) :
    f.sights.filterMap (·.sight.part?) = f.parts := by
  have hparams : (f.params.map fun param => (⟨[], .decl param⟩ : Occurrence)).filterMap
      (·.sight.part?) = [] := by
    refine List.filterMap_eq_nil_iff.2 fun o ho => ?_
    obtain ⟨param, -, rfl⟩ := List.mem_map.1 ho
    rfl
  rw [FunctionDecl.sights, List.filterMap_append, hparams, List.nil_append, parts_stmtSights,
    FunctionDecl.parts]

mutual

theorem Stmt.decls_sights (region : List Nat) (k : Nat) : (s : Stmt) →
    (s.sights region k).filterMap (·.sight.decl?) = s.varDecls
  | .block _ (.mk stmts _) => decls_stmtSights (region ++ [k]) 0 stmts
  | .decl _ _ => rfl
  | .assign _ target value => decls_partsAt region (target.parts ++ value.parts)
  | .expr _ value | .ret _ value => decls_partsAt region value.parts
  | .ifThen _ cond body | .loop _ cond body => by
    simp [Stmt.sights, Stmt.varDecls, decls_partsAt, body.decls_sights]
  | .ifElse _ cond yes no => by
    simp [Stmt.sights, Stmt.varDecls, decls_partsAt, yes.decls_sights, no.decls_sights]

theorem decls_stmtSights (region : List Nat) (k : Nat) : (stmts : List Stmt) →
    (stmtSights region k stmts).filterMap (·.sight.decl?) = listVarDecls stmts
  | [] => rfl
  | s :: rest => by
    simp [stmtSights, listVarDecls, s.decls_sights, decls_stmtSights region (k + 1) rest]

end

/-- **The declared variables of a function stand in it**, each once and in the
same order. -/
theorem FunctionDecl.decls_sights (f : FunctionDecl) :
    f.sights.filterMap (·.sight.decl?) = f.params ++ f.body.varDecls := by
  have hparams : (f.params.map fun param => (⟨[], .decl param⟩ : Occurrence)).filterMap
      (·.sight.decl?) = f.params := by
    simp only [List.filterMap_map, Function.comp_def, Sight.decl?, List.filterMap_some]
  rw [FunctionDecl.sights, List.filterMap_append, hparams, decls_stmtSights, Block.varDecls]

/-! ## Regions -/

theorem region_partsAt {region : List Nat} {parts : List Part} {o : Occurrence}
    (h : o ∈ partsAt region parts) : o.region = region ∧ ∃ part, o.sight = .part part := by
  obtain ⟨part, -, rfl⟩ := List.mem_map.1 h
  exact ⟨rfl, part, rfl⟩

mutual

/-- In the region of a statement stand at most parts of it, and the variable if
it declares one; everything else stands further inside. -/
theorem Stmt.region_sights (region : List Nat) (k : Nat) : (s : Stmt) → ∀ o ∈ s.sights region k,
    (o.region = region ∧
      ((∃ part, o.sight = .part part) ∨ ∃ pos var, s = .decl pos var ∧ o.sight = .decl var)) ∨
      region ++ [k] <+: o.region
  | .block _ (.mk stmts _), o, h => .inr (region_stmtSights (region ++ [k]) 0 stmts o h)
  | .decl pos var, o, h => by
    obtain rfl := List.mem_singleton.1 h
    exact .inl ⟨rfl, .inr ⟨pos, var, rfl, rfl⟩⟩
  | .assign _ _ _, o, h | .expr _ _, o, h | .ret _ _, o, h =>
    .inl ((region_partsAt h).imp_right .inl)
  | .ifThen _ cond body, o, h | .loop _ cond body, o, h => by
    rcases List.mem_append.1 h with h | h
    · exact .inl ((region_partsAt h).imp_right .inl)
    · rcases body.region_sights (region ++ [k]) 0 o h with ⟨heq, -⟩ | hle
      · exact .inr (heq ▸ List.prefix_rfl)
      · exact .inr ((List.prefix_append _ _).trans hle)
  | .ifElse _ cond yes no, o, h => by
    have hbranch (i : Nat) : region ++ [k] <+: region ++ [k, i] := ⟨[i], by simp⟩
    rcases List.mem_append.1 h with h | h
    · exact .inl ((region_partsAt h).imp_right .inl)
    · rcases List.mem_append.1 h with h | h
      · rcases yes.region_sights (region ++ [k, 0]) 0 o h with ⟨heq, -⟩ | hle
        · exact .inr (heq ▸ hbranch 0)
        · exact .inr ((hbranch 0).trans ((List.prefix_append _ _).trans hle))
      · rcases no.region_sights (region ++ [k, 1]) 0 o h with ⟨heq, -⟩ | hle
        · exact .inr (heq ▸ hbranch 1)
        · exact .inr ((hbranch 1).trans ((List.prefix_append _ _).trans hle))

theorem region_stmtSights (region : List Nat) (k : Nat) : (stmts : List Stmt) →
    ∀ o ∈ stmtSights region k stmts, region <+: o.region
  | [], _, h => by cases h
  | s :: rest, o, h => by
    rcases List.mem_append.1 h with h | h
    · rcases s.region_sights region k o h with ⟨heq, -⟩ | hle
      · exact heq ▸ List.prefix_rfl
      · exact (List.prefix_append _ _).trans hle
    · exact region_stmtSights region (k + 1) rest o h

end

end ClassLang.Source
