import Mathlib
import ClassLang.Proofs.Typing.Exactness
import ClassLang.Proofs.Typing.NotedPrograms
import ClassLang.Proofs.Typing.Visits
/-!
# Typing — the tables are complete and exact

The analysis of a program that was read, errors or not, knows the types of
the expressions and places of all bodies and of nothing else, and its notes
are exact. Where nothing is reported, no note is missing.
-/


namespace ClassLang.Typing

open Source (NodeId TypeExpr Expr Place Part Stmt Block VarDecl FunctionDecl ClassDecl Program)

/-- The note that a part asks for was made. -/
def Findings.Entered (f : Findings) : Part → Prop
  | .expr (.call m _ _) | .expr (.methodCall m _ _ _) => (f.calls.get? m.id).isSome
  | .place (.var m _) => (f.vars.get? m.id).isSome
  | .place (.field m _ _) => (f.fields.get? m.id).isSome
  | _ => True

/-- **The tables of an analysis are complete and exact.** -/
structure Analysis.Exact (p : Program) (a : Analysis) : Prop where
  /-- The parts have types, and nothing else has. -/
  types : ∀ id, (a.type? id).isSome ↔ ∃ part ∈ p.parts, part.id = id
  findings : a.findings.Exact p p.parts
  /-- Without errors, no note is missing. -/
  entered : a.ok = true → ∀ part ∈ p.parts, a.findings.Entered part

/-! ## Statements -/

section Scopes

variable {p : Program} {t : TypeTable} {scope : Scope}

theorem Scope.Refers.push (h : scope.Refers p t) : scope.push.Refers p t :=
  ⟨h.this, h.var, h.field⟩

theorem Scope.Refers.setReturn (h : scope.Refers p t) (ty : Ty) : (scope.setReturn ty).Refers p t :=
  ⟨h.this, h.var, h.field⟩

theorem Scope.Refers.putVar (h : scope.Refers p t) {name : String} {info : VarInfo}
    (hinfo : Known p t info.ty ∧ Bindable p info.decl) : (scope.putVar name info).Refers p t := by
  refine ⟨h.this, fun other found hfound => ?_, h.field⟩
  by_cases hname : name = other
  · subst hname
    rw [lookupVar_putVar_self] at hfound
    exact Option.some.inj hfound ▸ hinfo
  · rw [lookupVar_putVar_of_ne scope info hname] at hfound
    exact h.var other found hfound

theorem Scope.Refers.putField (h : scope.Refers p t) {name : String} {info : VarInfo}
    (hinfo : Known p t info.ty ∧ Bindable p info.decl) : (scope.putField name info).Refers p t := by
  refine ⟨h.this, h.var, fun other found hfound => ?_⟩
  rw [lookupField_putField] at hfound
  split at hfound
  · exact Option.some.inj hfound ▸ hinfo
  · exact h.field other found hfound

/-- A scope without names refers to nothing but the type of `this`. -/
theorem Scope.Refers.empty {ty : Ty} (h : Known p t ty) : (Scope.empty.setThis ty).Refers p t where
  this := h
  var _ _ h := by cases h
  field _ _ h := by cases h

end Scopes

section Statements

variable {ctx : Context} {parts : List Part} {f : Findings} {scope : Scope}

theorem keeps_checkCondition (hctx : ctx.Refers) (hf : f.Exact ctx.program parts)
    (hscope : scope.Refers ctx.program f.table) (outer : Pos) (of : ConditionOf) {cond : Expr}
    (hparts : cond.parts ⊆ parts) :
    Check.Keeps ctx.program parts (checkCondition ctx scope outer of cond) f fun _ _ => True :=
  (keeps_checkExpr hctx hf hscope outer cond hparts).bind fun _ _ hf' _ _ =>
    .of_silent hf' (.conditionFound ctx _ _ _) trivial

theorem keeps_declareVar (hctx : ctx.Refers) (hf : f.Exact ctx.program parts)
    (hscope : scope.Refers ctx.program f.table) (outer : Pos) (role : TypeRole)
    (taken : String → TypeFault) (var : VarDecl) :
    Check.Keeps ctx.program parts (declareVar ctx scope outer role taken var) f
      fun scope' t => scope'.Refers ctx.program t := by
  refine (keeps_resolveReported hctx hf _ _ _).bind fun ty f' hf' hle hty => ?_
  have hscope' := hscope.mono hle
  split
  · exact .of_silent hf' (.bind (.report _ _) fun _ => .pure _) hscope'
  · exact .pure hf' (hscope'.putVar ⟨hty, trivial⟩)

theorem keeps_valueFound (hf : f.Exact ctx.program parts)
    (hscope : scope.Refers ctx.program f.table) (pos : Pos) (fault : String → String → TypeFault)
    (expected found : Ty) :
    Check.Keeps ctx.program parts (valueFound ctx scope pos fault expected found) f
      fun scope' t => scope'.Refers ctx.program t := by
  refine .reports hf (.isSubtype ctx _ _) fun _ f' hf' heq => ?_
  split
  · exact .pure hf' (heq ▸ hscope)
  · exact .of_silent hf' (.bind (.shown _) fun _ => .bind (.shown _) fun _ =>
      .bind (.report _ _) fun _ => .pure _) (heq ▸ hscope)

mutual

/-- **Checking a statement keeps findings exact.** -/
theorem keeps_checkStmt (hctx : ctx.Refers) {scope : Scope} {f : Findings}
    (hf : f.Exact ctx.program parts) (hscope : scope.Refers ctx.program f.table) (outer : Pos) :
    (s : Stmt) → s.parts ⊆ parts → Check.Keeps ctx.program parts (checkStmt ctx scope outer s) f
      fun scope' t => scope'.Refers ctx.program t
  | .block pos (.mk stmts bodyPos), hparts => by
    rw [Stmt.parts] at hparts
    rw [checkStmt, checkBlock]
    exact (keeps_checkStmts hctx hf hscope.push _ stmts hparts).bind fun _ f' hf' hle _ =>
      .pure hf' (hscope.mono hle)
  | .decl pos var, _ => keeps_declareVar hctx hf hscope _ _ _ var
  | .assign pos target value, hparts => by
    rw [Stmt.parts, List.append_subset] at hparts
    rw [checkStmt_assign]
    exact (keeps_checkPlace hctx hf hscope _ target hparts.1).bind fun _ f₁ hf₁ hle₁ _ =>
      (keeps_checkExpr hctx hf₁ (hscope.mono hle₁) _ value hparts.2).bind fun _ f₂ hf₂ hle₂ _ =>
        keeps_valueFound hf₂ (hscope.mono (hle₁.trans hle₂)) _ _ _ _
  | .expr pos value, hparts => by
    rw [Stmt.parts] at hparts
    exact (keeps_checkExpr hctx hf hscope _ value hparts).bind fun _ f' hf' hle _ =>
      .pure hf' (hscope.mono hle)
  | .ifThen pos cond body, hparts => by
    rw [Stmt.parts, List.append_subset] at hparts
    exact (keeps_checkCondition hctx hf hscope _ _ hparts.1).bind fun _ f₁ hf₁ hle₁ _ =>
      (keeps_checkStmt hctx hf₁ (hscope.mono hle₁).push _ body hparts.2).bind fun _ f₂ hf₂ hle₂ _ =>
        .pure hf₂ (hscope.mono (hle₁.trans hle₂))
  | .ifElse pos cond yes no, hparts => by
    rw [Stmt.parts, List.append_subset, List.append_subset] at hparts
    exact (keeps_checkCondition hctx hf hscope _ _ hparts.1).bind fun _ f₁ hf₁ hle₁ _ =>
      (keeps_checkStmt hctx hf₁ (hscope.mono hle₁).push _ yes hparts.2.1).bind
        fun _ f₂ hf₂ hle₂ _ => (keeps_checkStmt hctx hf₂ (hscope.mono (hle₁.trans hle₂)).push _ no
          hparts.2.2).bind fun _ f₃ hf₃ hle₃ _ =>
            .pure hf₃ (hscope.mono ((hle₁.trans hle₂).trans hle₃))
  | .loop pos cond body, hparts => by
    rw [Stmt.parts, List.append_subset] at hparts
    exact (keeps_checkCondition hctx hf hscope _ _ hparts.1).bind fun _ f₁ hf₁ hle₁ _ =>
      (keeps_checkStmt hctx hf₁ (hscope.mono hle₁).push _ body hparts.2).bind fun _ f₂ hf₂ hle₂ _ =>
        .pure hf₂ (hscope.mono (hle₁.trans hle₂))
  | .ret pos value, hparts => by
    rw [Stmt.parts] at hparts
    rw [checkStmt_ret]
    exact (keeps_checkExpr hctx hf hscope _ value hparts).bind fun _ f' hf' hle _ =>
      keeps_valueFound hf' (hscope.mono hle) _ _ _ _

theorem keeps_checkStmts (hctx : ctx.Refers) {scope : Scope} {f : Findings}
    (hf : f.Exact ctx.program parts) (hscope : scope.Refers ctx.program f.table) (outer : Pos) :
    (stmts : List Stmt) → Source.stmtParts stmts ⊆ parts →
    Check.Keeps ctx.program parts (checkStmts ctx scope outer stmts) f fun _ _ => True
  | [], _ => .pure hf trivial
  | s :: rest, hparts => by
    rw [Source.stmtParts, List.append_subset] at hparts
    exact (keeps_checkStmt hctx hf hscope outer s hparts.1).bind fun _ f' hf' _ hscope' =>
      keeps_checkStmts hctx hf' hscope' outer rest hparts.2

end

end Statements

/-! ## Declarations -/

section Declarations

variable {ctx : Context} {parts : List Part} {f : Findings} {scope : Scope}

theorem keeps_declareParams (hctx : ctx.Refers) (hf : f.Exact ctx.program parts)
    (hscope : scope.Refers ctx.program f.table) (outer : Pos) (params : List VarDecl) :
    Check.Keeps ctx.program parts (declareParams ctx scope outer params) f
      fun scope' t => scope'.Refers ctx.program t := by
  induction params generalizing f scope with
  | nil => exact .pure hf hscope
  | cons param rest ih =>
    exact (keeps_declareVar hctx hf hscope _ _ _ param).bind fun _ f' hf' _ hscope' => ih hf' hscope'

theorem keeps_checkFunctions (hctx : ctx.Refers) (hf : f.Exact ctx.program parts)
    (hscope : scope.Refers ctx.program f.table) (outer : Pos) (fs : List FunctionDecl)
    (hparts : Source.bodyParts fs ⊆ parts) :
    Check.Keeps ctx.program parts (checkFunctions ctx scope outer fs) f fun _ _ => True := by
  induction fs generalizing f with
  | nil => exact .pure hf trivial
  | cons g rest ih =>
    rw [Source.bodyParts, List.flatMap_cons, List.append_subset] at hparts
    have hfunction : Check.Keeps ctx.program parts (checkFunction ctx scope outer g) f
        fun _ _ => True := by
      refine (keeps_resolveReported hctx hf _ _ _).bind fun _ f₁ hf₁ hle₁ _ =>
        (keeps_declareParams hctx hf₁ ((hscope.mono hle₁).setReturn _) _ _).bind
          fun inner f₂ hf₂ _ hinner => ?_
      obtain ⟨_, _, _, _, ⟨stmts, pos⟩, _⟩ := g
      exact keeps_checkStmts hctx hf₂ hinner.push _ stmts hparts.1
    exact hfunction.bind fun _ f' hf' hle _ => ih hf' (hscope.mono hle) hparts.2

theorem keeps_declareFields (hctx : ctx.Refers) (hf : f.Exact ctx.program parts)
    (hscope : scope.Refers ctx.program f.table) (fields : List (String × MemberRef))
    (hfields : ∀ entry ∈ fields, (fieldDecl? ctx.program entry.2).isSome) :
    Check.Keeps ctx.program parts (declareFields ctx scope fields) f
      fun scope' t => scope'.Refers ctx.program t := by
  induction fields generalizing f scope with
  | nil => exact .pure hf hscope
  | cons entry rest ih =>
    rw [List.forall_mem_cons] at hfields
    exact (keeps_fieldType hctx hf _).bind fun ty f' hf' hle hty =>
      ih hf' ((hscope.mono hle).putField ⟨hty, hfields.1⟩) hfields.2

theorem keeps_checkClasses (hctx : ctx.Refers) (hf : f.Exact ctx.program parts) (outer : Pos)
    (classes : List (ClassDecl × Nat)) (hids : ∀ c ∈ classes, c.2 < ctx.program.classes.length)
    (hparts : (classes.flatMap fun c => Source.bodyParts c.1.methods) ⊆ parts) :
    Check.Keeps ctx.program parts (checkClasses ctx outer classes) f fun _ _ => True := by
  induction classes generalizing f with
  | nil => exact .pure hf trivial
  | cons c rest ih =>
    rw [List.forall_mem_cons] at hids
    rw [List.flatMap_cons, List.append_subset] at hparts
    have hvisible : ∀ entry ∈ ctx.visible c.2, (fieldDecl? ctx.program entry.2).isSome := by
      intro entry hentry
      rw [Context.visible] at hentry
      cases hinfo : ctx.classes.info c.2 with
      | none => simp [hinfo] at hentry
      | some info => exact (hctx.members c.2 info hinfo).fields entry (by simpa [hinfo] using hentry)
    have hempty : (Scope.empty.setThis (.class_ c.2)).Refers ctx.program f.table :=
      .empty (show Known ctx.program f.table (.class_ c.2) from hids.1)
    have hclass : Check.Keeps ctx.program parts (checkClass ctx outer c.2 c.1) f fun _ _ => True :=
      (keeps_declareFields hctx hf hempty _ hvisible).bind fun scope f' hf' _ hscope =>
        keeps_checkFunctions hctx hf' hscope.push _ _ hparts.1
    exact hclass.bind fun _ f' hf' _ _ => ih hf' hids.2 hparts.2

theorem keeps_checkFields (hctx : ctx.Refers) (hf : f.Exact ctx.program parts) (outer : Pos)
    (seen : Table String Pos) (fields : List VarDecl) :
    Check.Keeps ctx.program parts (checkFields ctx outer seen fields) f fun _ _ => True := by
  induction fields generalizing f seen with
  | nil => exact .pure hf trivial
  | cons field rest ih =>
    refine (keeps_resolveReported hctx hf _ _ _).bind fun _ f' hf' _ _ => ?_
    split
    · exact .reports hf' (.report _ _) fun _ f'' hf'' _ => ih hf'' _
    · exact ih hf' _

theorem reports_checkMethodNames (outer : Pos) (seen : Table String Pos)
    (methods : List FunctionDecl) : Check.Reports (checkMethodNames outer seen methods) := by
  induction methods generalizing seen with
  | nil => exact .pure _
  | cons method rest ih =>
    rw [checkMethodNames]
    split
    · exact .bind (.report _ _) fun _ => ih _
    · exact ih _

theorem keeps_checkMembers (hctx : ctx.Refers) (hf : f.Exact ctx.program parts) (outer : Pos)
    (classes : List ClassDecl) :
    Check.Keeps ctx.program parts (checkMembers ctx outer classes) f fun _ _ => True := by
  induction classes generalizing f with
  | nil => exact .pure hf trivial
  | cons c rest ih =>
    exact (keeps_checkFields hctx hf _ _ _).bind fun _ f₁ hf₁ _ _ =>
      .reports hf₁ (reports_checkMethodNames _ _ _) fun _ f₂ hf₂ _ => ih hf₂

theorem keeps_checkMain (hctx : ctx.Refers) (hf : f.Exact ctx.program parts) (fallback : Pos) :
    Check.Keeps ctx.program parts (checkMain ctx fallback) f fun _ _ => True := by
  unfold checkMain
  dsimp only
  split
  · exact .of_silent hf (.report _ _) trivial
  next main _ =>
    refine (keeps_resolveType hctx hf _).bind fun ty f' hf' _ _ => .of_silent hf' ?_ trivial
    have hlast : Check.Reports (if main.body.stmts.getLast?.any Stmt.isReturn = true then
        pure () else report (main.pos.getD fallback) .mainMissingReturn) :=
      .ite (.pure _) (.report _ _)
    split
    all_goals split
    · exact hlast
    · exact .bind (.report _ _) fun _ => hlast
    · exact .bind (.report _ _) fun _ => hlast
    · exact .bind (.report _ _) fun _ => .bind (.report _ _) fun _ => hlast

end Declarations

/-! ## Programs -/

section Programs

variable (p : Program) (printName : String) (fallback : Pos)

/-- What the analysis knows before it checks anything refers to what is
there, whatever was reported on the way. -/
theorem refers_programContext : (programContext p printName fallback).Refers := by
  have hfaithful := ClassTable.faithful_resolveAll p fallback
  refine ⟨fun name id hid => ?_, ClassTable.declared_resolveAll p fallback, fun name callee h => ?_⟩
  · exact Program.classId?_lt ((hfaithful.lookup name).symm.trans hid)
  · rw [programContext, FunctionTable.lookup_ofProgram] at h
    split at h
    · exact .inl ⟨_, (Option.some.inj h).symm⟩
    · obtain ⟨index, hindex, rfl⟩ := Option.map_eq_some_iff.1 h
      obtain ⟨g, hg⟩ := Program.getElem?_of_functionIndex? hindex
      exact .inr ⟨index, (List.getElem?_eq_some_iff.1 hg).1, rfl⟩

/-- **The checks of a program keep findings exact.** -/
theorem keeps_checkProgram {f : Findings} (hf : f.Exact p p.parts) :
    Check.Keeps p p.parts (checkProgram p printName fallback) f fun _ _ => True := by
  have hctx := refers_programContext p printName fallback
  have hempty {t : TypeTable} : Scope.empty.Refers p t :=
    .empty (show Known p t .any from trivial)
  refine (keeps_checkMembers hctx hf fallback p.classes).bind fun _ f₁ hf₁ _ _ =>
    (keeps_checkMain hctx hf₁ fallback).bind fun _ f₂ hf₂ _ _ =>
      (keeps_checkFunctions hctx hf₂ hempty fallback p.functions
        (List.subset_append_left _ _)).bind fun _ f₃ hf₃ _ _ =>
          keeps_checkClasses hctx hf₃ fallback _ (fun c hc => ?_) ?_
  · exact (List.getElem?_eq_some_iff.1 (List.mk_mem_zipIdx_iff_getElem?.1 hc)).1
  · rw [flatMap_zipIdx p.classes fun c => Source.bodyParts c.methods]
    exact List.subset_append_right _ _

theorem exact_programFindings (parts : List Part) :
    (programFindings p printName fallback).Exact p parts where
  elems _ h := by cases h
  types _ _ h := by cases h
  calls _ _ h := by cases h
  vars _ _ h := by cases h
  fields _ _ h := by cases h

end Programs

/-- **The findings of an analysis are exact**, whatever was reported. -/
theorem exact_findings (p : Program) (printName : String) :
    (analyze p ⟨printName⟩).findings.Exact p p.parts :=
  (keeps_checkProgram p printName _ (exact_programFindings p printName _ _)).exact

/-! ## Notes that have to be made -/

section Entered

variable {p : Program} {printName : String} {f : Findings} {names : Names}

mutual

/-- **A noted expression has all its notes.** -/
theorem ExprNoted.entered : (e : Expr) → {τ : ExprTy} → ExprNoted p printName f names e τ →
    ∀ part ∈ e.parts, f.Entered part
  | .int _ _, _, _ | .bool _ _, _, _ | .null _, _, _ | .this _, _, _ | .newObject _ _, _, _ => by
    simp [Expr.parts, Findings.Entered]
  | .read m place, _, h => by
    cases h with
    | read h => exact List.forall_mem_cons.2 ⟨trivial, PlaceNoted.entered place h⟩
  | .arrayLength m array, _, h => by
    cases h with
    | arrayLength h => exact List.forall_mem_cons.2 ⟨trivial, ExprNoted.entered array h⟩
  | .unary m op operand, _, h => by
    refine List.forall_mem_cons.2 ⟨trivial, ?_⟩
    cases h with
    | minus h => exact ExprNoted.entered operand h
    | negate h => exact ExprNoted.entered operand h
  | .binary m op lhs rhs, _, h => by
    refine List.forall_mem_cons.2 ⟨trivial, List.forall_mem_append.2 ?_⟩
    cases h with
    | arithmetic _ h h' => exact ⟨ExprNoted.entered lhs h, ExprNoted.entered rhs h'⟩
    | less h h' => exact ⟨ExprNoted.entered lhs h, ExprNoted.entered rhs h'⟩
    | and h h' => exact ⟨ExprNoted.entered lhs h, ExprNoted.entered rhs h'⟩
    | equals h h' _ => exact ⟨ExprNoted.entered lhs h, ExprNoted.entered rhs h'⟩
  | .call m name args, _, h => by
    obtain ⟨tys, hargs⟩ : ∃ tys, ArgsNoted p printName f names args tys := by
      cases h with
      | print _ h => exact ⟨_, .cons h (.refl _) .nil⟩
      | call _ _ _ _ hargs => exact ⟨_, hargs⟩
    refine List.forall_mem_cons.2 ⟨?_, ArgsNoted.entered args hargs⟩
    cases h with
    | print hcall _ => simp [Findings.Entered, hcall]
    | call _ hcall _ _ _ => simp [Findings.Entered, hcall]
  | .methodCall m receiver method args, _, h => by
    cases h with
    | methodCall hreceiver _ hcall _ _ _ hargs =>
      refine List.forall_mem_cons.2 ⟨?_, List.forall_mem_append.2
        ⟨ExprNoted.entered receiver hreceiver, ArgsNoted.entered args hargs⟩⟩
      simp [Findings.Entered, hcall]
  | .newArray m elem size, _, h => by
    cases h with
    | newArray _ h => exact List.forall_mem_cons.2 ⟨trivial, ExprNoted.entered size h⟩

theorem PlaceNoted.entered : (place : Place) → {ty : TypeExpr} →
    PlaceNoted p printName f names place ty → ∀ part ∈ place.parts, f.Entered part
  | .var m name, _, h => by
    cases h with
    | variable_ _ hvar => simp [Place.parts, Findings.Entered, hvar]
    | ownField _ _ _ _ _ hvar => simp [Place.parts, Findings.Entered, hvar]
  | .field m receiver name, _, h => by
    cases h with
    | field hreceiver _ _ _ hfield =>
      refine List.forall_mem_cons.2 ⟨?_, ExprNoted.entered receiver hreceiver⟩
      simp [Findings.Entered, hfield]
  | .index m array index, _, h => by
    cases h with
    | index h h' =>
      exact List.forall_mem_cons.2 ⟨trivial, List.forall_mem_append.2
        ⟨ExprNoted.entered array h, ExprNoted.entered index h'⟩⟩

theorem ArgsNoted.entered : (args : List Expr) → {tys : List TypeExpr} →
    ArgsNoted p printName f names args tys → ∀ part ∈ Source.argParts args, f.Entered part
  | [], _, _ => by simp [Source.argParts]
  | e :: rest, _, h => by
    cases h with
    | cons he _ hrest =>
      exact List.forall_mem_append.2 ⟨ExprNoted.entered e he, ArgsNoted.entered rest hrest⟩

end

mutual

/-- **A noted statement has all its notes.** -/
theorem StmtNoted.entered {ret : TypeExpr} {names behind : Names} : (s : Stmt) →
    StmtNoted p printName f ret names s behind → ∀ part ∈ s.parts, f.Entered part
  | .block pos (.mk stmts bodyPos), h => by
    cases h with
    | block h => exact StmtsNoted.entered stmts h
  | .decl pos var, _ => by simp [Stmt.parts]
  | .assign pos target value, h => by
    cases h with
    | assign ht hv _ => exact List.forall_mem_append.2 ⟨ht.entered, hv.entered⟩
  | .expr pos value, h => by
    cases h with
    | expr h => exact h.entered
  | .ifThen pos cond body, h => by
    cases h with
    | ifThen hc hb => exact List.forall_mem_append.2 ⟨hc.entered, StmtNoted.entered body hb⟩
  | .ifElse pos cond yes no, h => by
    cases h with
    | ifElse hc hy hn =>
      exact List.forall_mem_append.2 ⟨hc.entered, List.forall_mem_append.2
        ⟨StmtNoted.entered yes hy, StmtNoted.entered no hn⟩⟩
  | .loop pos cond body, h => by
    cases h with
    | loop hc hb => exact List.forall_mem_append.2 ⟨hc.entered, StmtNoted.entered body hb⟩
  | .ret pos value, h => by
    cases h with
    | ret h _ => exact h.entered

theorem StmtsNoted.entered {ret : TypeExpr} {names : Names} : (stmts : List Stmt) →
    StmtsNoted p printName f ret names stmts → ∀ part ∈ Source.stmtParts stmts, f.Entered part
  | [], _ => by simp [Source.stmtParts]
  | s :: rest, h => by
    cases h with
    | cons hs hrest =>
      exact List.forall_mem_append.2 ⟨StmtNoted.entered s hs, StmtsNoted.entered rest hrest⟩

end

/-- What covers a program has all its notes. -/
theorem Findings.Covers.entered (h : f.Covers p printName) : ∀ part ∈ p.parts, f.Entered part := by
  refine List.forall_mem_append.2 ⟨fun part hpart => ?_, fun part hpart => ?_⟩
  · obtain ⟨g, hg, hpart⟩ := List.mem_flatMap.1 hpart
    exact (h.functions g hg).body.entered _ part hpart
  · obtain ⟨c, hc, hpart⟩ := List.mem_flatMap.1 hpart
    obtain ⟨m, hm, hpart⟩ := List.mem_flatMap.1 hpart
    exact (h.methods c hc m hm).body.entered _ part hpart

end Entered

/-- **The tables of the analysis are complete and exact** for every program
that was read, with errors or without. No two parts share an identity, so it
is clear which part a note belongs to. -/
theorem exact_analyze {source : String} {p : Program} (printName : String)
    (hread : (Source.parse source).toExcept = .ok p) :
    (p.parts.map Part.id).Nodup ∧ (analyze p ⟨printName⟩).Exact p := by
  refine ⟨Program.map_id_parts p ▸ (Source.sane_parse hread).nodes, fun id => ?_,
    exact_findings p printName, fun hok => ?_⟩
  · rw [type?_isSome_iff, ← Program.map_id_parts, List.mem_map]
  · exact (covers_analyze (Source.sane_parse hread).nodes hok).2.entered

/-- A class that is its own superclass, and a name that means nothing. -/
def faulty : String := "class A extends A { } int main() { return f(2)[x]; }"

set_option maxRecDepth 100000 in
theorem exact_faulty : (Source.parse faulty).error? = none ∧
    (analyze (Source.parse faulty).program ⟨"print"⟩).ok = false ∧
    ((Source.parse faulty).program.parts.map Part.id).Nodup ∧
    (analyze (Source.parse faulty).program ⟨"print"⟩).Exact (Source.parse faulty).program := by
  obtain ⟨hread, hfails⟩ : (Source.parse faulty).error? = none ∧
      (analyze (Source.parse faulty).program ⟨"print"⟩).ok = false := by
    rw [Source.parse_eq_of_chars faulty String.toList_ofList]
    decide +kernel
  exact ⟨hread, hfails, exact_analyze "print" (by rw [Source.Parsed.toExcept, hread])⟩

end ClassLang.Typing
