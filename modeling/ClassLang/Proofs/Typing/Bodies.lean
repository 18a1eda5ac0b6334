import ClassLang.Proofs.Typing.Noting
/-!
# Typing — what checking a body establishes

The check of a function comes to its body with the signature resolved and the
parameters in scope (`exists_body`). What it establishes there and what stays
when other nodes are checked holds in the end of all functions and methods of a
program without errors (`Establishes.analyze`).
-/


namespace ClassLang.Typing

open Source (NodeId TypeExpr Stmt Block VarDecl FunctionDecl ClassDecl Program)

/-! ## Signatures -/

section Signatures

variable {ctx : Context} {printName : String} {f : Findings} {ret : TypeExpr}

theorem interned_resolveReported (hctx : ctx.Sound printName) {f : Findings}
    (hf : Clean ctx.program f) {ty : TypeExpr} (hty : ctx.program.Resolves ty) (role : TypeRole)
    (pos : Pos) : Interned ctx.program ((resolveReported ctx ty role pos).run f).2 ty :=
  ⟨_, ((decides_resolveReported hctx.classes.lookup hf ty role pos).post hty).2.2⟩

theorem interned_declareVar (hctx : ctx.Sound printName) {f : Findings} (hf : Clean ctx.program f)
    (scope : Scope) (outer : Pos) (role : TypeRole) (taken : String → TypeFault) {var : VarDecl}
    (hty : ctx.program.Resolves var.ty) :
    Interned ctx.program ((declareVar ctx scope outer role taken var).run f).2 var.ty := by
  have hresolved := interned_resolveReported hctx hf hty role (var.pos.getD outer)
  unfold declareVar
  rw [Check.run_bind]
  refine hresolved.mono (?_ : Findings.Grows [] _ _).elems
  split
  · exact (Check.Within.bind (.report _ _) fun _ => .pure _ : Check.Within [] _) _
  · exact .refl _

theorem interned_declareParams (hctx : ctx.Sound printName) (hf : Clean ctx.program f)
    {names : Names} {scope : Scope} (hscope : BodyScope ctx.program f.table ret names scope)
    (outer : Pos) {params : List VarDecl} (htypes : ∀ param ∈ params, ctx.program.Resolves param.ty)
    (hnames : (params.map (·.name)).Nodup)
    (hfree : ∀ param ∈ params, names.var? param.name = none) : ∀ param ∈ params,
    Interned ctx.program ((declareParams ctx scope outer params).run f).2 param.ty := by
  induction params generalizing f names scope with
  | nil => simp
  | cons param rest ih =>
    rw [List.map_cons, List.nodup_cons] at hnames
    rw [List.forall_mem_cons] at htypes hfree
    have hdecided := decides_declareVar hctx hf hscope outer .parameter .duplicateParam param
    have hclean := hdecided.clean ⟨htypes.1, hfree.1⟩
    have hbehind := (hdecided.post ⟨htypes.1, hfree.1⟩).2.2
    rw [declareParams, Check.run_bind, List.forall_mem_cons]
    refine ⟨(interned_declareVar hctx hf scope outer .parameter .duplicateParam htypes.1).mono
      (Check.Within.declareParams ctx _ outer rest _ : Findings.Grows [] _ _).elems,
      ih hclean hbehind htypes.2 hnames.2 fun other hother => ?_⟩
    rw [Names.var?_declare, if_neg fun heq => hnames.1 (List.mem_map.2 ⟨other, hother, heq.symm⟩)]
    exact hfree.2 other hother

theorem within_checkBlock (ctx : Context) (scope : Scope) (outer : Pos) : (body : Block) →
    Check.Within (Source.stmtNodes body.stmts) (checkBlock ctx scope outer body)
  | .mk stmts _ => .checkStmts ctx scope.push _ stmts

/-- **The check of a well-typed function comes to its body** without errors,
with the parameters in scope and the types of the signature interned. -/
theorem exists_body (hctx : ctx.Sound printName) (hf : Clean ctx.program f)
    {this? : Option String} {scope : Scope}
    (hscope : ScopeOk ctx.program f.table ⟨this?, []⟩ scope) (outer : Pos) {g : FunctionDecl}
    (h : FunctionOk ctx.program printName this? g) : ∃ inner f', Clean ctx.program f' ∧
      BodyScope ctx.program f'.table g.returnType ⟨this?, g.params.reverse⟩ inner ∧
      Interned ctx.program f' g.returnType ∧ (∀ param ∈ g.params, Interned ctx.program f' param.ty) ∧
      (checkFunction ctx scope outer g).run f =
        (checkBlock ctx inner (g.pos.getD outer) g.body).run f' := by
  have hdecided := decides_resolveReported hctx.classes.lookup hf g.returnType .return_
    (g.pos.getD outer)
  have hclean := hdecided.clean h.returnType
  obtain ⟨hle, -, hd⟩ := hdecided.post h.returnType
  have hreturn := interned_resolveReported hctx hf h.returnType .return_ (g.pos.getD outer)
  unfold checkFunction
  rw [Check.run_bind]
  generalize (resolveReported ctx g.returnType .return_ (g.pos.getD outer)).run f = first at *
  obtain ⟨returnTy, f₁⟩ := first
  have hscope₁ : BodyScope ctx.program f₁.table g.returnType ⟨this?, []⟩
      (scope.setReturn returnTy) := by
    have h := hscope.mono hle
    exact ⟨⟨h.var, h.noVar, h.outside, h.this⟩, hd⟩
  have hdecided' := decides_declareParams hctx hclean hscope₁ (g.pos.getD outer) g.params
  have hok : (∀ param ∈ g.params, ctx.program.Resolves param.ty) ∧ (g.params.map (·.name)).Nodup ∧
      ∀ param ∈ g.params, (⟨this?, []⟩ : Names).var? param.name = none :=
    ⟨h.paramTypes, h.paramNames, fun _ _ => rfl⟩
  obtain ⟨hle', -, hscope'⟩ := hdecided'.post hok
  rw [List.append_nil] at hscope'
  exact ⟨_, _, hdecided'.clean hok, hscope', hreturn.mono hle',
    interned_declareParams hctx hclean hscope₁ (g.pos.getD outer) h.paramTypes h.paramNames
      fun _ _ => rfl, rfl⟩

end Signatures

/-! ## Functions and classes -/

/-- Checking a well-typed function makes the property true of it, and it stays
true when other nodes are checked. -/
structure Establishes (ctx : Context) (printName : String)
    (P : Option String → FunctionDecl → Findings → Prop) : Prop where
  mono : ∀ {nodes f f' this? g}, Findings.Grows nodes f f' → (∀ id ∈ g.nodes, id ∉ nodes) →
    P this? g f → P this? g f'
  check : ∀ {f this? scope g} outer, Clean ctx.program f →
    ScopeOk ctx.program f.table ⟨this?, []⟩ scope → g.nodes.Nodup →
    FunctionOk ctx.program printName this? g → P this? g ((checkFunction ctx scope outer g).run f).2

namespace Establishes

variable {ctx : Context} {printName : String} {f : Findings}
variable {P : Option String → FunctionDecl → Findings → Prop}

theorem functions (hP : Establishes ctx printName P) (hctx : ctx.Sound printName)
    (hf : Clean ctx.program f) {this? : Option String} {scope : Scope}
    (hscope : ScopeOk ctx.program f.table ⟨this?, []⟩ scope) (outer : Pos)
    {fs : List FunctionDecl} (hnodup : (Source.bodyNodes fs).Nodup)
    (h : ∀ g ∈ fs, FunctionOk ctx.program printName this? g) : ∀ g ∈ fs,
    P this? g ((checkFunctions ctx scope outer fs).run f).2 := by
  induction fs generalizing f with
  | nil => simp
  | cons g rest ih =>
    rw [List.forall_mem_cons] at h ⊢
    rw [Source.bodyNodes, List.flatMap_cons, List.nodup_append'] at hnodup
    obtain ⟨hg, hrest, hdisj⟩ := hnodup
    obtain ⟨hclean, hle⟩ := (decides_checkFunction hctx hf hscope outer g).onward h.1
    exact ⟨hP.mono (Check.Within.checkFunctions ctx scope outer rest _) hdisj
      (hP.check outer hf hscope hg h.1), ih hclean (hscope.mono hle) hrest h.2⟩

theorem classes (hP : Establishes ctx printName P) (hctx : ctx.Sound printName)
    (hf : Clean ctx.program f) (outer : Pos) {classes : List (ClassDecl × Nat)}
    (hclasses : ∀ c ∈ classes, ctx.program.classes[c.2]? = some c.1)
    (hnodup : (classes.flatMap fun c => Source.bodyNodes c.1.methods).Nodup)
    (h : ∀ c ∈ classes, ∀ m ∈ c.1.methods,
      FunctionOk ctx.program printName (some c.1.name) m) : ∀ c ∈ classes, ∀ m ∈ c.1.methods,
    P (some c.1.name) m ((checkClasses ctx outer classes).run f).2 := by
  induction classes generalizing f with
  | nil => simp
  | cons c rest ih =>
    rw [List.forall_mem_cons] at hclasses h ⊢
    rw [List.flatMap_cons, List.nodup_append'] at hnodup
    obtain ⟨hc, hrest, hdisj⟩ := hnodup
    have hvisible := decides_declareVisible hctx hf hclasses.1
    have hmethods : ∀ m ∈ c.1.methods,
        P (some c.1.name) m ((checkClass ctx outer c.2 c.1).run f).2 :=
      hP.functions hctx (hvisible.clean trivial) (hvisible.post trivial).2.2.push _ hc h.1
    have hclean := (decides_checkClass hctx hf outer hclasses.1).clean h.1
    refine ⟨fun m hm => hP.mono (Check.Within.checkClasses ctx outer rest _)
      (fun id hid => hdisj ?_) (hmethods m hm), ih hclean hclasses.2 hrest h.2⟩
    exact List.mem_flatMap.2 ⟨m, hm, hid⟩

end Establishes

/-! ## Programs -/

/-- What is listed of classes with their indices is listed of the classes. -/
theorem flatMap_zipIdx {α β : Type} (xs : List α) (g : α → List β) :
    (xs.zipIdx.flatMap fun x => g x.1) = xs.flatMap g := by
  conv_rhs => rw [← List.zipIdx_map_fst 0 xs]
  rw [List.flatMap_map]

section Programs

variable {p : Program} {printName : String}

theorem WellTyped.members (h : WellTyped p printName) : ∀ c ∈ p.classes, MembersOk p c :=
  fun c hc => ⟨h.fieldTypes c hc, h.classes.fields c hc, h.classes.methods c hc⟩

theorem WellTyped.resolves (h : WellTyped p printName) (fallback : Pos) :
    ((ClassTable.ofProgram p).resolveAll p fallback).2 = [] :=
  (ClassTable.resolveAll_errors_eq_nil_iff p fallback h.classes.fields h.classes.methods).2
    h.classes.hierarchy

/-- Of a well-typed program the analysis knows what it has to. -/
theorem WellTyped.sound_programContext (h : WellTyped p printName) (fallback : Pos) :
    (programContext p printName fallback).Sound printName :=
  Typing.sound_programContext h.functionNames h.classes.names (h.resolves fallback) h.members
    h.signaturesResolve

/-- The analysis without errors starts without errors. -/
theorem clean_of_ok (hok : (analyze p ⟨printName⟩).ok = true) :
    Clean p (programFindings p printName (p.pos.getD .origin)) := by
  refine clean_programFindings (List.prefix_nil.1 ?_)
  rw [← (ok_iff_errors_eq_nil p printName).1 hok]
  exact Check.Adds.checkProgram p printName (p.pos.getD .origin) _

/-- Where nothing is reported, types stand for written ones. -/
theorem tableOk_analyze (hok : (analyze p ⟨printName⟩).ok = true) :
    TableOk p (analyze p ⟨printName⟩).findings.table := by
  have h := WellTyped.of_ok hok
  exact ((decides_checkProgram h.functionNames h.classes.names (h.resolves _)
    (clean_of_ok hok)).post ⟨h.members, h.main, h.functions, h.methods⟩).2.1

/-- Interned types are found by how they are written. -/
theorem lookupType_of_denotes {a : Analysis} (ht : TableOk p a.findings.table)
    (hlookup : ∀ name, a.classes.lookup name = p.classId? name) {ty : Ty} {written : TypeExpr}
    (hd : Denotes p a.findings.table ty written) : a.lookupType written = some ty := by
  induction hd with
  | int => rfl
  | bool => rfl
  | class_ hid => rw [Analysis.lookupType, hlookup, hid, Option.map_some]
  | @array id elem _ helem _ ih =>
    have hidx : a.findings.table.elems.idxOf? elem = some id := idxOf?_eq_of_nodup ht.nodup helem
    rw [Analysis.lookupType, ih, Option.bind_some, TypeTable.lookupArray, hidx, Option.map_some]

/-- Where nothing is reported, the types of fields are interned. -/
theorem interned_fieldTypes (hok : (analyze p ⟨printName⟩).ok = true) : ∀ c ∈ p.classes,
    ∀ field ∈ c.fields, Interned p (analyze p ⟨printName⟩).findings field.ty := by
  have h := WellTyped.of_ok hok
  have hctx := h.sound_programContext (p.pos.getD .origin)
  have htypes := ((decides_checkMembers hctx.classes.lookup (clean_of_ok hok) (p.pos.getD .origin)
    p.classes).post h.members).2.2
  have hwithin : Check.Within p.nodes (do
      checkMain (programContext p printName (p.pos.getD .origin)) (p.pos.getD .origin)
      checkFunctions (programContext p printName (p.pos.getD .origin)) .empty (p.pos.getD .origin)
        p.functions
      checkClasses (programContext p printName (p.pos.getD .origin)) (p.pos.getD .origin)
        p.classes.zipIdx) :=
    .bind (.checkMain _ _) fun _ => .bind
      ((Check.Within.checkFunctions _ _ _ _).weaken (List.subset_append_left _ _)) fun _ =>
        (Check.Within.checkClasses _ _ _).weaken <| by
          rw [flatMap_zipIdx p.classes fun c => Source.bodyNodes c.methods]
          exact List.subset_append_right _ _
  intro c hc field hfield
  obtain ⟨ty, hd⟩ := htypes c hc field hfield
  exact ⟨ty, hd.mono (hwithin _).elems⟩

/-- **What is established of checked functions** holds in the end of all
functions and methods, where nothing is reported. -/
theorem Establishes.analyze {P : Option String → FunctionDecl → Findings → Prop}
    (hP : Establishes (programContext p printName (p.pos.getD .origin)) printName P)
    (hnodup : p.nodes.Nodup) (hok : (analyze p ⟨printName⟩).ok = true) :
    (∀ g ∈ p.functions, P none g (analyze p ⟨printName⟩).findings) ∧
      ∀ c ∈ p.classes, ∀ m ∈ c.methods, P (some c.name) m (analyze p ⟨printName⟩).findings := by
  have h := WellTyped.of_ok hok
  have hctx := h.sound_programContext (p.pos.getD .origin)
  rw [Program.nodes, List.nodup_append'] at hnodup
  obtain ⟨hfunctions, hmethods, hdisj⟩ := hnodup
  rw [← flatMap_zipIdx] at hmethods hdisj
  have hclean₁ := (decides_checkMembers hctx.classes.lookup (clean_of_ok hok) (p.pos.getD .origin)
    p.classes).clean h.members
  have hclean₂ := (decides_checkMain hctx.toNamed hctx.classes.lookup hclean₁
    (p.pos.getD .origin)).clean h.main
  have hclean₃ := (decides_checkFunctions hctx hclean₂ (scopeOk_empty _) (p.pos.getD .origin)
    p.functions).clean h.functions
  have hmem : ∀ c ∈ p.classes.zipIdx, p.classes[c.2]? = some c.1 := fun c hc =>
    List.mk_mem_zipIdx_iff_getElem?.1 hc
  refine ⟨fun g hg => ?_, fun c hc => ?_⟩
  · exact hP.mono (Check.Within.checkClasses _ _ _ _)
      (fun id hid => hdisj (List.mem_flatMap.2 ⟨g, hg, hid⟩))
      (hP.functions hctx hclean₂ (scopeOk_empty _) _ hfunctions h.functions g hg)
  · obtain ⟨id, hid⟩ := List.mem_iff_getElem?.1 hc
    exact hP.classes hctx hclean₃ (p.pos.getD .origin) hmem hmethods
      (fun c hc => h.methods c.1 (List.mem_of_getElem? (hmem c hc))) (c, id)
      (List.mk_mem_zipIdx_iff_getElem?.2 hid)

end Programs

end ClassLang.Typing
