import ClassLang.Proofs.Typing.Declarations
import ClassLang.Proofs.Typing.Statements
/-!
# Typing — the analysis decides the type system

`analyze_ok_iff`: an analysis finds no errors exactly if the program is
well typed. Bodies are checked in turn while the signatures they rely on
may still turn out wrong, so the proof first settles whether all
signatures resolve: if one does not, the check of its own function reports
it (`faults_checkFunction`), wherever that comes; if all do, every body is
decided by itself.
-/


namespace ClassLang.Typing

open Source (NodeId TypeExpr Stmt VarDecl FunctionDecl ClassDecl Program)

/-! ## Functions -/

section Functions

variable {ctx : Context} {printName : String} {f : Findings} {ret : TypeExpr}

theorem Check.Adds.declareParams (ctx : Context) (scope : Scope) (outer : Pos)
    (params : List VarDecl) : Check.Adds (declareParams ctx scope outer params) :=
  .of_within (Check.Within.declareParams ctx scope outer params : Check.Within [] _)

theorem Check.Adds.checkBlock (ctx : Context) (scope : Scope) (outer : Pos) :
    (body : Source.Block) → Check.Adds (checkBlock ctx scope outer body)
  | .mk stmts _ => .checkStmts ctx scope.push _ stmts

/-- **Parameters are reported exactly if a type does not resolve or a name
repeats.** -/
theorem decides_declareParams (hctx : ctx.Sound printName) (hf : Clean ctx.program f)
    {names : Names} {scope : Scope} (hscope : BodyScope ctx.program f.table ret names scope)
    (outer : Pos) (params : List VarDecl) :
    Decides ctx.program (declareParams ctx scope outer params) f
      ((∀ param ∈ params, ctx.program.Resolves param.ty) ∧ (params.map (·.name)).Nodup ∧
        ∀ param ∈ params, names.var? param.name = none)
      fun scope' t => BodyScope ctx.program t ret
        { names with vars := params.reverse ++ names.vars } scope' := by
  induction params generalizing f names scope with
  | nil => exact (Decides.pure hf hscope).congr (by simp)
  | cons param rest ih =>
    rw [declareParams]
    refine (((decides_declareVar hctx hf hscope _ .parameter .duplicateParam param).bind
      (fun _ => .declareParams ctx _ _ _) fun _ scope' f' hf' _ hscope' =>
        ih hf' hscope').congr ?_).mono fun _ scope' t _ hscope' => ?_
    · have hput (other : VarDecl) : (names.declare param).var? other.name = none ↔
          other.name ≠ param.name ∧ names.var? other.name = none := by
        rw [Names.var?_declare]
        by_cases hname : param.name = other.name
        · simp [hname]
        · simp [hname, Ne.symm hname]
      simp only [hput, List.map_cons, List.nodup_cons, List.forall_mem_cons, List.mem_map,
        not_exists, not_and, forall_and]
      exact ⟨fun ⟨⟨ht, hv⟩, hr, hn, hne, hs⟩ => ⟨⟨ht, hr⟩, ⟨hne, hn⟩, hv, hs⟩,
        fun ⟨⟨ht, hr⟩, ⟨hne, hn⟩, hv, hs⟩ => ⟨⟨ht, hv⟩, hr, hn, hne, hs⟩⟩
    · simpa [Names.declare] using hscope'

/-- **Checking a function reports nothing exactly if it is well typed.** -/
theorem decides_checkFunction (hctx : ctx.Sound printName) (hf : Clean ctx.program f)
    {this? : Option String} {scope : Scope}
    (hscope : ScopeOk ctx.program f.table ⟨this?, []⟩ scope) (outer : Pos) (g : FunctionDecl) :
    Decides ctx.program (checkFunction ctx scope outer g) f
      (FunctionOk ctx.program printName this? g) fun _ _ => True := by
  refine ((decides_resolveReported hctx.classes.lookup hf g.returnType .return_ _).bind
    (fun _ => .bind (.declareParams ctx _ _ _) fun _ => .checkBlock ctx _ _ _) ?_).congr
      (show ctx.program.Resolves g.returnType ∧
        ((∀ param ∈ g.params, ctx.program.Resolves param.ty) ∧ (g.params.map (·.name)).Nodup ∧
          ∀ param ∈ g.params, (⟨this?, []⟩ : Names).var? param.name = none) ∧
        StmtsOk ctx.program printName g.returnType ⟨this?, g.params.reverse⟩ g.body.stmts ↔ _ from
        ⟨fun ⟨hret, ⟨hparams, hnames, _⟩, hbody⟩ => ⟨hret, hparams, hnames, hbody⟩,
          fun h => ⟨h.returnType, ⟨h.paramTypes, h.paramNames, fun _ _ => rfl⟩, h.body⟩⟩)
  intro _ returnTy f₁ hf₁ hle₁ hd
  have hscope₁ : BodyScope ctx.program f₁.table g.returnType ⟨this?, []⟩
      (scope.setReturn returnTy) := by
    have h := hscope.mono hle₁
    exact ⟨⟨h.var, h.noVar, h.outside, h.this⟩, hd⟩
  refine (decides_declareParams hctx hf₁ hscope₁ _ g.params).bind
    (fun _ => .checkBlock ctx _ _ _) fun _ scope' f₂ hf₂ _ hscope' => ?_
  rw [List.append_nil] at hscope'
  obtain ⟨_, _, _, _, ⟨stmts, pos⟩, _⟩ := g
  exact decides_checkStmts hctx hf₂ hscope'.push _ stmts

theorem Check.Adds.checkFunctions (ctx : Context) (scope : Scope) (outer : Pos)
    (fs : List FunctionDecl) : Check.Adds (checkFunctions ctx scope outer fs) :=
  .of_within (.checkFunctions ctx scope outer fs)

theorem decides_checkFunctions (hctx : ctx.Sound printName) (hf : Clean ctx.program f)
    {this? : Option String} {scope : Scope}
    (hscope : ScopeOk ctx.program f.table ⟨this?, []⟩ scope) (outer : Pos)
    (fs : List FunctionDecl) :
    Decides ctx.program (checkFunctions ctx scope outer fs) f
      (∀ g ∈ fs, FunctionOk ctx.program printName this? g) fun _ _ => True := by
  induction fs generalizing f with
  | nil => exact (Decides.pure hf trivial).congr (by simp)
  | cons g rest ih =>
    refine ((decides_checkFunction hctx hf hscope outer g).bind
      (fun _ => .checkFunctions ctx _ _ _) fun _ _ f' hf' hle _ =>
        ih hf' (hscope.mono hle)).congr ?_
    rw [List.forall_mem_cons]

end Functions

/-! ## Classes -/

section Classes

variable {ctx : Context} {printName : String} {f : Findings}

/-- What declaring fields brings into scope. -/
structure FieldsPut (p : Program) (t : TypeTable) (fields : Table String MemberRef)
    (scope scope' : Scope) : Prop where
  this : scope'.thisTy = scope.thisTy
  var : ∀ name, scope'.lookupVar name = scope.lookupVar name
  field : ∀ name ref, fields.get? name = some ref → ∃ field ty, fieldDecl? p ref = some field ∧
    scope'.lookupField name = some ⟨ty, .field ref⟩ ∧ Denotes p t ty field.ty
  other : ∀ name, fields.get? name = none → scope'.lookupField name = scope.lookupField name

theorem lookupField_putField (scope : Scope) (name other : String) (info : VarInfo) :
    (scope.putField name info).lookupField other =
      if name = other then some info else scope.lookupField other := by
  by_cases h : name = other
  · simp [Scope.lookupField, Scope.putField, h]
  · simp [Scope.lookupField, Scope.putField, List.findSome?_cons, Table.get?_insert_of_ne _ _ h, h]

/-- Declaring the visible fields of a class reports nothing. -/
theorem decides_declareFields (hctx : ctx.Sound printName) (hf : Clean ctx.program f)
    (scope : Scope) (fields : Table String MemberRef) (hnodup : (fields.map (·.1)).Nodup)
    (hfields : ∀ entry ∈ fields, ∃ field, fieldDecl? ctx.program entry.2 = some field) :
    Decides ctx.program (declareFields ctx scope fields) f True
      fun scope' t => FieldsPut ctx.program t fields scope scope' := by
  induction fields generalizing f scope with
  | nil =>
    exact .pure hf ⟨rfl, fun _ => rfl, fun _ _ h => by simp at h, fun _ _ => rfl⟩
  | cons entry rest ih =>
    obtain ⟨name, ref⟩ := entry
    rw [List.map_cons, List.nodup_cons] at hnodup
    rw [List.forall_mem_cons] at hfields
    obtain ⟨field, hfield⟩ := hfields.1
    rw [declareFields]
    refine ((decides_fieldType hctx hf hfield).bind
      (fun _ => .of_within (.declareFields ctx _ _ : Check.Within [] _))
      fun _ ty f' hf' _ hd => (ih hf' (scope.putField name ⟨ty, .field ref⟩) hnodup.2
        hfields.2).mono fun _ scope' t hle hput => ?_).congr (show True ∧ True ↔ True by simp)
    refine ⟨hput.this, hput.var, fun other ref' href => ?_, fun other hother => ?_⟩
    · by_cases hname : name = other
      · subst hname
        rw [Table.get?, if_pos rfl] at href
        obtain rfl := Option.some.inj href
        refine ⟨field, ty, hfield, ?_, hd.mono hle⟩
        rw [hput.other name (Table.get?_eq_none_of_not_mem hnodup.1), lookupField_putField, if_pos rfl]
      · rw [Table.get?, if_neg hname] at href
        exact hput.field other ref' href
    · rw [Table.get?] at hother
      by_cases hname : name = other
      · rw [if_pos hname] at hother
        cases hother
      · rw [if_neg hname] at hother
        rw [hput.other other hother, lookupField_putField, if_neg hname]

/-- The visible fields of a class, as checking reads them. -/
def Context.visible (ctx : Context) (id : ClassId) : Table String MemberRef :=
  ((ctx.classes.info id).map (·.fields)).getD []

/-- **Declaring the visible fields of a class** brings into scope what its
methods see. -/
theorem decides_declareVisible (hctx : ctx.Sound printName) (hf : Clean ctx.program f)
    {id : ClassId} {c : ClassDecl} (hc : ctx.program.classes[id]? = some c) :
    Decides ctx.program
      (declareFields ctx (Scope.empty.setThis (.class_ id)) (ctx.visible id)) f True
      fun scope t => ScopeOk ctx.program t ⟨some c.name, []⟩ scope := by
  have hget (name : String) : (ctx.visible id).get? name = ctx.program.fieldRef? id name := by
    rw [← hctx.classes.field, Context.visible]
    cases ctx.classes.info id <;> rfl
  have hnodup : ((ctx.visible id).map (·.1)).Nodup := by
    rw [Context.visible]
    cases hinfo : ctx.classes.info id with
    | none => simp
    | some info => exact hctx.classes.keys id info hinfo
  have hfields : ∀ entry ∈ ctx.visible id,
      ∃ field, fieldDecl? ctx.program entry.2 = some field := by
    intro entry hentry
    have href := Table.get?_of_mem hnodup hentry
    rw [hget] at href
    obtain ⟨field, hfield, -⟩ := Program.exists_fieldDecl href
    exact ⟨field, hfield⟩
  refine (decides_declareFields hctx hf _ _ hnodup hfields).mono fun _ scope t _ hput => ?_
  refine ⟨fun _ _ h => ?_, fun name _ => hput.var name, fun h => ?_, fun class_ hclass => ?_⟩
  · cases h
  · cases h
  · obtain rfl := Option.some.inj hclass
    refine ⟨id, Program.classId?_name hctx.sound.names hc, hput.this, fun name hname => ?_,
      fun name ref href => hput.field name ref (by rw [hget, href])⟩
    rw [hput.other name (by rw [hget, hname])]
    rfl

/-- **Checking the methods of a class reports nothing exactly if they are
well typed.** -/
theorem decides_checkClass (hctx : ctx.Sound printName) (hf : Clean ctx.program f) (outer : Pos)
    {id : ClassId} {c : ClassDecl} (hc : ctx.program.classes[id]? = some c) :
    Decides ctx.program (checkClass ctx outer id c) f
      (∀ m ∈ c.methods, FunctionOk ctx.program printName (some c.name) m) fun _ _ => True :=
  ((decides_declareVisible hctx hf hc).bind (fun _ => .checkFunctions ctx _ _ _)
    fun _ _ _ hf' _ hscope => decides_checkFunctions hctx hf' hscope.push _ c.methods).congr
      (by rw [true_and])

theorem decides_checkClasses (hctx : ctx.Sound printName) (hf : Clean ctx.program f) (outer : Pos)
    (classes : List (ClassDecl × Nat))
    (hclasses : ∀ c ∈ classes, ctx.program.classes[c.2]? = some c.1) :
    Decides ctx.program (checkClasses ctx outer classes) f
      (∀ c ∈ classes, ∀ m ∈ c.1.methods,
        FunctionOk ctx.program printName (some c.1.name) m) fun _ _ => True := by
  induction classes generalizing f with
  | nil => exact (Decides.pure hf trivial).congr (by simp)
  | cons c rest ih =>
    rw [List.forall_mem_cons] at hclasses
    refine ((decides_checkClass hctx hf outer hclasses.1).bind
      (fun _ => .of_within (.checkClasses ctx outer rest)) fun _ _ f' hf' _ _ =>
        ih hf' hclasses.2).congr ?_
    rw [List.forall_mem_cons]

end Classes

/-! ## Signatures that do not resolve -/

/-- The check reports something, wherever it starts. -/
def Check.Faults {α : Type} (x : Check α) : Prop := ∀ f, (x.run f).2.errors ≠ []

namespace Check.Faults

variable {α β : Type} {x : Check α}

/-- What is reported stays. -/
theorem before {k : α → Check β} (hx : Faults x) (hk : ∀ a, Adds (k a)) : Faults (x >>= k) :=
  fun f herr => hx f (List.prefix_nil.1 (herr ▸ hk _ _))

theorem behind {k : α → Check β} (hk : ∀ a, Faults (k a)) : Faults (x >>= k) := fun _ => hk _ _

variable {ctx : Context}

theorem resolveReported (hlookup : ∀ name, ctx.classes.lookup name = ctx.program.classId? name)
    {ty : TypeExpr} (hty : ¬ ctx.program.Resolves ty) (role : TypeRole) (pos : Pos) :
    Faults (Typing.resolveReported ctx ty role pos) := fun f => by
  have hrun : (Typing.resolveReported ctx ty role pos).run f =
      (.any, { f with errors := f.errors ++ [⟨.unresolvedType ty.text role, pos⟩] }) := by
    rw [Typing.resolveReported, StateT.run_bind, run_resolveType_of_not_resolves hlookup hty]
    rfl
  simp [hrun]

theorem declareParams (hlookup : ∀ name, ctx.classes.lookup name = ctx.program.classId? name)
    {params : List VarDecl} (h : ∃ param ∈ params, ¬ ctx.program.Resolves param.ty)
    (scope : Scope) (outer : Pos) : Faults (Typing.declareParams ctx scope outer params) := by
  induction params generalizing scope with
  | nil => simp at h
  | cons param rest ih =>
    by_cases hparam : ctx.program.Resolves param.ty
    · refine behind fun scope => ih ?_ scope
      simpa [hparam] using h
    · refine before (before (resolveReported hlookup hparam _ _) fun ty => ?_) fun _ =>
        .declareParams ctx _ _ _
      split
      · exact .bind (.report _ _) fun _ => .pure _
      · exact .pure _

/-- **A function whose signature does not resolve is reported.** -/
theorem checkFunction (hlookup : ∀ name, ctx.classes.lookup name = ctx.program.classId? name)
    {g : FunctionDecl} (h : ¬ (ctx.program.Resolves g.returnType ∧
      ∀ param ∈ g.params, ctx.program.Resolves param.ty)) (scope : Scope) (outer : Pos) :
    Faults (Typing.checkFunction ctx scope outer g) := by
  by_cases hret : ctx.program.Resolves g.returnType
  · refine behind fun ty => before ?_ fun _ => .checkBlock ctx _ _ _
    exact declareParams hlookup (by simpa [hret] using h) _ _
  · exact before (resolveReported hlookup hret _ _) fun _ =>
      .bind (.declareParams ctx _ _ _) fun _ => .checkBlock ctx _ _ _

theorem checkFunctions (hlookup : ∀ name, ctx.classes.lookup name = ctx.program.classId? name)
    {fs : List FunctionDecl} (h : ∃ g ∈ fs, ¬ (ctx.program.Resolves g.returnType ∧
      ∀ param ∈ g.params, ctx.program.Resolves param.ty)) (scope : Scope) (outer : Pos) :
    Faults (Typing.checkFunctions ctx scope outer fs) := by
  induction fs with
  | nil => simp at h
  | cons g rest ih =>
    by_cases hg : ctx.program.Resolves g.returnType ∧ ∀ param ∈ g.params, ctx.program.Resolves param.ty
    · refine behind fun _ => ih ?_
      obtain ⟨g', hmem, hg'⟩ := h
      rcases List.mem_cons.1 hmem with rfl | hmem
      · exact absurd hg hg'
      · exact ⟨g', hmem, hg'⟩
    · exact before (checkFunction hlookup hg _ _) fun _ => .checkFunctions ctx _ _ _

theorem checkClasses (hlookup : ∀ name, ctx.classes.lookup name = ctx.program.classId? name)
    {classes : List (ClassDecl × Nat)} (h : ∃ c ∈ classes, ∃ g ∈ c.1.methods,
      ¬ (ctx.program.Resolves g.returnType ∧ ∀ param ∈ g.params, ctx.program.Resolves param.ty))
    (outer : Pos) : Faults (Typing.checkClasses ctx outer classes) := by
  induction classes with
  | nil => simp at h
  | cons c rest ih =>
    obtain ⟨c', hmem, hc'⟩ := h
    rcases List.mem_cons.1 hmem with rfl | hmem
    · refine before (behind fun _ => checkFunctions hlookup hc' _ _) fun _ => ?_
      exact .of_within (.checkClasses ctx outer rest)
    · exact behind fun _ => ih ⟨c', hmem, hc'⟩

end Check.Faults

/-! ## Programs -/

/-- The return types and the parameter types of all functions and methods
resolve. -/
def SignaturesResolve (p : Program) : Prop :=
  (∀ f ∈ p.functions, p.Resolves f.returnType ∧ ∀ param ∈ f.params, p.Resolves param.ty) ∧
    ∀ c ∈ p.classes, ∀ m ∈ c.methods,
      p.Resolves m.returnType ∧ ∀ param ∈ m.params, p.Resolves param.ty

theorem WellTyped.signaturesResolve {p : Program} {printName : String}
    (h : WellTyped p printName) : SignaturesResolve p :=
  ⟨fun f hf => ⟨(h.functions f hf).returnType, (h.functions f hf).paramTypes⟩,
    fun c hc m hm => ⟨(h.methods c hc m hm).returnType, (h.methods c hc m hm).paramTypes⟩⟩

section Programs

variable (p : Program) (printName : String)

/-- What the analysis knows before it checks anything. -/
def programContext (fallback : Pos) : Context :=
  ⟨p, ((ClassTable.ofProgram p).resolveAll p fallback).1,
    (FunctionTable.ofProgram p printName fallback).1⟩

/-- All checks of a program in turn. -/
def checkProgram (fallback : Pos) : Check Unit := do
  checkMembers (programContext p printName fallback) fallback p.classes
  checkMain (programContext p printName fallback) fallback
  checkFunctions (programContext p printName fallback) .empty fallback p.functions
  checkClasses (programContext p printName fallback) fallback p.classes.zipIdx

/-- What the checks start from. -/
def programFindings (fallback : Pos) : Findings :=
  .ofTable (.ofClassNames (p.classes.map (·.name))) <|
    (FunctionTable.ofProgram p printName fallback).2 ++ ClassTable.duplicateErrors p fallback ++
      ((ClassTable.ofProgram p).resolveAll p fallback).2

theorem analyze_eq : analyze p ⟨printName⟩ =
    ⟨((checkProgram p printName (p.pos.getD .origin)).run
        (programFindings p printName (p.pos.getD .origin))).2,
      (programContext p printName (p.pos.getD .origin)).classes,
      (programContext p printName (p.pos.getD .origin)).functions⟩ := rfl

variable {p printName}

theorem Check.Adds.checkMembers (ctx : Context) (outer : Pos) (classes : List ClassDecl) :
    Check.Adds (checkMembers ctx outer classes) :=
  .of_within (.checkMembers ctx outer classes : Check.Within [] _)

theorem Check.Adds.checkMain (ctx : Context) (fallback : Pos) : Check.Adds (checkMain ctx fallback) :=
  .of_within (.checkMain ctx fallback : Check.Within [] _)

theorem Check.Adds.checkClasses (ctx : Context) (outer : Pos) (classes : List (ClassDecl × Nat)) :
    Check.Adds (checkClasses ctx outer classes) := .of_within (.checkClasses ctx outer classes)

theorem Check.Adds.checkProgram (p : Program) (printName : String) (fallback : Pos) :
    Check.Adds (checkProgram p printName fallback) :=
  .bind (.checkMembers _ _ _) fun _ => .bind (.checkMain _ _) fun _ =>
    .bind (.checkFunctions _ _ _ _) fun _ => .checkClasses _ _ _

theorem scopeOk_empty (t : TypeTable) : ScopeOk p t ⟨none, []⟩ .empty :=
  { var := fun _ _ h => by cases h
    noVar := fun _ _ => rfl
    outside := fun _ => ⟨rfl, fun _ => rfl⟩
    this := fun _ h => by cases h }

/-- Where classes and members are in order, the analysis knows of them what
it has to. -/
theorem sound_programContext {fallback : Pos}
    (hfunctions : (printName :: p.functions.map (·.name)).Nodup)
    (hclasses : (p.classes.map (·.name)).Nodup)
    (hhierarchy : ((ClassTable.ofProgram p).resolveAll p fallback).2 = [])
    (hmembers : ∀ c ∈ p.classes, MembersOk p c) (hsignatures : SignaturesResolve p) :
    (programContext p printName fallback).Sound printName := by
  obtain ⟨hsettled, hknown⟩ := ClassTable.settled_of_resolveAll hhierarchy
  have hsound : p.SoundClasses :=
    ⟨hclasses, fun c hc => (hmembers c hc).fields, fun c hc => (hmembers c hc).methods,
      hsettled.soundHierarchy hknown (fun c hc => (hmembers c hc).fields)
        fun c hc => (hmembers c hc).methods⟩
  exact ⟨named_ofProgram _ fallback hfunctions, hsettled.describes hsound hknown, hsound,
    fun c hc => (hmembers c hc).fieldTypes, hsignatures.1, hsignatures.2⟩

/-- Where names and hierarchy are in order, the checks report nothing
exactly if members, main function and bodies are. -/
theorem decides_checkProgram {fallback : Pos}
    (hfunctions : (printName :: p.functions.map (·.name)).Nodup)
    (hclasses : (p.classes.map (·.name)).Nodup)
    (hhierarchy : ((ClassTable.ofProgram p).resolveAll p fallback).2 = [])
    (hf : Clean p (programFindings p printName fallback)) :
    Decides p (checkProgram p printName fallback) (programFindings p printName fallback)
      ((∀ c ∈ p.classes, MembersOk p c) ∧ HasMain p ∧
        (∀ f ∈ p.functions, FunctionOk p printName none f) ∧
        ∀ c ∈ p.classes, ∀ m ∈ c.methods, FunctionOk p printName (some c.name) m)
      fun _ _ => True := by
  have hlookup : ∀ name, (programContext p printName fallback).classes.lookup name =
      p.classId? name := (ClassTable.settled_of_resolveAll hhierarchy).1.lookup
  have hnamed : (programContext p printName fallback).Named printName :=
    named_ofProgram _ fallback hfunctions
  by_cases hsignatures : SignaturesResolve p
  · refine (decides_checkMembers hlookup hf fallback p.classes).bind
      (fun _ => .bind (.checkMain _ _) fun _ => .bind (.checkFunctions _ _ _ _) fun _ =>
        .checkClasses _ _ _) fun hmembers _ f₁ hf₁ _ _ => ?_
    have hctx := sound_programContext hfunctions hclasses hhierarchy hmembers hsignatures
    refine (decides_checkMain hnamed hlookup hf₁ fallback).bind
      (fun _ => .bind (.checkFunctions _ _ _ _) fun _ => .checkClasses _ _ _)
      fun _ _ f₂ hf₂ _ _ => ?_
    refine (decides_checkFunctions hctx hf₂ (scopeOk_empty _) fallback p.functions).bind
      (fun _ => .checkClasses _ _ _) fun _ _ f₃ hf₃ _ _ => ?_
    refine (decides_checkClasses hctx hf₃ fallback p.classes.zipIdx fun c hc => ?_).congr
      ⟨fun h c hc => ?_, fun h c hc => ?_⟩
    · exact List.mk_mem_zipIdx_iff_getElem?.1 hc
    · obtain ⟨id, hid⟩ := List.mem_iff_getElem?.1 hc
      exact h (c, id) (List.mk_mem_zipIdx_iff_getElem?.2 hid)
    · exact h c.1 (List.mem_of_getElem? (List.mk_mem_zipIdx_iff_getElem?.1 hc))
  -- A signature that does not resolve is reported where its body is checked, also when
  -- members and main function are in order.
  · have hfaults : Check.Faults (checkProgram p printName fallback) := by
      refine .behind fun _ => .behind fun _ => ?_
      rcases not_and_or.1 hsignatures with h | h
      · refine .before (.checkFunctions hlookup ?_ _ _) fun _ => .checkClasses _ _ _
        obtain ⟨g, hg, h⟩ : ∃ g ∈ p.functions, ¬ (p.Resolves g.returnType ∧
            ∀ param ∈ g.params, p.Resolves param.ty) := by simpa using h
        exact ⟨g, hg, h⟩
      · refine .behind fun _ => .checkClasses hlookup ?_ _
        obtain ⟨c, hc, m, hm, h⟩ : ∃ c ∈ p.classes, ∃ m ∈ c.methods, ¬ (p.Resolves m.returnType ∧
            ∀ param ∈ m.params, p.Resolves param.ty) := by simpa using h
        obtain ⟨id, hid⟩ := List.mem_iff_getElem?.1 hc
        exact ⟨(c, id), List.mk_mem_zipIdx_iff_getElem?.2 hid, m, hm, h⟩
    refine (Decides.of_errors_ne (hfaults _)).congr ⟨False.elim, fun h => hsignatures ?_⟩
    exact ⟨fun f hf => ⟨(h.2.2.1 f hf).returnType, (h.2.2.1 f hf).paramTypes⟩,
      fun c hc m hm => ⟨(h.2.2.2 c hc m hm).returnType, (h.2.2.2 c hc m hm).paramTypes⟩⟩

/-- The analysis is free of errors if the checks end without one. -/
theorem ok_iff_errors_eq_nil (p : Program) (printName : String) :
    (analyze p ⟨printName⟩).ok = true ↔
      ((checkProgram p printName (p.pos.getD .origin)).run
        (programFindings p printName (p.pos.getD .origin))).2.errors = [] := by
  rw [analyze_eq, Analysis.ok, Analysis.errors, List.isEmpty_iff]

/-- The checks start without errors if names and hierarchy are in order. -/
theorem programFindings_errors_eq_nil_iff (p : Program) (printName : String) (fallback : Pos) :
    (programFindings p printName fallback).errors = [] ↔
      (printName :: p.functions.map (·.name)).Nodup ∧ (p.classes.map (·.name)).Nodup ∧
        ((ClassTable.ofProgram p).resolveAll p fallback).2 = [] := by
  simp only [programFindings, Findings.ofTable, List.append_eq_nil_iff, and_assoc,
    FunctionTable.ofProgram_errors_eq_nil_iff, ClassTable.duplicateErrors,
    ClassTable.duplicates_eq_nil_iff]
  simp

theorem clean_programFindings {fallback : Pos}
    (herr : (programFindings p printName fallback).errors = []) :
    Clean p (programFindings p printName fallback) := ⟨herr, tableOk_ofClassNames p _⟩

/-- A program that the analysis has no objections to is well typed. -/
theorem WellTyped.of_ok (h : (analyze p ⟨printName⟩).ok = true) : WellTyped p printName := by
  rw [ok_iff_errors_eq_nil] at h
  have hadds := Check.Adds.checkProgram p printName (p.pos.getD .origin)
    (programFindings p printName (p.pos.getD .origin))
  rw [h, List.prefix_nil] at hadds
  obtain ⟨hfunctions, hclasses, hhierarchy⟩ := (programFindings_errors_eq_nil_iff _ _ _).1 hadds
  obtain ⟨hmembers, hmain, hbodies, hmethods⟩ :=
    (decides_checkProgram hfunctions hclasses hhierarchy (clean_programFindings hadds)).iff.1 h
  have hsignatures : SignaturesResolve p :=
    ⟨fun f hf => ⟨(hbodies f hf).returnType, (hbodies f hf).paramTypes⟩,
      fun c hc m hm => ⟨(hmethods c hc m hm).returnType, (hmethods c hc m hm).paramTypes⟩⟩
  have hctx := sound_programContext hfunctions hclasses hhierarchy hmembers hsignatures
  exact ⟨hfunctions, hctx.sound, fun c hc => (hmembers c hc).fieldTypes, hmain, hbodies, hmethods⟩

/-- The analysis has no objections to a well-typed program. -/
theorem WellTyped.ok (h : WellTyped p printName) : (analyze p ⟨printName⟩).ok = true := by
  rw [ok_iff_errors_eq_nil]
  have hhierarchy := (ClassTable.resolveAll_errors_eq_nil_iff p (p.pos.getD .origin)
    h.classes.fields h.classes.methods).2 h.classes.hierarchy
  have hstarted := (programFindings_errors_eq_nil_iff p printName (p.pos.getD .origin)).2
    ⟨h.functionNames, h.classes.names, hhierarchy⟩
  refine (decides_checkProgram h.functionNames h.classes.names hhierarchy
    (clean_programFindings hstarted)).iff.2 ⟨fun c hc => ?_, h.main, h.functions, h.methods⟩
  exact ⟨h.fieldTypes c hc, h.classes.fields c hc, h.classes.methods c hc⟩

/-- **The analysis finds no errors exactly if the program is well typed.** -/
theorem analyze_ok_iff (p : Program) (printName : String) :
    (analyze p ⟨printName⟩).ok = true ↔ WellTyped p printName :=
  ⟨.of_ok, WellTyped.ok⟩

end Programs

end ClassLang.Typing
