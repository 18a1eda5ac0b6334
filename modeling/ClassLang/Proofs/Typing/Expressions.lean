import ClassLang.Proofs.Typing.Decision
/-!
# Typing — checking decides the typing of expressions

Where declarations are in order (`Context.Sound`) and a scope holds what
the rules say is in scope (`ScopeOk`), checking an expression reports
nothing exactly if the rules give it a type, and then the type found
stands for that type (`decides_checkExpr`).
-/


namespace ClassLang.Typing

open Source (NodeId TypeExpr Mark UnaryOp BinaryOp Expr Place VarDecl FunctionDecl ClassDecl Program)

/-- The functions of a program have names of their own, and a context knows
them by these. -/
structure Context.Named (ctx : Context) (printName : String) : Prop where
  /-- The name of the built-in that prints means the built-in. -/
  print : ctx.functions.lookup printName = some (.builtin .printInt)
  /-- Every other name means the first function that has it. -/
  function : ∀ name, name ≠ printName →
    ctx.functions.lookup name = (ctx.program.functionIndex? name).map .function
  /-- No function has the name of the built-in. -/
  notPrint : ∀ f ∈ ctx.program.functions, f.name ≠ printName

/-- The declarations of a program are in order, and a context tells of
them. -/
structure Context.Sound (ctx : Context) (printName : String) : Prop
    extends Context.Named ctx printName where
  classes : ctx.classes.Describes ctx.program
  sound : ctx.program.SoundClasses
  fieldTypes : ∀ c ∈ ctx.program.classes, ∀ field ∈ c.fields, ctx.program.Resolves field.ty
  functionTypes : ∀ f ∈ ctx.program.functions,
    ctx.program.Resolves f.returnType ∧ ∀ param ∈ f.params, ctx.program.Resolves param.ty
  methodTypes : ∀ c ∈ ctx.program.classes, ∀ f ∈ c.methods,
    ctx.program.Resolves f.returnType ∧ ∀ param ∈ f.params, ctx.program.Resolves param.ty

/-- A scope holds what is in scope by the rules. -/
structure ScopeOk (p : Program) (t : TypeTable) (names : Names) (scope : Scope) : Prop where
  var : ∀ name var, names.var? name = some var →
    ∃ ty, scope.lookupVar name = some ⟨ty, .local_ var.id⟩ ∧ Denotes p t ty var.ty
  noVar : ∀ name, names.var? name = none → scope.lookupVar name = none
  outside : names.this? = none →
    scope.thisTy = .any ∧ ∀ name, scope.lookupField name = none
  this : ∀ class_, names.this? = some class_ →
    ∃ id, p.classId? class_ = some id ∧ scope.thisTy = .class_ id ∧
      (∀ name, p.fieldRef? id name = none → scope.lookupField name = none) ∧
      ∀ name ref, p.fieldRef? id name = some ref → ∃ field ty, fieldDecl? p ref = some field ∧
        scope.lookupField name = some ⟨ty, .field ref⟩ ∧ Denotes p t ty field.ty

theorem ScopeOk.mono {p : Program} {t t' : TypeTable} {names : Names} {scope : Scope}
    (h : ScopeOk p t names scope) (hle : t.elems <+: t'.elems) : ScopeOk p t' names scope := by
  refine ⟨fun name var hvar => ?_, h.noVar, h.outside, fun class_ hclass => ?_⟩
  · obtain ⟨ty, hlookup, hd⟩ := h.var name var hvar
    exact ⟨ty, hlookup, hd.mono hle⟩
  · obtain ⟨id, hid, hthis, hnone, hsome⟩ := h.this class_ hclass
    refine ⟨id, hid, hthis, hnone, fun name ref href => ?_⟩
    obtain ⟨field, ty, hfield, hlookup, hd⟩ := hsome name ref href
    exact ⟨field, ty, hfield, hlookup, hd.mono hle⟩

/-! ## Types that fit -/

section Fits

variable {p : Program} {found : ExprTy}

theorem fits_int_iff : Fits p found (.written .int) ↔ found = .written .int :=
  ⟨fun h => by cases h; rfl, fun h => h ▸ .refl _⟩

theorem fits_bool_iff : Fits p found (.written .bool) ↔ found = .written .bool :=
  ⟨fun h => by cases h; rfl, fun h => h ▸ .refl _⟩

end Fits

/-! ## Parts of checks -/

section Parts

variable {ctx : Context} {printName : String} {f : Findings}

/-- A written type resolves without a report. -/
theorem decides_resolveType
    (hlookup : ∀ name, ctx.classes.lookup name = ctx.program.classId? name)
    (hf : Clean ctx.program f) {ty : TypeExpr} (hty : ctx.program.Resolves ty) :
    Decides ctx.program (resolveType ctx ty) f True
      fun found t => Denotes ctx.program t found ty := by
  obtain ⟨ht, hd⟩ := denotes_resolve hlookup hf.table hty
  exact ⟨⟨fun _ => trivial, fun _ => hf.errors⟩,
    fun _ => ⟨prefix_resolve ctx.classes ty f.table, ht, hd⟩⟩

theorem run_resolveType_of_not_resolves
    (hlookup : ∀ name, ctx.classes.lookup name = ctx.program.classId? name) {ty : TypeExpr}
    (hty : ¬ ctx.program.Resolves ty) (f : Findings) :
    (resolveType ctx ty).run f = (.invalid, f) := by
  show ((resolve ctx.classes ty f.table).1, { f with table := _ }) = _
  rw [resolve_of_not_resolves hlookup f.table hty]

/-- A type that is looked up is the integers only if it is written so. -/
theorem decides_findType (hlookup : ∀ name, ctx.classes.lookup name = ctx.program.classId? name)
    (hf : Clean ctx.program f) (ty : TypeExpr) :
    Decides ctx.program (resolveType ctx ty) f True fun found _ => found = .int ↔ ty = .int := by
  by_cases hty : ctx.program.Resolves ty
  · refine (decides_resolveType hlookup hf hty).mono fun _ found t _ hd => ?_
    cases hd <;> simp
  · have hrun := run_resolveType_of_not_resolves hlookup hty f
    have hne : ty ≠ .int := fun heq => hty (heq ▸ trivial)
    exact ⟨by simp [hrun, hf.errors], fun _ => by simp [hrun, hf.table, hne]⟩

/-- **A declared type is reported exactly if it does not resolve.** -/
theorem decides_resolveReported
    (hlookup : ∀ name, ctx.classes.lookup name = ctx.program.classId? name)
    (hf : Clean ctx.program f) (ty : TypeExpr) (role : TypeRole) (pos : Pos) :
    Decides ctx.program (resolveReported ctx ty role pos) f (ctx.program.Resolves ty)
      fun found t => Denotes ctx.program t found ty := by
  by_cases hty : ctx.program.Resolves ty
  · have hadds (found : Ty) : Check.Adds (do
        if found.isInvalid then
          report pos (.unresolvedType ty.text role)
        return found.gracious) :=
      .ite (.bind (.report _ _) fun _ => .pure _) (.pure _)
    refine ((decides_resolveType hlookup hf hty).bind hadds
      fun _ found f' hf' _ hd => ?_).congr
        (show True ∧ True ↔ ctx.program.Resolves ty by simp [hty])
    have hvalid : found.isInvalid = false := by simpa [Ty.isInvalid] using hd.ne_invalid
    simp only [hvalid, Bool.false_eq_true, if_false, hd.gracious]
    exact .pure hf' hd
  · have hrun := run_resolveType_of_not_resolves hlookup hty f
    refine .reads hrun ((Decides.report_bind _ _ fun _ => ?_).congr (by simp [hty]))
    exact .pure _

/-- An array type is interned without a report. -/
theorem decides_arrayOf (hf : Clean ctx.program f) {elem : Ty} {written : TypeExpr}
    (hd : Denotes ctx.program f.table elem written) :
    Decides ctx.program (arrayOf elem) f True
      fun found t => Denotes ctx.program t found (.array written) :=
  ⟨⟨fun _ => trivial, fun _ => hf.errors⟩,
    fun _ => ⟨prefix_arrayOf f.table elem, hf.table.arrayOf hd⟩⟩

/-- The type of a field that is there resolves. -/
theorem decides_fieldType (hctx : ctx.Sound printName) (hf : Clean ctx.program f)
    {ref : MemberRef} {field : VarDecl} (hfield : fieldDecl? ctx.program ref = some field) :
    Decides ctx.program (fieldType ctx ref) f True
      fun found t => Denotes ctx.program t found field.ty := by
  obtain ⟨c, hc, hindex⟩ := Option.bind_eq_some_iff.1 hfield
  have hty := hctx.fieldTypes c (List.mem_of_getElem? hc) field (List.mem_of_getElem? hindex)
  unfold fieldType
  rw [hfield]
  refine ((decides_resolveType hctx.classes.lookup hf hty).bind (fun _ => .pure _)
    fun _ found f' hf' _ hd => .pure hf' ?_).congr (show True ∧ True ↔ True by simp)
  rwa [hd.gracious]

/-- **A type is reported exactly if it does not fit.** -/
theorem decides_require (hctx : ctx.Sound printName) (hf : Clean ctx.program f)
    {expected found : Ty} {sup sub : ExprTy} (pos : Pos)
    (hsup : DenotesExpr ctx.program f.table expected sup)
    (hsub : DenotesExpr ctx.program f.table found sub) :
    Decides ctx.program (require ctx expected found pos) f (Fits ctx.program sub sup)
      fun _ _ => True :=
  .reads (a := ctx.classes.isSubtype f.table found expected) rfl <|
    .unless_ (fun _ => .pure hf trivial)
      (isSubtype_iff hctx.classes hctx.sound.hierarchy.acyclic hf.table hsub hsup) <|
      .reads rfl <| .reads rfl <| .report _ _

/-- An operand that a base type is required of. -/
theorem decides_operand (hctx : ctx.Sound printName) (hf : Clean ctx.program f)
    {names : Names} {e : Expr} {base found : Ty} {written : TypeExpr} (pos : Pos)
    (hbase : ∀ {sub}, Fits ctx.program sub (.written written) ↔ sub = .written written)
    (hd : Denotes ctx.program f.table base written)
    (hok : ∃ τ, HasType ctx.program printName names e τ)
    (hfound : ∀ τ, HasType ctx.program printName names e τ →
      DenotesExpr ctx.program f.table found τ) :
    Decides ctx.program (require ctx base found pos) f
      (HasType ctx.program printName names e (.written written)) fun _ _ => True := by
  obtain ⟨τ, hτ⟩ := hok
  refine (decides_require hctx hf pos (.written hd) (hfound τ hτ)).congr (hbase.trans ⟨?_, ?_⟩)
  · rintro rfl
    exact hτ
  · exact fun h => (hfound τ hτ).right_unique (hfound _ h)

/-- Typing a node changes neither errors nor types. -/
theorem Decides.typed {p : Program} {ok : Prop} {post : Ty → TypeTable → Prop} (m : Mark)
    (outer : Pos) {infer : Pos → Check Ty} (h : Decides p (infer (m.pos.getD outer)) f ok post) :
    Decides p (typed m outer infer) f ok post :=
  ⟨h.iff, h.post⟩

end Parts

/-! ## Calls -/

section Calls

variable {ctx : Context} {printName : String} {names : Names} {f : Findings}

/-- The argument is typed by the rules, and what was found stands for its
type. -/
structure ArgFound (ctx : Context) (printName : String) (names : Names) (t : TypeTable) (e : Expr)
    (found : Option Pos × Ty) : Prop where
  typed : ∃ τ, HasType ctx.program printName names e τ
  denotes : ∀ τ, HasType ctx.program printName names e τ → DenotesExpr ctx.program t found.2 τ

theorem ArgFound.mono {t t' : TypeTable} {e : Expr} {found : Option Pos × Ty}
    (h : ArgFound ctx printName names t e found) (hle : t.elems <+: t'.elems) :
    ArgFound ctx printName names t' e found :=
  ⟨h.typed, fun τ hτ => (h.denotes τ hτ).mono hle⟩

theorem ArgsFit.length_eq {p : Program} {args : List Expr} {params : List TypeExpr}
    (h : ArgsFit p printName names args params) : args.length = params.length := by
  induction args generalizing params with
  | nil => cases h; rfl
  | cons e rest ih =>
    cases h with
    | cons _ _ hrest => simp [ih hrest]

theorem ArgsFit.typed {p : Program} {args : List Expr} {params : List TypeExpr}
    (h : ArgsFit p printName names args params) :
    ∀ e ∈ args, ∃ τ, HasType p printName names e τ := by
  induction args generalizing params with
  | nil => simp
  | cons e rest ih =>
    cases h with
    | cons hτ _ hrest => exact List.forall_mem_cons.2 ⟨⟨_, hτ⟩, ih hrest⟩

/-- **Arguments are reported exactly if they do not fit.** -/
theorem decides_requireArgs (hctx : ctx.Sound printName) (hf : Clean ctx.program f) (here : Pos)
    {args : List Expr} {found : List (Option Pos × Ty)} {params : List TypeExpr}
    (hargs : List.Forall₂ (ArgFound ctx printName names f.table) args found)
    (hparams : ∀ ty ∈ params, ctx.program.Resolves ty) (hlen : found.length = params.length) :
    Decides ctx.program (requireArgs ctx here found params) f
      (ArgsFit ctx.program printName names args params) fun _ _ => True := by
  induction args generalizing f found params with
  | nil =>
    cases hargs
    cases params with
    | nil => exact (Decides.pure hf trivial).congr (by simp [ArgsFit.nil])
    | cons _ _ => simp at hlen
  | cons e args ih =>
    obtain ⟨⟨pos, given⟩, found, harg, htail, rfl⟩ := List.forall₂_cons_left_iff.1 hargs
    cases params with
    | nil => simp at hlen
    | cons ty params =>
      obtain ⟨τ, hτ⟩ := harg.typed
      have hty := hparams ty List.mem_cons_self
      have hrest : ∀ ty ∈ params, ctx.program.Resolves ty := fun ty hmem =>
        hparams ty (List.mem_cons_of_mem _ hmem)
      have hall : Decides ctx.program (requireArgs ctx here ((pos, given) :: found) (ty :: params)) f
          (True ∧ Fits ctx.program τ (.written ty) ∧
            ArgsFit ctx.program printName names args params) fun _ _ => True := by
        refine (decides_resolveType hctx.classes.lookup hf hty).bind
          (fun _ => .bind (.require ctx _ _ _) fun _ => .requireArgs ctx _ _ _) fun _ expected f₁ hf₁ hle₁ hd => ?_
        rw [hd.gracious]
        refine (decides_require hctx hf₁ _ (.written hd)
          ((harg.denotes τ hτ).mono hle₁)).bind
          (fun _ => .requireArgs ctx _ _ _) fun _ _ f₂ hf₂ hle₂ _ => ?_
        exact ih hf₂ (htail.imp fun _ _ h => h.mono (hle₁.trans hle₂)) hrest (by simpa using hlen)
      refine hall.congr ⟨fun ⟨_, hfits, hargs⟩ => .cons hτ hfits hargs, fun h => ?_⟩
      cases h with
      | cons hσ hfits hargs =>
        rw [(harg.denotes _ hσ).right_unique (harg.denotes _ hτ)] at hfits
        exact ⟨trivial, hfits, hargs⟩

/-- **A call is reported exactly if its arguments do not fit.** -/
theorem decides_apply (hctx : ctx.Sound printName) (hf : Clean ctx.program f) (here : Pos)
    {callee : Callee} {args : List Expr} {found : List (Option Pos × Ty)}
    {params : List TypeExpr} {returnType : TypeExpr}
    (hsignature : signature? ctx callee = some (params, returnType))
    (hparams : ∀ ty ∈ params, ctx.program.Resolves ty) (hreturn : ctx.program.Resolves returnType)
    (hargs : List.Forall₂ (ArgFound ctx printName names f.table) args found) :
    Decides ctx.program (apply ctx here callee found) f
      (ArgsFit ctx.program printName names args params)
      fun ty t => Denotes ctx.program t ty returnType := by
  have hresult (f' : Findings) (hf' : Clean ctx.program f') :
      Decides ctx.program (do return (← resolveType ctx returnType).gracious) f' True
        fun ty t => Denotes ctx.program t ty returnType :=
    ((decides_resolveType hctx.classes.lookup hf' hreturn).bind (fun _ => .pure _)
      fun _ ty f'' hf'' _ hd => .pure hf'' (by rwa [hd.gracious])).congr
      (show True ∧ True ↔ True by simp)
  have hadds : Check.Adds (do return (← resolveType ctx returnType).gracious) :=
    .bind (.resolveType ctx _) fun _ => .pure _
  unfold apply
  rw [hsignature]
  dsimp only
  by_cases hlen : found.length = params.length
  · rw [if_neg (not_not.2 hlen)]
    exact ((decides_requireArgs hctx hf here hargs hparams hlen).bind (fun _ => hadds)
      fun _ _ f' hf' _ _ => hresult f' hf').congr (by simp)
  · rw [if_pos hlen]
    refine (Decides.report_bind _ _ fun _ => hadds).congr ⟨False.elim, fun h => hlen ?_⟩
    rw [← hargs.length_eq, h.length_eq]

/-- A call that is typed calls something. -/
theorem Context.Sound.exists_lookup (hctx : ctx.Sound printName) {m : Mark} {name : String}
    {args : List Expr} {τ : ExprTy}
    (h : HasType ctx.program printName names (.call m name args) τ) :
    ∃ callee, ctx.functions.lookup name = some callee := by
  cases h with
  | print _ => exact ⟨_, hctx.print⟩
  | @call _ _ _ g hg _ =>
    have hname : name ≠ printName := fun heq =>
      hctx.notPrint g (List.mem_of_find?_eq_some hg) <| by
        simpa [heq] using List.find?_some hg
    rw [Program.function?_eq] at hg
    obtain ⟨index, hindex, -⟩ := Option.bind_eq_some_iff.1 hg
    exact ⟨_, by rw [hctx.function name hname, hindex, Option.map_some]⟩

/-- **The signature of what a name means** is what the rules for calls go
by. -/
theorem Context.Sound.signature (hctx : ctx.Sound printName) (names : Names) (m : Mark)
    (args : List Expr) {name : String} {callee : Callee}
    (h : ctx.functions.lookup name = some callee) :
    ∃ params returnType, signature? ctx callee = some (params, returnType) ∧
      (∀ ty ∈ params, ctx.program.Resolves ty) ∧ ctx.program.Resolves returnType ∧
      ∀ τ, HasType ctx.program printName names (.call m name args) τ ↔
        ArgsFit ctx.program printName names args params ∧ τ = .written returnType := by
  by_cases hname : name = printName
  · subst hname
    obtain rfl := Option.some.inj (hctx.print.symm.trans h)
    refine ⟨[.int], .int, rfl, by simp [Program.Resolves], trivial, fun τ => ⟨fun hτ => ?_, ?_⟩⟩
    · cases hτ with
      | print hargs => exact ⟨hargs, rfl⟩
      | call hg _ =>
        exact absurd (by simpa using List.find?_some hg)
          (hctx.notPrint _ (List.mem_of_find?_eq_some hg))
    · rintro ⟨hargs, rfl⟩
      exact .print hargs
  · rw [hctx.function name hname] at h
    obtain ⟨index, hfound, rfl⟩ := Option.map_eq_some_iff.1 h
    obtain ⟨g, hindex⟩ := Program.getElem?_of_functionIndex? hfound
    have hg : ctx.program.function? name = some g := by
      rw [Program.function?_eq, hfound, Option.bind_some, hindex]
    obtain ⟨hreturn, hparams⟩ := hctx.functionTypes g (List.mem_of_getElem? hindex)
    refine ⟨g.params.map (·.ty), g.returnType, by simp [signature?, hindex], by simpa using hparams,
      hreturn, fun τ => ⟨fun hτ => ?_, ?_⟩⟩
    · cases hτ with
      | print _ => exact absurd rfl hname
      | call hg' hargs =>
        obtain rfl := Option.some.inj (hg.symm.trans hg')
        exact ⟨hargs, rfl⟩
    · rintro ⟨hargs, rfl⟩
      exact .call hg hargs

/-- The signature of a method that is there. -/
theorem Context.Sound.methodSignature (hctx : ctx.Sound printName) {ref : MemberRef}
    {method : FunctionDecl} (h : methodDecl? ctx.program ref = some method) :
    signature? ctx (.method ref) = some (method.params.map (·.ty), method.returnType) ∧
      (∀ ty ∈ method.params.map (·.ty), ctx.program.Resolves ty) ∧
      ctx.program.Resolves method.returnType := by
  obtain ⟨c, hc, hindex⟩ := Option.bind_eq_some_iff.1 h
  obtain ⟨hreturn, hparams⟩ :=
    hctx.methodTypes c (List.mem_of_getElem? hc) method (List.mem_of_getElem? hindex)
  exact ⟨by simp [signature?, h], by simpa using hparams, hreturn⟩

end Calls

/-! ## Expressions and places -/

section Expressions

variable {ctx : Context} {printName : String} {names : Names} {f : Findings} {scope : Scope}

/-- Checking the expression decides whether it has a type. -/
abbrev ExprDecided (ctx : Context) (printName : String) (names : Names) (e : Expr) (x : Check Ty)
    (f : Findings) : Prop :=
  Decides ctx.program x f (∃ τ, HasType ctx.program printName names e τ)
    fun found t => ∀ τ, HasType ctx.program printName names e τ →
      DenotesExpr ctx.program t found τ

/-- Checking the place decides whether it has a type. -/
abbrev PlaceDecided (ctx : Context) (printName : String) (names : Names) (place : Place)
    (x : Check Ty) (f : Findings) : Prop :=
  Decides ctx.program x f (∃ ty, PlaceType ctx.program printName names place ty)
    fun found t => ∀ ty, PlaceType ctx.program printName names place ty →
      Denotes ctx.program t found ty

/-- Checking the arguments decides whether they have types. -/
abbrev ArgsDecided (ctx : Context) (printName : String) (names : Names) (args : List Expr)
    (x : Check (List (Option Pos × Ty))) (f : Findings) : Prop :=
  Decides ctx.program x f (∀ e ∈ args, ∃ τ, HasType ctx.program printName names e τ)
    fun found t => List.Forall₂ (ArgFound ctx printName names t) args found

/-- What was found for the expression stands for the one type that the rules
give it. -/
structure FoundFor (ctx : Context) (printName : String) (names : Names) (t : TypeTable) (e : Expr)
    (found : Ty) (τ : ExprTy) : Prop where
  typed : HasType ctx.program printName names e τ
  denotes : DenotesExpr ctx.program t found τ
  only : ∀ σ, HasType ctx.program printName names e σ → σ = τ

theorem FoundFor.mono {t t' : TypeTable} {e : Expr} {found : Ty} {τ : ExprTy}
    (h : FoundFor ctx printName names t e found τ) (hle : t.elems <+: t'.elems) :
    FoundFor ctx printName names t' e found τ :=
  ⟨h.typed, h.denotes.mono hle, h.only⟩

/-- **What is checked behind an expression** starts from the type found for it. -/
theorem ExprDecided.andThen {α : Type} {e : Expr} {x : Check Ty} {ok : Prop}
    {post : α → TypeTable → Prop} (he : ExprDecided ctx printName names e x f) {k : Ty → Check α}
    (hadds : ∀ found, Check.Adds (k found))
    (hk : ∀ found τ f', Clean ctx.program f' → f.table.elems <+: f'.table.elems →
      FoundFor ctx printName names f'.table e found τ → Decides ctx.program (k found) f' ok post) :
    Decides ctx.program (x >>= k) f
      ((∃ τ, HasType ctx.program printName names e τ) ∧ ok) post :=
  he.bind hadds fun ⟨τ, hτ⟩ found f' hf' hle hfound => hk found τ f' hf' hle
    ⟨hτ, hfound τ hτ, fun σ hσ => (hfound σ hσ).right_unique (hfound τ hτ)⟩

/-- **An operand of a base type**, and what is checked behind it. -/
theorem ExprDecided.require (hctx : ctx.Sound printName) {f : Findings} {α : Type} {e : Expr}
    {x : Check Ty} {base : Ty} {written : TypeExpr} {ok : Prop} {post : α → TypeTable → Prop}
    (he : ExprDecided ctx printName names e x f) (pos : Pos)
    (hbase : ∀ {sub}, Fits ctx.program sub (.written written) ↔ sub = .written written)
    (hd : ∀ {t}, Denotes ctx.program t base written) {k : Check α} (hadds : Check.Adds k)
    (hk : ∀ f', Clean ctx.program f' → f.table.elems <+: f'.table.elems →
      Decides ctx.program k f' ok post) :
    Decides ctx.program (do let found ← x; require ctx base found pos; k) f
      (HasType ctx.program printName names e (.written written) ∧ ok) post := by
  refine (he.bind (fun _ => .bind (.require ctx _ _ _) fun _ => hadds)
    fun hok found f₁ hf₁ hle₁ hpost => (decides_operand hctx hf₁ pos hbase hd hok hpost).bind
      (fun _ => hadds) fun _ _ f₂ hf₂ hle₂ _ => hk f₂ hf₂ (hle₁.trans hle₂)).congr ?_
  exact ⟨fun h => h.2, fun h => ⟨⟨_, h.1⟩, h⟩⟩

/-- One of the types of the two expressions fits the other. -/
def Comparable (p : Program) (printName : String) (names : Names) (lhs rhs : Expr) : Prop :=
  ∃ left right, HasType p printName names lhs left ∧ HasType p printName names rhs right ∧
    (Fits p left right ∨ Fits p right left)

/-! ### The ends of checks -/

/-- The length is taken of an array. -/
theorem decides_lengthFound (hf : Clean ctx.program f) {array : Expr} {found : Ty} {τ : ExprTy}
    (harray : FoundFor ctx printName names f.table array found τ) (pos : Pos) :
    Decides ctx.program (lengthFound pos found) f
      (∃ elem, HasType ctx.program printName names array (.written (.array elem)))
      fun ty _ => ty = .int := by
  obtain ⟨hτ, hd, honly⟩ := harray
  cases hd with
  | null => exact .refusedShown fun ⟨_, h⟩ => by cases honly _ h
  | written hd =>
    cases hd with
    | array _ _ => exact .congr (.pure hf rfl) ⟨fun _ => ⟨_, hτ⟩, fun _ => trivial⟩
    | int | bool | class_ _ => exact .refusedShown fun ⟨_, h⟩ => by cases honly _ h

/-- The types of operands are compared. -/
theorem decides_comparableFound (hctx : ctx.Sound printName) (hf : Clean ctx.program f)
    {lhs rhs : Expr} {l r : Ty} {τ σ : ExprTy}
    (hl : FoundFor ctx printName names f.table lhs l τ)
    (hr : FoundFor ctx printName names f.table rhs r σ) (here : Pos) :
    Decides ctx.program (comparableFound ctx here l r) f
      (Comparable ctx.program printName names lhs rhs) fun ty _ => ty = .bool := by
  have hsub {a b : Ty} {left right : ExprTy} (hleft : DenotesExpr ctx.program f.table a left)
      (hright : DenotesExpr ctx.program f.table b right) :=
    isSubtype_iff hctx.classes hctx.sound.hierarchy.acyclic hf.table hleft hright
  refine .reads rfl (.reads rfl (.unless_ (fun _ => .pure hf rfl) ?_
    (.reads rfl (.reads rfl (.refused id)))))
  rw [Bool.or_eq_true, hsub hl.denotes hr.denotes, hsub hr.denotes hl.denotes]
  refine ⟨fun h => ⟨τ, σ, hl.typed, hr.typed, h⟩, fun ⟨τ', σ', hτ', hσ', h⟩ => ?_⟩
  rwa [hl.only τ' hτ', hr.only σ' hσ'] at h

/-- A name is called. -/
theorem decides_callFound (hctx : ctx.Sound printName) (hf : Clean ctx.program f) (m : Mark)
    (here : Pos) (name : String) {args : List Expr} {found : List (Option Pos × Ty)}
    (hargs : List.Forall₂ (ArgFound ctx printName names f.table) args found) :
    ExprDecided ctx printName names (.call m name args) (callFound ctx m here name found) f := by
  unfold callFound
  cases hlookup : ctx.functions.lookup name with
  | none =>
    refine .refused fun ⟨τ, h⟩ => ?_
    obtain ⟨callee, hcallee⟩ := hctx.exists_lookup h
    rw [hlookup] at hcallee
    cases hcallee
  | some callee =>
    obtain ⟨params, returnType, hsignature, hparams, hreturn, hiff⟩ :=
      hctx.signature names m args hlookup
    refine .noteCall (((decides_apply hctx (hf.noteCall (f.calls.insert m.id callee)) here
      hsignature hparams hreturn hargs).congr ?_).mono fun _ ty t _ hd τ h => ?_)
    · exact ⟨fun h => ⟨_, (hiff _).2 ⟨h, rfl⟩⟩, fun ⟨_, h⟩ => ((hiff _).1 h).1⟩
    · rw [((hiff τ).1 h).2]
      exact .written hd

/-- A method is called of an object. -/
theorem decides_methodFound (hctx : ctx.Sound printName) (hf : Clean ctx.program f) (m : Mark)
    (here : Pos) (method : String) {receiver : Expr} {ty : Ty} {τ : ExprTy}
    (hreceiver : FoundFor ctx printName names f.table receiver ty τ) {args : List Expr}
    {found : List (Option Pos × Ty)}
    (hargs : List.Forall₂ (ArgFound ctx printName names f.table) args found) :
    ExprDecided ctx printName names (.methodCall m receiver method args)
      (methodFound ctx m here method found ty) f := by
  obtain ⟨hτ, hd, honly⟩ := hreceiver
  -- A call is typed only where the receiver has the type of a class.
  have hclass {σ : ExprTy}
      (h : HasType ctx.program printName names (.methodCall m receiver method args) σ) :
      ∃ class_ g, τ = .written (.class_ class_) ∧
        ctx.program.visibleMethod? class_ method = some g ∧
        ArgsFit ctx.program printName names args (g.params.map (·.ty)) ∧
        σ = .written g.returnType := by
    cases h with
    | methodCall hreceiver hg hargs => exact ⟨_, _, (honly _ hreceiver).symm, hg, hargs, rfl⟩
  cases hd with
  | null => exact .refused fun ⟨_, h⟩ => by obtain ⟨_, _, h, -⟩ := hclass h; cases h
  | written hd =>
    cases hd with
    | int | bool | array _ _ =>
      exact .refused fun ⟨_, h⟩ => by obtain ⟨_, _, h, -⟩ := hclass h; cases h
    | @class_ class_ id hid =>
      rw [methodFound, hctx.classes.method]
      cases href : ctx.program.methodRef? id method with
      | none =>
        refine .refusedShown fun ⟨_, h⟩ => ?_
        obtain ⟨_, g, hτ', hg, -⟩ := hclass h
        cases hτ'
        simp [Program.visibleMethod?, hid, href] at hg
      | some ref =>
        obtain ⟨g, hg, -⟩ := Program.exists_methodDecl href
        obtain ⟨hsignature, hparams, hreturn⟩ := hctx.methodSignature hg
        have hvisible : ctx.program.visibleMethod? class_ method = some g := by
          simp [Program.visibleMethod?, hid, href, hg]
        have hiff (σ : ExprTy) :
            HasType ctx.program printName names (.methodCall m receiver method args) σ ↔
              ArgsFit ctx.program printName names args (g.params.map (·.ty)) ∧
                σ = .written g.returnType := by
          refine ⟨fun h => ?_, fun h => h.2 ▸ .methodCall hτ hvisible h.1⟩
          obtain ⟨_, g', hτ', hvisible', hargs, hσ⟩ := hclass h
          cases hτ'
          obtain rfl := Option.some.inj (hvisible.symm.trans hvisible')
          exact ⟨hargs, hσ⟩
        refine .noteCall (((decides_apply hctx
          (hf.noteCall (f.calls.insert m.id (.method ref))) here hsignature hparams hreturn
          hargs).congr ?_).mono fun _ ty t _ hd σ h => ?_)
        · exact ⟨fun h => ⟨_, (hiff _).2 ⟨h, rfl⟩⟩, fun ⟨_, h⟩ => ((hiff _).1 h).1⟩
        · rw [((hiff σ).1 h).2]
          exact .written hd

/-- A field is taken of an object. -/
theorem decides_fieldFound (hctx : ctx.Sound printName) (hf : Clean ctx.program f) (m : Mark)
    (pos : Pos) (name : String) {receiver : Expr} {found : Ty} {τ : ExprTy}
    (hreceiver : FoundFor ctx printName names f.table receiver found τ) :
    PlaceDecided ctx printName names (.field m receiver name) (fieldFound ctx m pos name found)
      f := by
  obtain ⟨hτ, hd, honly⟩ := hreceiver
  have hclass {ty : TypeExpr}
      (h : PlaceType ctx.program printName names (.field m receiver name) ty) :
      ∃ class_ field, τ = .written (.class_ class_) ∧
        ctx.program.visibleField? class_ name = some field ∧ ty = field.ty := by
    cases h with
    | field hreceiver hfield => exact ⟨_, _, (honly _ hreceiver).symm, hfield, rfl⟩
  cases hd with
  | null => exact .refused fun ⟨_, h⟩ => by obtain ⟨_, _, h, -⟩ := hclass h; cases h
  | written hd =>
    cases hd with
    | int | bool | array _ _ =>
      exact .refused fun ⟨_, h⟩ => by obtain ⟨_, _, h, -⟩ := hclass h; cases h
    | @class_ class_ id hid =>
      rw [fieldFound, hctx.classes.field]
      cases href : ctx.program.fieldRef? id name with
      | none =>
        refine .refusedShown fun ⟨_, h⟩ => ?_
        obtain ⟨_, _, hτ', hfield, -⟩ := hclass h
        cases hτ'
        simp [Program.visibleField?, hid, href] at hfield
      | some ref =>
        obtain ⟨field, hfield, -⟩ := Program.exists_fieldDecl href
        have hvisible : ctx.program.visibleField? class_ name = some field := by
          simp [Program.visibleField?, hid, href, hfield]
        refine .noteField (((decides_fieldType hctx (hf.noteField _) hfield).congr
          ⟨fun _ => ⟨_, .field hτ hvisible⟩, fun _ => trivial⟩).mono fun _ ty t _ hd ty' h => ?_)
        obtain ⟨_, field', hτ', hfield', rfl⟩ := hclass h
        cases hτ'
        rw [Option.some.inj (hfield'.symm.trans hvisible)]
        exact hd

/-- An array is indexed. -/
theorem decides_indexFound (hf : Clean ctx.program f) {array : Expr} {found : Ty} {τ : ExprTy}
    (harray : FoundFor ctx printName names f.table array found τ) (here : Pos) :
    Decides ctx.program (indexFound here found) f
      (∃ elem, HasType ctx.program printName names array (.written (.array elem)))
      fun ty t => ∀ elem, HasType ctx.program printName names array (.written (.array elem)) →
        Denotes ctx.program t ty elem := by
  obtain ⟨hτ, hd, honly⟩ := harray
  cases hd with
  | null => exact .refusedShown fun ⟨_, h⟩ => by cases honly _ h
  | written hd =>
    cases hd with
    | int | bool | class_ _ => exact .refusedShown fun ⟨_, h⟩ => by cases honly _ h
    | @array id inner written hinner hd =>
      refine .reads rfl ((Decides.pure hf fun elem h => ?_).congr
        ⟨fun _ => ⟨_, hτ⟩, fun _ => trivial⟩)
      cases honly _ h
      rwa [TypeTable.elem, hinner]

/-! ### The forms of expressions -/

section Forms

variable {m : Mark} {outer : Pos}

theorem ExprDecided.this (hf : Clean ctx.program f)
    (hscope : ScopeOk ctx.program f.table names scope) :
    ExprDecided ctx printName names (.this m) (checkExpr ctx scope outer (.this m)) f := by
  rw [checkExpr]
  refine .typed m outer ?_
  dsimp only
  cases hthis : names.this? with
  | none =>
    rw [(hscope.outside hthis).1, if_pos rfl]
    refine .refused fun ⟨_, h⟩ => ?_
    cases h with
    | this h => rw [hthis] at h; cases h
  | some class_ =>
    obtain ⟨id, hid, hty, -⟩ := hscope.this class_ hthis
    rw [hty, if_neg (by simp)]
    refine (Decides.pure hf fun τ h => ?_).congr ⟨fun _ => ⟨_, .this hthis⟩, fun _ => trivial⟩
    cases h with
    | this h =>
      obtain rfl := Option.some.inj (hthis.symm.trans h)
      exact .written (.class_ hid)

theorem ExprDecided.read {place : Place}
    (hplace : PlaceDecided ctx printName names place
      (checkPlace ctx scope (m.pos.getD outer) place) f) :
    ExprDecided ctx printName names (.read m place) (checkExpr ctx scope outer (.read m place))
      f := by
  rw [checkExpr]
  refine .typed m outer ((hplace.congr ?_).mono ?_)
  · exact ⟨fun ⟨_, h⟩ => ⟨_, .read h⟩, fun ⟨_, h⟩ => by cases h with | read h => exact ⟨_, h⟩⟩
  · intro _ found t _ hfound τ h
    cases h with
    | read h => exact .written (hfound _ h)

theorem ExprDecided.arrayLength {array : Expr}
    (harray : ExprDecided ctx printName names array
      (checkExpr ctx scope (m.pos.getD outer) array) f) :
    ExprDecided ctx printName names (.arrayLength m array)
      (checkExpr ctx scope outer (.arrayLength m array)) f := by
  rw [checkExpr_arrayLength]
  refine .typed m outer (((harray.andThen (fun _ => .lengthFound _ _)
    fun found τ f' hf' _ hfound => decides_lengthFound hf' hfound _).congr ⟨?_, ?_⟩).mono ?_)
  · exact fun ⟨_, _, h⟩ => ⟨_, .arrayLength h⟩
  · rintro ⟨_, h⟩
    cases h with
    | arrayLength h => exact ⟨⟨_, h⟩, _, h⟩
  · rintro - _ t - rfl τ h
    cases h
    exact .written .int

theorem ExprDecided.unary (hctx : ctx.Sound printName) (op : UnaryOp) {operand : Expr}
    (hoperand : ExprDecided ctx printName names operand
      (checkExpr ctx scope (m.pos.getD outer) operand) f) :
    ExprDecided ctx printName names (.unary m op operand)
      (checkExpr ctx scope outer (.unary m op operand)) f := by
  rw [checkExpr]
  cases op with
  | minus =>
    refine .typed m outer ((hoperand.require hctx _ fits_int_iff .int (.pure _)
      fun f' hf' _ => .pure hf' fun τ h => ?_).congr ⟨fun h => ⟨_, .minus h.1⟩, ?_⟩)
    · cases h
      exact .written .int
    · rintro ⟨_, h⟩
      cases h with
      | minus h => exact ⟨h, trivial⟩
  | negate =>
    refine .typed m outer ((hoperand.require hctx _ fits_bool_iff .bool (.pure _)
      fun f' hf' _ => .pure hf' fun τ h => ?_).congr ⟨fun h => ⟨_, .negate h.1⟩, ?_⟩)
    · cases h
      exact .written .bool
    · rintro ⟨_, h⟩
      cases h with
      | negate h => exact ⟨h, trivial⟩

section Operands

variable {lhs rhs : Expr}
variable (hlhs : ExprDecided ctx printName names lhs (checkExpr ctx scope (m.pos.getD outer) lhs) f)
variable (hrhs : ∀ f', Clean ctx.program f' → f.table.elems <+: f'.table.elems →
  ExprDecided ctx printName names rhs (checkExpr ctx scope (m.pos.getD outer) rhs) f')
include hlhs hrhs

/-- **Two operands of a base type.** -/
theorem ExprDecided.operands (hctx : ctx.Sound printName) {op : BinaryOp} {operand result : Ty}
    {base written : TypeExpr} (hop : binaryTypes? op = some (operand, result))
    (hbase : ∀ {sub}, Fits ctx.program sub (.written base) ↔ sub = .written base)
    (hoperand : ∀ {t}, Denotes ctx.program t operand base)
    (hresult : ∀ {t}, Denotes ctx.program t result written)
    (hrule : ∀ τ, HasType ctx.program printName names (.binary m op lhs rhs) τ ↔
      (HasType ctx.program printName names lhs (.written base) ∧
        HasType ctx.program printName names rhs (.written base)) ∧ τ = .written written) :
    ExprDecided ctx printName names (.binary m op lhs rhs)
      (checkExpr ctx scope outer (.binary m op lhs rhs)) f := by
  rw [checkExpr_operands ctx hop]
  refine .typed m outer ((hlhs.require hctx _ hbase hoperand
    (.bind (.checkExpr ctx _ _ _) fun _ => .bind (.require ctx _ _ _) fun _ => .pure _)
    fun f₁ hf₁ hle₁ => (hrhs f₁ hf₁ hle₁).require hctx _ hbase hoperand (.pure _)
      fun f₂ hf₂ _ => .pure hf₂ fun τ h => ?_).congr ⟨?_, ?_⟩)
  · obtain ⟨-, rfl⟩ := (hrule τ).1 h
    exact .written hresult
  · exact fun ⟨hl, hr, _⟩ => ⟨_, (hrule _).2 ⟨⟨hl, hr⟩, rfl⟩⟩
  · rintro ⟨τ, h⟩
    obtain ⟨⟨hl, hr⟩, -⟩ := (hrule τ).1 h
    exact ⟨hl, hr, trivial⟩

theorem ExprDecided.arithmetic (hctx : ctx.Sound printName) {op : BinaryOp}
    (hop : op = .plus ∨ op = .minus ∨ op = .times ∨ op = .div) :
    ExprDecided ctx printName names (.binary m op lhs rhs)
      (checkExpr ctx scope outer (.binary m op lhs rhs)) f := by
  have htypes : binaryTypes? op = some (.int, .int) := by
    rcases hop with rfl | rfl | rfl | rfl <;> rfl
  refine .operands hlhs hrhs hctx htypes fits_int_iff .int .int fun τ => ⟨fun h => ?_, ?_⟩
  · cases h with
    | arithmetic _ hl hr => exact ⟨⟨hl, hr⟩, rfl⟩
    | less | and | equals => simp at hop
  · rintro ⟨⟨hl, hr⟩, rfl⟩
    exact .arithmetic hop hl hr

theorem ExprDecided.less (hctx : ctx.Sound printName) :
    ExprDecided ctx printName names (.binary m .less lhs rhs)
      (checkExpr ctx scope outer (.binary m .less lhs rhs)) f := by
  refine .operands hlhs hrhs hctx rfl fits_int_iff .int .bool fun τ => ⟨fun h => ?_, ?_⟩
  · cases h with
    | arithmetic hop => simp at hop
    | less hl hr => exact ⟨⟨hl, hr⟩, rfl⟩
  · rintro ⟨⟨hl, hr⟩, rfl⟩
    exact .less hl hr

theorem ExprDecided.and (hctx : ctx.Sound printName) :
    ExprDecided ctx printName names (.binary m .and lhs rhs)
      (checkExpr ctx scope outer (.binary m .and lhs rhs)) f := by
  refine .operands hlhs hrhs hctx rfl fits_bool_iff .bool .bool fun τ => ⟨fun h => ?_, ?_⟩
  · cases h with
    | arithmetic hop => simp at hop
    | and hl hr => exact ⟨⟨hl, hr⟩, rfl⟩
  · rintro ⟨⟨hl, hr⟩, rfl⟩
    exact .and hl hr

theorem ExprDecided.equals (hctx : ctx.Sound printName) :
    ExprDecided ctx printName names (.binary m .equals lhs rhs)
      (checkExpr ctx scope outer (.binary m .equals lhs rhs)) f := by
  rw [checkExpr_equals]
  refine .typed m outer (((hlhs.andThen
    (fun _ => .bind (.checkExpr ctx _ _ _) fun _ => .comparableFound ctx _ _ _)
    fun l τ f₁ hf₁ hle₁ hl => (hrhs f₁ hf₁ hle₁).andThen (fun _ => .comparableFound ctx _ _ _)
      fun r σ f₂ hf₂ hle₂ hr => decides_comparableFound hctx hf₂ (hl.mono hle₂) hr _).congr
        ⟨?_, ?_⟩).mono ?_)
  · exact fun ⟨_, _, _, _, hl, hr, h⟩ => ⟨_, .equals hl hr h⟩
  · rintro ⟨_, h⟩
    cases h with
    | arithmetic hop => simp at hop
    | equals hl hr h => exact ⟨⟨_, hl⟩, ⟨_, hr⟩, _, _, hl, hr, h⟩
  · rintro - _ t - rfl τ h
    cases h with
    | arithmetic hop => simp at hop
    | equals => exact .written .bool

theorem ExprDecided.binary (hctx : ctx.Sound printName) (op : BinaryOp) :
    ExprDecided ctx printName names (.binary m op lhs rhs)
      (checkExpr ctx scope outer (.binary m op lhs rhs)) f := by
  cases op with
  | plus | minus | times | div => exact .arithmetic hlhs hrhs hctx (by simp)
  | less => exact .less hlhs hrhs hctx
  | and => exact .and hlhs hrhs hctx
  | equals => exact .equals hlhs hrhs hctx

end Operands

theorem ExprDecided.call (hctx : ctx.Sound printName) (name : String) {args : List Expr}
    (hargs : ArgsDecided ctx printName names args (checkArgs ctx scope (m.pos.getD outer) args) f) :
    ExprDecided ctx printName names (.call m name args)
      (checkExpr ctx scope outer (.call m name args)) f := by
  rw [checkExpr_call]
  refine .typed m outer ((hargs.bind (fun _ => .callFound ctx _ _ _ _)
    fun _ found f' hf' _ hfound => decides_callFound hctx hf' m _ name hfound).congr
      ⟨fun h => h.2, fun h => ⟨?_, h⟩⟩)
  obtain ⟨_, h⟩ := h
  cases h with
  | print h => exact h.typed
  | call _ h => exact h.typed

theorem ExprDecided.methodCall (hctx : ctx.Sound printName) (method : String) {receiver : Expr}
    {args : List Expr}
    (hreceiver : ExprDecided ctx printName names receiver
      (checkExpr ctx scope (m.pos.getD outer) receiver) f)
    (hargs : ∀ f', Clean ctx.program f' → f.table.elems <+: f'.table.elems →
      ArgsDecided ctx printName names args (checkArgs ctx scope (m.pos.getD outer) args) f') :
    ExprDecided ctx printName names (.methodCall m receiver method args)
      (checkExpr ctx scope outer (.methodCall m receiver method args)) f := by
  rw [checkExpr_methodCall]
  refine .typed m outer ((hreceiver.andThen
    (fun _ => .bind (.checkArgs ctx _ _ _) fun _ => .methodFound ctx _ _ _ _ _)
    fun ty τ f₁ hf₁ hle₁ hty => (hargs f₁ hf₁ hle₁).bind (fun _ => .methodFound ctx _ _ _ _ _)
      fun _ found f₂ hf₂ hle₂ hfound =>
        decides_methodFound hctx hf₂ m _ method (hty.mono hle₂) hfound).congr
          ⟨fun h => h.2.2, fun h => ⟨?_, ?_, h⟩⟩)
  · obtain ⟨_, h⟩ := h
    cases h with
    | methodCall h => exact ⟨_, h⟩
  · obtain ⟨_, h⟩ := h
    cases h with
    | methodCall _ _ h => exact h.typed

theorem ExprDecided.newObject (hctx : ctx.Sound printName) (hf : Clean ctx.program f)
    (name : String) :
    ExprDecided ctx printName names (.newObject m name)
      (checkExpr ctx scope outer (.newObject m name)) f := by
  rw [checkExpr]
  refine .typed m outer ?_
  rw [hctx.classes.lookup]
  cases hid : ctx.program.classId? name with
  | none =>
    refine .refused fun ⟨_, h⟩ => ?_
    cases h with
    | newObject h => simp [Program.Resolves, hid] at h
  | some id =>
    refine (Decides.pure hf fun τ h => ?_).congr
      ⟨fun _ => ⟨_, .newObject (by simp [Program.Resolves, hid])⟩, fun _ => trivial⟩
    cases h
    exact .written (.class_ hid)

theorem ExprDecided.newArray (hctx : ctx.Sound printName) (elem : TypeExpr) {size : Expr}
    (hsize : ExprDecided ctx printName names size
      (checkExpr ctx scope (m.pos.getD outer) size) f) :
    ExprDecided ctx printName names (.newArray m elem size)
      (checkExpr ctx scope outer (.newArray m elem size)) f := by
  rw [checkExpr]
  refine .typed m outer ((hsize.require hctx _ fits_int_iff .int
    (.bind (.resolveReported ctx _ _ _) fun _ => .arrayOf _) fun f₁ hf₁ _ =>
      (decides_resolveReported hctx.classes.lookup hf₁ elem .plain _).bind
        (fun _ => .arrayOf _) fun _ ty f₂ hf₂ _ hd => (decides_arrayOf hf₂ hd).mono
          fun _ found t _ hd τ h => ?_).congr ⟨fun h => ⟨_, .newArray h.2.1 h.1⟩, ?_⟩)
  · cases h
    exact .written hd
  · rintro ⟨_, h⟩
    cases h with
    | newArray helem hsize => exact ⟨hsize, helem, trivial⟩

/-- **A bare name** is a variable, or else a field of `this`. -/
theorem PlaceDecided.var (hf : Clean ctx.program f)
    (hscope : ScopeOk ctx.program f.table names scope) (name : String) :
    PlaceDecided ctx printName names (.var m name) (checkPlace ctx scope outer (.var m name))
      f := by
  rw [checkPlace]
  refine .typed m outer ?_
  cases hvar : names.var? name with
  | some var =>
    obtain ⟨ty, hlookup, hd⟩ := hscope.var name var hvar
    rw [show scope.lookup name = some ⟨ty, .local_ var.id⟩ by simp [Scope.lookup, hlookup]]
    refine .noteVar ((Decides.pure (hf.noteVar _) fun ty h => ?_).congr
      ⟨fun _ => ⟨_, .variable_ hvar⟩, fun _ => trivial⟩)
    cases h with
    | variable_ h =>
      obtain rfl := Option.some.inj (hvar.symm.trans h)
      exact hd
    | ownField h => rw [hvar] at h; cases h
  | none =>
    -- No variable has the name, so the scope looks among the fields.
    rw [show scope.lookup name = scope.lookupField name by
      simp [Scope.lookup, hscope.noVar name hvar]]
    have hown {ty : TypeExpr} (h : PlaceType ctx.program printName names (.var m name) ty) :
        ∃ class_ field, names.this? = some class_ ∧
          ctx.program.visibleField? class_ name = some field ∧ ty = field.ty := by
      cases h with
      | variable_ h => rw [hvar] at h; cases h
      | ownField _ hthis hfield => exact ⟨_, _, hthis, hfield, rfl⟩
    cases hthis : names.this? with
    | none =>
      rw [(hscope.outside hthis).2 name]
      refine .refused fun ⟨_, h⟩ => ?_
      obtain ⟨_, _, hthis', -⟩ := hown h
      rw [hthis] at hthis'
      cases hthis'
    | some class_ =>
      obtain ⟨id, hid, -, hnone, hsome⟩ := hscope.this class_ hthis
      cases href : ctx.program.fieldRef? id name with
      | none =>
        rw [hnone name href]
        refine .refused fun ⟨ty, h⟩ => ?_
        obtain ⟨_, field, hthis', hfield, -⟩ := hown h
        obtain rfl := Option.some.inj (hthis.symm.trans hthis')
        simp [Program.visibleField?, hid, href] at hfield
      | some ref =>
        obtain ⟨field, ty, hfield, hlookup, hd⟩ := hsome name ref href
        have hvisible : ctx.program.visibleField? class_ name = some field := by
          simp [Program.visibleField?, hid, href, hfield]
        rw [hlookup]
        refine .noteVar ((Decides.pure (hf.noteVar _) fun ty' h => ?_).congr
          ⟨fun _ => ⟨_, .ownField hvar hthis hvisible⟩, fun _ => trivial⟩)
        obtain ⟨_, field', hthis', hfield', rfl⟩ := hown h
        obtain rfl := Option.some.inj (hthis.symm.trans hthis')
        rw [Option.some.inj (hfield'.symm.trans hvisible)]
        exact hd

theorem PlaceDecided.field (hctx : ctx.Sound printName) {receiver : Expr} (name : String)
    (hreceiver : ExprDecided ctx printName names receiver
      (checkExpr ctx scope (m.pos.getD outer) receiver) f) :
    PlaceDecided ctx printName names (.field m receiver name)
      (checkPlace ctx scope outer (.field m receiver name)) f := by
  rw [checkPlace_field]
  refine .typed m outer ((hreceiver.andThen (fun _ => .fieldFound ctx _ _ _ _)
    fun found τ f' hf' _ hfound => decides_fieldFound hctx hf' m _ name hfound).congr
      ⟨fun h => h.2, fun h => ⟨?_, h⟩⟩)
  obtain ⟨_, h⟩ := h
  cases h with
  | field h => exact ⟨_, h⟩

theorem PlaceDecided.index (hctx : ctx.Sound printName) {array index : Expr}
    (harray : ExprDecided ctx printName names array
      (checkExpr ctx scope (m.pos.getD outer) array) f)
    (hindex : ∀ f', Clean ctx.program f' → f.table.elems <+: f'.table.elems →
      ExprDecided ctx printName names index (checkExpr ctx scope (m.pos.getD outer) index) f') :
    PlaceDecided ctx printName names (.index m array index)
      (checkPlace ctx scope outer (.index m array index)) f := by
  rw [checkPlace_index]
  refine .typed m outer (((harray.andThen
    (fun found => .bind (.checkExpr ctx _ _ _) fun _ => .bind (.require ctx _ _ _) fun _ =>
      .indexFound _ found)
    fun found τ f₁ hf₁ hle₁ hfound => (hindex f₁ hf₁ hle₁).require hctx _ fits_int_iff .int
      (.indexFound _ found) fun f₂ hf₂ hle₂ => decides_indexFound hf₂ (hfound.mono hle₂) _).congr
        ⟨?_, ?_⟩).mono ?_)
  · exact fun ⟨_, hi, _, ha⟩ => ⟨_, .index ha hi⟩
  · rintro ⟨_, h⟩
    cases h with
    | index ha hi => exact ⟨⟨_, ha⟩, hi, _, ha⟩
  · intro _ found t _ hfound ty h
    cases h with
    | index ha _ => exact hfound _ ha

end Forms

mutual

/-- **Checking an expression reports nothing exactly if it has a type.** -/
theorem decides_checkExpr (hctx : ctx.Sound printName) {f : Findings} (hf : Clean ctx.program f)
    (hscope : ScopeOk ctx.program f.table names scope) (outer : Pos) : (e : Expr) →
    ExprDecided ctx printName names e (checkExpr ctx scope outer e) f
  | .int m value => by
    refine .typed m outer (((Decides.pure hf) fun τ h => ?_).congr ?_)
    · cases h
      exact .written .int
    · exact ⟨fun _ => ⟨_, .int⟩, fun _ => trivial⟩
  | .bool m value => by
    refine .typed m outer (((Decides.pure hf) fun τ h => ?_).congr ?_)
    · cases h
      exact .written .bool
    · exact ⟨fun _ => ⟨_, .bool⟩, fun _ => trivial⟩
  | .null m => by
    refine .typed m outer (((Decides.pure hf) fun τ h => ?_).congr ?_)
    · cases h
      exact .null
    · exact ⟨fun _ => ⟨_, .null⟩, fun _ => trivial⟩
  | .this _ => ExprDecided.this hf hscope
  | .read _ place => ExprDecided.read (decides_checkPlace hctx hf hscope _ place)
  | .arrayLength _ array => (decides_checkExpr hctx hf hscope _ array).arrayLength
  | .unary _ op operand => ExprDecided.unary hctx op (decides_checkExpr hctx hf hscope _ operand)
  | .binary _ op lhs rhs => ExprDecided.binary (decides_checkExpr hctx hf hscope _ lhs)
      (fun _ hf' hle => decides_checkExpr hctx hf' (hscope.mono hle) _ rhs) hctx op
  | .call _ name args => ExprDecided.call hctx name (decides_checkArgs hctx hf hscope _ args)
  | .methodCall _ receiver method args => ExprDecided.methodCall hctx method
      (decides_checkExpr hctx hf hscope _ receiver)
      fun _ hf' hle => decides_checkArgs hctx hf' (hscope.mono hle) _ args
  | .newObject _ name => ExprDecided.newObject hctx hf name
  | .newArray _ elem size => ExprDecided.newArray hctx elem (decides_checkExpr hctx hf hscope _ size)

/-- **Checking a place reports nothing exactly if it has a type.** -/
theorem decides_checkPlace (hctx : ctx.Sound printName) {f : Findings} (hf : Clean ctx.program f)
    (hscope : ScopeOk ctx.program f.table names scope) (outer : Pos) : (place : Place) →
    PlaceDecided ctx printName names place (checkPlace ctx scope outer place) f
  | .var _ name => PlaceDecided.var hf hscope name
  | .field _ receiver name =>
    PlaceDecided.field hctx name (decides_checkExpr hctx hf hscope _ receiver)
  | .index _ array index => PlaceDecided.index hctx (decides_checkExpr hctx hf hscope _ array)
      fun _ hf' hle => decides_checkExpr hctx hf' (hscope.mono hle) _ index

/-- Checking arguments reports nothing exactly if they have types. -/
theorem decides_checkArgs (hctx : ctx.Sound printName) {f : Findings} (hf : Clean ctx.program f)
    (hscope : ScopeOk ctx.program f.table names scope) (outer : Pos) : (args : List Expr) →
    ArgsDecided ctx printName names args (checkArgs ctx scope outer args) f
  | [] => (Decides.pure hf .nil).congr (by simp)
  | e :: rest => by
    rw [checkArgs]
    refine ((decides_checkExpr hctx hf hscope outer e).bind
      (fun _ => .bind (.checkArgs ctx _ _ _) fun _ => .pure _) fun he ty f₁ hf₁ hle₁ hty =>
        (decides_checkArgs hctx hf₁ (hscope.mono hle₁) outer rest).bind (fun _ => .pure _)
          fun _ tys f₂ hf₂ hle₂ htys => .pure hf₂ ?_).congr ?_
    · exact .cons ⟨he, fun τ hτ => (hty τ hτ).mono hle₂⟩ htys
    · rw [List.forall_mem_cons]
      simp


end

end Expressions

end ClassLang.Typing
