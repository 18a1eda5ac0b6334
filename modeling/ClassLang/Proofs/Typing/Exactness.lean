import ClassLang.Proofs.Hierarchy.References
import ClassLang.Proofs.Source.Parts
import ClassLang.Proofs.Typing.Programs
import ClassLang.Proofs.Typing.Noting
/-!
# Typing — notes are exact

Whatever is wrong with a program, callees are noted of calls only,
declarations of bare names and fields of field accesses, and whatever a note
refers to is there: so findings are `Findings.Exact`. `Check.Keeps` says of a
check that it keeps them so, and every check of an expression does
(`keeps_checkExpr`).
-/


namespace ClassLang.Typing

open Source (NodeId TypeExpr Mark Expr Place Part Stmt Block VarDecl FunctionDecl ClassDecl Program)

/-! ## Notes that may be made -/

/-- The class or the array type that a type speaks of is there. -/
def Known (p : Program) (t : TypeTable) : Ty → Prop
  | .int | .bool | .null | .any => True
  | .invalid => False
  | .array id => id < t.elems.length
  | .class_ id => id < p.classes.length

/-- A call runs a built-in or a function that is there, a method call a
method that is there. -/
def Calls (p : Program) : Part → Callee → Prop
  | .expr (.call _ _ _), .builtin _ => True
  | .expr (.call _ _ _), .function index => index < p.functions.length
  | .expr (.methodCall _ _ _ _), .method ref => (methodDecl? p ref).isSome
  | _, _ => False

/-- A field that a name may be bound to is there. -/
def Bindable (p : Program) : DeclRef → Prop
  | .local_ _ => True
  | .field ref => (fieldDecl? p ref).isSome

/-- Bare names are bound. -/
def Binds (p : Program) : Part → DeclRef → Prop
  | .place (.var _ _), decl => Bindable p decl
  | _, _ => False

/-- Field accesses select a field that is there. -/
def Selects (p : Program) : Part → MemberRef → Prop
  | .place (.field _ _ _), ref => (fieldDecl? p ref).isSome
  | _, _ => False

/-- **Exact findings**: every note belongs to one of the parts, of the kind
that the note is for, and what it refers to is there. -/
structure Findings.Exact (p : Program) (parts : List Part) (f : Findings) : Prop where
  elems : ∀ ty ∈ f.table.elems, Known p f.table ty
  types : ∀ id ty, f.types.get? id = some ty → Known p f.table ty
  calls : ∀ id callee, f.calls.get? id = some callee → ∃ part ∈ parts, part.id = id ∧ Calls p part callee
  vars : ∀ id decl, f.vars.get? id = some decl → ∃ part ∈ parts, part.id = id ∧ Binds p part decl
  fields : ∀ id ref, f.fields.get? id = some ref → ∃ part ∈ parts, part.id = id ∧ Selects p part ref

/-! ## Types that are known -/

section Types

variable {p : Program} {t t' : TypeTable} {ty : Ty}

theorem Known.mono (hle : t.elems <+: t'.elems) (h : Known p t ty) : Known p t' ty := by
  cases ty with
  | array id => exact Nat.lt_of_lt_of_le h hle.length_le
  | _ => exact h

theorem Known.gracious (h : ty = .invalid ∨ Known p t ty) : Known p t ty.gracious := by
  rcases h with rfl | h
  · exact trivial
  · cases ty with
    | invalid => exact h.elim
    | _ => exact h

/-- The types that arrays may have as elements are known. -/
def TableKnown (p : Program) (t : TypeTable) : Prop := ∀ ty ∈ t.elems, Known p t ty

theorem TableKnown.elem (ht : TableKnown p t) (id : ArrayId) : Known p t (t.elem id) := by
  rw [TypeTable.elem]
  cases h : t.elems[id]? with
  | none => exact trivial
  | some ty => exact ht ty (List.mem_of_getElem? h)

theorem TableKnown.arrayOf (ht : TableKnown p t) (h : Known p t ty) :
    TableKnown p (t.arrayOf ty).2 ∧ Known p (t.arrayOf ty).2 (t.arrayOf ty).1 := by
  constructor
  · intro other hmem
    rcases mem_elems_arrayOf hmem with hmem | rfl
    · exact (ht other hmem).mono (prefix_arrayOf t ty)
    · exact h.mono (prefix_arrayOf t other)
  · obtain ⟨id, hty, helem⟩ := getElem?_arrayOf t ty
    rw [hty]
    exact (List.getElem?_eq_some_iff.1 helem).1

variable {classes : ClassTable}

/-- What a written type resolves to is known, if it resolves. -/
theorem TableKnown.resolve
    (hlookup : ∀ name id, classes.lookup name = some id → id < p.classes.length)
    (written : TypeExpr) (ht : TableKnown p t) :
    TableKnown p (resolve classes written t).2 ∧
      ((resolve classes written t).1 = .invalid ∨
        Known p (resolve classes written t).2 (resolve classes written t).1) := by
  induction written generalizing t with
  | int => exact ⟨ht, .inr trivial⟩
  | bool => exact ⟨ht, .inr trivial⟩
  | class_ name =>
    refine ⟨ht, ?_⟩
    cases hid : classes.lookup name with
    | none => simp [Typing.resolve, hid]
    | some id =>
      right
      simp only [Typing.resolve, hid, Option.elim_some]
      exact hlookup name id hid
  | array elem ih =>
    obtain ⟨ht', hknown⟩ := ih ht
    rw [Typing.resolve]
    split
    next t' heq =>
      rw [heq] at ht'
      exact ⟨ht', .inl rfl⟩
    next found t' hne heq =>
      rw [heq] at ht' hknown
      have harray := ht'.arrayOf (hknown.resolve_left fun h => hne h)
      exact ⟨harray.1, .inr harray.2⟩

end Types

/-! ## Checks that keep findings exact -/

/-- Started from exact findings, the check ends with exact findings, forgets
no type, and its result is as `post` says. -/
structure Check.Keeps {α : Type} (p : Program) (parts : List Part) (x : Check α) (f : Findings)
    (post : α → TypeTable → Prop) : Prop where
  exact : (x.run f).2.Exact p parts
  elems : f.table.elems <+: (x.run f).2.table.elems
  post : post (x.run f).1 (x.run f).2.table

/-- The check leaves everything but the errors. -/
def Check.Reports {α : Type} (x : Check α) : Prop :=
  ∀ f, ∃ errors, (x.run f).2 = { f with errors := errors }

namespace Check.Reports

variable {α β : Type}

theorem pure (a : α) : Reports (pure a : Check α) := fun f => ⟨f.errors, rfl⟩

theorem bind {x : Check α} {k : α → Check β} (hx : Reports x) (hk : ∀ a, Reports (k a)) :
    Reports (x >>= k) := fun f => by
  obtain ⟨errors, h⟩ := hx f
  obtain ⟨errors', h'⟩ := hk (x.run f).1 (x.run f).2
  exact ⟨errors', by rw [Check.run_bind, h', h]⟩

theorem ite {c : Prop} [Decidable c] {x y : Check α} (hx : Reports x) (hy : Reports y) :
    Reports (if c then x else y) := by
  split
  · exact hx
  · exact hy

theorem report (pos : Pos) (fault : TypeFault) : Reports (report pos fault) := fun _ => ⟨_, rfl⟩

theorem shown (ty : Ty) : Reports (shown ty) := fun f => ⟨f.errors, rfl⟩

theorem isSubtype (ctx : Context) (sub sup : Ty) : Reports (isSubtype ctx sub sup) :=
  fun f => ⟨f.errors, rfl⟩

theorem require (ctx : Context) (expected found : Ty) (pos : Pos) :
    Reports (require ctx expected found pos) :=
  .bind (.isSubtype ctx _ _) fun _ => .ite (.pure _) <|
    .bind (.shown _) fun _ => .bind (.shown _) fun _ => .report _ _

theorem conditionFound (ctx : Context) (pos : Pos) (of : ConditionOf) (found : Ty) :
    Reports (conditionFound ctx pos of found) :=
  .bind (.isSubtype ctx _ _) fun _ => .ite (.pure _) <| .bind (.shown _) fun _ => .report _ _

end Check.Reports

namespace Check.Keeps

variable {α β : Type} {p : Program} {parts : List Part} {f : Findings} {x : Check α}
variable {post : α → TypeTable → Prop} {post' : β → TypeTable → Prop}

theorem pure {a : α} (hf : f.Exact p parts) (h : post a f.table) :
    Keeps p parts (pure a : Check α) f post := ⟨hf, List.prefix_rfl, h⟩

/-- **Checks in turn.** -/
theorem bind {k : α → Check β} (hx : Keeps p parts x f post)
    (hk : ∀ a f', f'.Exact p parts → f.table.elems <+: f'.table.elems → post a f'.table →
      Keeps p parts (k a) f' post') : Keeps p parts (x >>= k) f post' := by
  have h := hk _ _ hx.exact hx.elems hx.post
  exact ⟨h.exact, hx.elems.trans h.elems, h.post⟩

theorem of_reports (hf : f.Exact p parts) (h : Reports x) :
    Keeps p parts x f fun _ t => t = f.table := by
  obtain ⟨errors, heq⟩ := h f
  refine ⟨?_, heq ▸ List.prefix_rfl, by rw [heq]⟩
  rw [heq]
  exact ⟨hf.elems, hf.types, hf.calls, hf.vars, hf.fields⟩

/-- What only reports, and ends with what is right. -/
theorem of_silent (hf : f.Exact p parts) (h : Reports x) (hpost : post (x.run f).1 f.table) :
    Keeps p parts x f post := by
  have hx := of_reports hf h
  exact ⟨hx.exact, hx.elems, hx.post ▸ hpost⟩

/-- What only reports can be passed. -/
theorem reports {k : α → Check β} (hf : f.Exact p parts) (h : Reports x)
    (hk : ∀ a f', f'.Exact p parts → f'.table = f.table → Keeps p parts (k a) f' post') :
    Keeps p parts (x >>= k) f post' :=
  (of_reports hf h).bind fun a f' hf' _ heq => hk a f' hf' heq

/-- The type table may grow by what is known. -/
theorem grow {table : TypeTable} (hf : f.Exact p parts) (hle : f.table.elems <+: table.elems)
    (ht : TableKnown p table) : ({ f with table := table } : Findings).Exact p parts :=
  ⟨ht, fun id ty h => (hf.types id ty h).mono hle, hf.calls, hf.vars, hf.fields⟩

end Check.Keeps

/-! ## Expressions -/

/-- What a context refers to is there. -/
structure Context.Refers (ctx : Context) : Prop where
  lookup : ∀ name id, ctx.classes.lookup name = some id → id < ctx.program.classes.length
  members : ctx.classes.Declared ctx.program
  callee : ∀ name callee, ctx.functions.lookup name = some callee →
    (∃ b, callee = .builtin b) ∨ ∃ index < ctx.program.functions.length, callee = .function index

/-- What a scope refers to is there. -/
structure Scope.Refers (p : Program) (t : TypeTable) (scope : Scope) : Prop where
  this : Known p t scope.thisTy
  var : ∀ name info, scope.lookupVar name = some info → Known p t info.ty ∧ Bindable p info.decl
  field : ∀ name info, scope.lookupField name = some info → Known p t info.ty ∧ Bindable p info.decl

theorem Scope.Refers.mono {p : Program} {t t' : TypeTable} {scope : Scope}
    (h : scope.Refers p t) (hle : t.elems <+: t'.elems) : scope.Refers p t' :=
  ⟨h.this.mono hle, fun name info hvar => (h.var name info hvar).imp_left (·.mono hle),
    fun name info hfield => (h.field name info hfield).imp_left (·.mono hle)⟩

section Expressions

variable {ctx : Context} {parts : List Part} {f : Findings} {scope : Scope}

theorem keeps_resolveType (hctx : ctx.Refers) (hf : f.Exact ctx.program parts) (ty : TypeExpr) :
    Check.Keeps ctx.program parts (resolveType ctx ty) f
      fun found t => found = .invalid ∨ Known ctx.program t found := by
  obtain ⟨ht, hknown⟩ := TableKnown.resolve hctx.lookup ty hf.elems
  have hle := prefix_resolve ctx.classes ty f.table
  exact ⟨Check.Keeps.grow hf hle ht, hle, hknown⟩

theorem keeps_gracious (hctx : ctx.Refers) (hf : f.Exact ctx.program parts) (ty : TypeExpr) :
    Check.Keeps ctx.program parts (do return (← resolveType ctx ty).gracious) f
      fun found t => Known ctx.program t found :=
  (keeps_resolveType hctx hf ty).bind fun _ _ hf' _ h => .pure hf' (.gracious h)

theorem keeps_resolveReported (hctx : ctx.Refers) (hf : f.Exact ctx.program parts) (ty : TypeExpr)
    (role : TypeRole) (pos : Pos) :
    Check.Keeps ctx.program parts (resolveReported ctx ty role pos) f
      fun found t => Known ctx.program t found := by
  refine (keeps_resolveType hctx hf ty).bind fun found f' hf' _ h => ?_
  split
  · exact .reports hf' (.report _ _) fun _ f'' hf'' heq => .pure hf'' (heq ▸ .gracious h)
  · exact .pure hf' (.gracious h)

theorem keeps_fieldType (hctx : ctx.Refers) (hf : f.Exact ctx.program parts) (ref : MemberRef) :
    Check.Keeps ctx.program parts (fieldType ctx ref) f fun found t => Known ctx.program t found := by
  unfold fieldType
  split
  · exact keeps_gracious hctx hf _
  · exact .pure hf trivial

theorem keeps_arrayOf (hf : f.Exact ctx.program parts) {elem : Ty}
    (h : Known ctx.program f.table elem) :
    Check.Keeps ctx.program parts (arrayOf elem) f fun found t => Known ctx.program t found := by
  obtain ⟨ht, hknown⟩ := TableKnown.arrayOf hf.elems h
  have hle := prefix_arrayOf f.table elem
  exact ⟨Check.Keeps.grow hf hle ht, hle, hknown⟩

theorem keeps_requireArgs (hctx : ctx.Refers) (hf : f.Exact ctx.program parts) (here : Pos)
    (args : List (Option Pos × Ty)) (params : List TypeExpr) :
    Check.Keeps ctx.program parts (requireArgs ctx here args params) f fun _ _ => True := by
  induction args, params using requireArgs.induct generalizing f with
  | case1 pos found args param params ih =>
    exact (keeps_resolveType hctx hf param).bind fun _ f' hf' _ _ =>
      .reports hf' (.require ctx _ _ _) fun _ f'' hf'' _ => ih hf''
  | case2 args params hne =>
    rw [requireArgs]
    · exact .pure hf trivial
    · exact hne

theorem keeps_apply (hctx : ctx.Refers) (hf : f.Exact ctx.program parts) (here : Pos)
    (callee : Callee) (args : List (Option Pos × Ty)) :
    Check.Keeps ctx.program parts (apply ctx here callee args) f
      fun found t => Known ctx.program t found := by
  unfold apply
  split
  · exact .pure hf trivial
  · split
    · exact .reports hf (.report _ _) fun _ f' hf' _ => keeps_gracious hctx hf' _
    · exact (keeps_requireArgs hctx hf _ _ _).bind fun _ f' hf' _ _ => keeps_gracious hctx hf' _

/-- An entry of a table with one more key is an old one or the new one. -/
theorem get?_insert_cases {κ ν : Type} [DecidableEq κ] {t : Table κ ν} {key other : κ} {value v : ν}
    (h : (t.insert key value).get? other = some v) :
    t.get? other = some v ∨ (other = key ∧ v = value) := by
  by_cases heq : key = other
  · subst heq
    rw [Table.get?_insert_self] at h
    exact .inr ⟨rfl, (Option.some.inj h).symm⟩
  · rw [Table.get?_insert_of_ne _ _ heq] at h
    exact .inl h

/-- A node gets the type that was found. -/
theorem Check.Keeps.typed {p : Program} (m : Mark) (outer : Pos) {infer : Pos → Check Ty}
    (h : Check.Keeps p parts (infer (m.pos.getD outer)) f fun ty t => Known p t ty) :
    Check.Keeps p parts (typed m outer infer) f fun ty t => Known p t ty := by
  refine h.bind fun ty f' hf' _ hty => ⟨?_, List.prefix_rfl, hty⟩
  refine ⟨hf'.elems, fun id other hother => ?_, hf'.calls, hf'.vars, hf'.fields⟩
  rcases get?_insert_cases hother with hold | ⟨-, rfl⟩
  · exact hf'.types id other hold
  · exact hty

theorem exact_noteCall {p : Program} (hf : f.Exact p parts) {part : Part} (hpart : part ∈ parts)
    {callee : Callee} (h : Calls p part callee) :
    ({ f with calls := f.calls.insert part.id callee } : Findings).Exact p parts := by
  refine ⟨hf.elems, hf.types, fun id other hother => ?_, hf.vars, hf.fields⟩
  rcases get?_insert_cases hother with hold | ⟨rfl, rfl⟩
  · exact hf.calls id other hold
  · exact ⟨part, hpart, rfl, h⟩

theorem exact_noteVar {p : Program} (hf : f.Exact p parts) {part : Part} (hpart : part ∈ parts)
    {decl : DeclRef} (h : Binds p part decl) :
    ({ f with vars := f.vars.insert part.id decl } : Findings).Exact p parts := by
  refine ⟨hf.elems, hf.types, hf.calls, fun id other hother => ?_, hf.fields⟩
  rcases get?_insert_cases hother with hold | ⟨rfl, rfl⟩
  · exact hf.vars id other hold
  · exact ⟨part, hpart, rfl, h⟩

theorem exact_noteField {p : Program} (hf : f.Exact p parts) {part : Part} (hpart : part ∈ parts)
    {ref : MemberRef} (h : Selects p part ref) :
    ({ f with fields := f.fields.insert part.id ref } : Findings).Exact p parts := by
  refine ⟨hf.elems, hf.types, hf.calls, hf.vars, fun id other hother => ?_⟩
  rcases get?_insert_cases hother with hold | ⟨rfl, rfl⟩
  · exact hf.fields id other hold
  · exact ⟨part, hpart, rfl, h⟩

/-- Notes of a table that grows only elsewhere. -/
theorem Check.Keeps.noted {β : Type} {p : Program} {k : Unit → Check β} {x : Check Unit} {f' : Findings}
    {post : β → TypeTable → Prop} (hrun : x.run f = ((), f')) (htable : f'.table = f.table)
    (hk : Check.Keeps p parts (k ()) f' post) : Check.Keeps p parts (x >>= k) f post := by
  have hrun' : (x >>= k).run f = (k ()).run f' := by rw [Check.run_bind, hrun]
  exact ⟨hrun' ▸ hk.exact, hrun' ▸ htable ▸ hk.elems, hrun' ▸ hk.post⟩

theorem Scope.Refers.lookup {p : Program} {t : TypeTable} (h : scope.Refers p t) {name : String}
    {info : VarInfo} (hlookup : scope.lookup name = some info) :
    Known p t info.ty ∧ Bindable p info.decl := by
  rw [Scope.lookup, Option.orElse_eq_orElse, Option.orElse_eq_or, Option.or_eq_some_iff] at hlookup
  rcases hlookup with hvar | ⟨-, hfield⟩
  · exact h.var name info hvar
  · exact h.field name info hfield

theorem Context.Refers.method (hctx : ctx.Refers) {id : ClassId} {name : String} {ref : MemberRef}
    (h : (ctx.classes.info id).bind (·.method? name) = some ref) :
    (methodDecl? ctx.program ref).isSome := by
  obtain ⟨info, hinfo, href⟩ := Option.bind_eq_some_iff.1 h
  exact (hctx.members id info hinfo).methods _ (Table.mem_of_get? href)

theorem Context.Refers.field (hctx : ctx.Refers) {id : ClassId} {name : String} {ref : MemberRef}
    (h : (ctx.classes.info id).bind (·.field? name) = some ref) :
    (fieldDecl? ctx.program ref).isSome := by
  obtain ⟨info, hinfo, href⟩ := Option.bind_eq_some_iff.1 h
  exact (hctx.members id info hinfo).fields _ (Table.mem_of_get? href)

/-! ### The ends of checks -/

/-- What reports and ends with `any`. -/
theorem keeps_refused {p : Program} (hf : f.Exact p parts) (pos : Pos) (fault : TypeFault) :
    Check.Keeps p parts (do report pos fault; return .any) f fun ty t => Known p t ty :=
  .of_silent hf (.bind (.report _ _) fun _ => .pure _) trivial

/-- The report may show a type. -/
theorem keeps_refusedShown {p : Program} (hf : f.Exact p parts) (pos : Pos)
    (fault : String → TypeFault) (found : Ty) :
    Check.Keeps p parts (do report pos (fault (← shown found)); return .any) f
      fun ty t => Known p t ty :=
  .reports hf (.shown _) fun _ _ hf' _ => keeps_refused hf' _ _

theorem keeps_lengthFound {p : Program} (hf : f.Exact p parts) (pos : Pos) (found : Ty) :
    Check.Keeps p parts (lengthFound pos found) f fun ty t => Known p t ty := by
  unfold lengthFound
  split
  · exact .pure hf trivial
  · exact .pure hf trivial
  · exact .of_silent hf (.bind (.shown _) fun _ => .bind (.report _ _) fun _ => .pure _) trivial

theorem keeps_comparableFound (hf : f.Exact ctx.program parts) (here : Pos) (l r : Ty) :
    Check.Keeps ctx.program parts (comparableFound ctx here l r) f
      fun ty t => Known ctx.program t ty := by
  refine .reports hf (.isSubtype ctx _ _) fun _ f₁ hf₁ _ =>
    .reports hf₁ (.isSubtype ctx _ _) fun _ f₂ hf₂ _ => ?_
  split
  · exact .pure hf₂ trivial
  · exact .of_silent hf₂ (.bind (.shown _) fun _ => .bind (.shown _) fun _ =>
      .bind (.report _ _) fun _ => .pure _) trivial

theorem keeps_callFound (hctx : ctx.Refers) (hf : f.Exact ctx.program parts) {m : Mark}
    {name : String} {args : List Expr} (hpart : .expr (.call m name args) ∈ parts) (here : Pos)
    (found : List (Option Pos × Ty)) :
    Check.Keeps ctx.program parts (callFound ctx m here name found) f
      fun ty t => Known ctx.program t ty := by
  unfold callFound
  split
  next callee hlookup =>
    have hcalls : Calls ctx.program (.expr (.call m name args)) callee := by
      rcases hctx.callee name callee hlookup with ⟨b, rfl⟩ | ⟨index, hlt, rfl⟩
      · exact trivial
      · exact hlt
    exact .noted rfl rfl (keeps_apply hctx (exact_noteCall hf hpart hcalls) _ _ _)
  next => exact keeps_refused hf _ _

theorem keeps_methodFound (hctx : ctx.Refers) (hf : f.Exact ctx.program parts) {m : Mark}
    {receiver : Expr} {method : String} {args : List Expr}
    (hpart : .expr (.methodCall m receiver method args) ∈ parts) (here : Pos)
    (argTys : List (Option Pos × Ty)) (found : Ty) :
    Check.Keeps ctx.program parts (methodFound ctx m here method argTys found) f
      fun ty t => Known ctx.program t ty := by
  unfold methodFound
  split
  · exact .pure hf trivial
  · split
    next ref href =>
      have hcalls : Calls ctx.program (.expr (.methodCall m receiver method args)) (.method ref) :=
        hctx.method href
      exact .noted rfl rfl (keeps_apply hctx (exact_noteCall hf hpart hcalls) _ _ _)
    next => exact keeps_refusedShown hf _ _ _
  · exact keeps_refused hf _ _

theorem keeps_fieldFound (hctx : ctx.Refers) (hf : f.Exact ctx.program parts) {m : Mark}
    {receiver : Expr} {name : String} (hpart : .place (.field m receiver name) ∈ parts)
    (pos : Pos) (found : Ty) :
    Check.Keeps ctx.program parts (fieldFound ctx m pos name found) f
      fun ty t => Known ctx.program t ty := by
  unfold fieldFound
  split
  · exact .pure hf trivial
  · split
    next ref href =>
      exact .noted rfl rfl (keeps_fieldType hctx (exact_noteField hf hpart (hctx.field href)) _)
    next => exact keeps_refusedShown hf _ _ _
  · exact keeps_refused hf _ _

theorem keeps_indexFound {p : Program} (hf : f.Exact p parts) (here : Pos) (found : Ty) :
    Check.Keeps p parts (indexFound here found) f fun ty t => Known p t ty := by
  unfold indexFound
  split
  · exact .of_silent hf (fun f => ⟨f.errors, rfl⟩) (TableKnown.elem hf.elems _)
  · exact .pure hf trivial
  · exact keeps_refusedShown hf _ _ _

mutual

/-- **Checking an expression keeps findings exact**, and its type is known. -/
theorem keeps_checkExpr (hctx : ctx.Refers) {f : Findings} (hf : f.Exact ctx.program parts)
    (hscope : scope.Refers ctx.program f.table) (outer : Pos) : (e : Expr) → e.parts ⊆ parts →
    Check.Keeps ctx.program parts (checkExpr ctx scope outer e) f
      fun ty t => Known ctx.program t ty
  | .int m _, _ => .typed m _ (.pure hf trivial)
  | .bool m _, _ => .typed m _ (.pure hf trivial)
  | .null m, _ => .typed m _ (.pure hf trivial)
  | .this m, _ => by
    rw [checkExpr]
    refine .typed m _ ?_
    split
    · exact .reports hf (.report _ _) fun _ f' hf' heq => .pure hf' (heq ▸ hscope.this)
    · exact .pure hf hscope.this
  | .read m place, hparts => by
    rw [Expr.parts, List.cons_subset] at hparts
    rw [checkExpr]
    exact .typed m _ (keeps_checkPlace hctx hf hscope _ place hparts.2)
  | .arrayLength m array, hparts => by
    rw [Expr.parts, List.cons_subset] at hparts
    rw [checkExpr_arrayLength]
    exact .typed m _ ((keeps_checkExpr hctx hf hscope _ array hparts.2).bind
      fun _ _ hf' _ _ => keeps_lengthFound hf' _ _)
  | .unary m op operand, hparts => by
    rw [Expr.parts, List.cons_subset] at hparts
    rw [checkExpr]
    refine .typed m _ ((keeps_checkExpr hctx hf hscope _ operand hparts.2).bind
      fun found f' hf' _ _ => .reports hf' (.require ctx _ _ _) fun _ f'' hf'' _ => .pure hf'' ?_)
    cases op <;> exact trivial
  | .binary m op lhs rhs, hparts => by
    rw [Expr.parts, List.cons_subset, List.append_subset] at hparts
    rw [checkExpr]
    refine .typed m _ ?_
    split
    next operand result heq =>
      refine (keeps_checkExpr hctx hf hscope _ lhs hparts.2.1).bind fun l f₁ hf₁ hle₁ _ =>
        .reports hf₁ (.require ctx _ _ _) fun _ f₂ hf₂ heq₂ =>
          (keeps_checkExpr hctx hf₂ (heq₂ ▸ hscope.mono hle₁) _ rhs hparts.2.2).bind
            fun r f₃ hf₃ _ _ => .reports hf₃ (.require ctx _ _ _) fun _ f₄ hf₄ _ => .pure hf₄ ?_
      cases op <;> cases heq <;> exact trivial
    next =>
      exact (keeps_checkExpr hctx hf hscope _ lhs hparts.2.1).bind fun _ f₁ hf₁ hle₁ _ =>
        (keeps_checkExpr hctx hf₁ (hscope.mono hle₁) _ rhs hparts.2.2).bind
          fun _ _ hf₂ _ _ => keeps_comparableFound hf₂ _ _ _
  | .call m name args, hparts => by
    rw [Expr.parts, List.cons_subset] at hparts
    rw [checkExpr_call]
    exact .typed m _ ((keeps_checkArgs hctx hf hscope _ args hparts.2).bind
      fun _ _ hf' _ _ => keeps_callFound hctx hf' hparts.1 _ _)
  | .methodCall m receiver method args, hparts => by
    rw [Expr.parts, List.cons_subset, List.append_subset] at hparts
    rw [checkExpr_methodCall]
    exact .typed m _ ((keeps_checkExpr hctx hf hscope _ receiver hparts.2.1).bind
      fun _ f₁ hf₁ hle₁ _ => (keeps_checkArgs hctx hf₁ (hscope.mono hle₁) _ args hparts.2.2).bind
        fun _ _ hf₂ _ _ => keeps_methodFound hctx hf₂ hparts.1 _ _ _)
  | .newObject m name, _ => by
    rw [checkExpr]
    refine .typed m _ ?_
    split
    next id hid => exact .pure hf (hctx.lookup name id hid)
    next => exact keeps_refused hf _ _
  | .newArray m elem size, hparts => by
    rw [Expr.parts, List.cons_subset] at hparts
    rw [checkExpr]
    exact .typed m _ ((keeps_checkExpr hctx hf hscope _ size hparts.2).bind fun found f₁ hf₁ _ _ =>
      .reports hf₁ (.require ctx _ _ _) fun _ f₂ hf₂ _ =>
        (keeps_resolveReported hctx hf₂ elem .plain _).bind fun found f₃ hf₃ _ h =>
          keeps_arrayOf hf₃ h)

/-- **Checking a place keeps findings exact**, and its type is known. -/
theorem keeps_checkPlace (hctx : ctx.Refers) {f : Findings} (hf : f.Exact ctx.program parts)
    (hscope : scope.Refers ctx.program f.table) (outer : Pos) : (place : Place) →
    place.parts ⊆ parts → Check.Keeps ctx.program parts (checkPlace ctx scope outer place) f
      fun ty t => Known ctx.program t ty
  | .var m name, hparts => by
    rw [Place.parts, List.cons_subset] at hparts
    rw [checkPlace]
    refine .typed m _ ?_
    split
    next info hlookup =>
      obtain ⟨hty, hdecl⟩ := hscope.lookup hlookup
      exact .noted rfl rfl (.pure (exact_noteVar hf hparts.1 hdecl) hty)
    next => exact keeps_refused hf _ _
  | .field m receiver name, hparts => by
    rw [Place.parts, List.cons_subset] at hparts
    rw [checkPlace_field]
    exact .typed m _ ((keeps_checkExpr hctx hf hscope _ receiver hparts.2).bind
      fun _ _ hf' _ _ => keeps_fieldFound hctx hf' hparts.1 _ _)
  | .index m array index, hparts => by
    rw [Place.parts, List.cons_subset, List.append_subset] at hparts
    rw [checkPlace_index]
    exact .typed m _ ((keeps_checkExpr hctx hf hscope _ array hparts.2.1).bind
      fun _ f₁ hf₁ hle₁ _ => (keeps_checkExpr hctx hf₁ (hscope.mono hle₁) _ index hparts.2.2).bind
        fun _ f₂ hf₂ _ _ => .reports hf₂ (.require ctx _ _ _) fun _ _ hf₃ _ =>
          keeps_indexFound hf₃ _ _)

theorem keeps_checkArgs (hctx : ctx.Refers) {f : Findings} (hf : f.Exact ctx.program parts)
    (hscope : scope.Refers ctx.program f.table) (outer : Pos) : (args : List Expr) →
    Source.argParts args ⊆ parts →
    Check.Keeps ctx.program parts (checkArgs ctx scope outer args) f fun _ _ => True
  | [], _ => .pure hf trivial
  | e :: rest, hparts => by
    rw [Source.argParts, List.append_subset] at hparts
    exact (keeps_checkExpr hctx hf hscope outer e hparts.1).bind fun _ f₁ hf₁ hle₁ _ =>
      (keeps_checkArgs hctx hf₁ (hscope.mono hle₁) outer rest hparts.2).bind fun _ f₂ hf₂ _ _ =>
        .pure hf₂ trivial

end

end Expressions

end ClassLang.Typing
