import ClassLang.Proofs.Typing.Fading
import ClassLang.Proofs.Typing.Noting
import ClassLang.Proofs.Typing.Programs
/-!
# Typing — knowing less reports less

Two runs of one check are compared, where the second may have lost some types
and goes on with `any`. `Check.Spares` says that what the second run reports is
among what the first one reports, in the same order. Every typing rule is
monotone in this way, so whole statements are (`spares_checkStmt`), and so is
all that is checked behind them.
-/


namespace ClassLang.Typing

open Source (NodeId TypeExpr Mark UnaryOp BinaryOp Expr Place Stmt Block VarDecl FunctionDecl ClassDecl)

/-! ## Two runs -/

/-- Checking leads from the first findings to the second. -/
def Findings.Leads (f g : Findings) : Prop := ∃ nodes, Findings.Grows nodes f g

namespace Findings.Leads

variable {f g h : Findings}

theorem refl (f : Findings) : f.Leads f := ⟨[], .refl f⟩

theorem trans (hfg : f.Leads g) (hgh : g.Leads h) : f.Leads h := by
  obtain ⟨nodes, hfg⟩ := hfg
  obtain ⟨nodes', hgh⟩ := hgh
  exact ⟨nodes ++ nodes', (hfg.weaken (List.subset_append_left _ _)).trans
    (hgh.weaken (List.subset_append_right _ _))⟩

theorem elems (h : f.Leads g) : f.table.elems <+: g.table.elems := by
  obtain ⟨_, h⟩ := h
  exact h.elems

theorem classNames (h : f.Leads g) : g.table.classNames = f.table.classNames := by
  obtain ⟨_, h⟩ := h
  exact h.classNames

end Findings.Leads

/-- **The second run reports no more than the first**: what it reports is among
what the first one reports, in the same order. The tables stay paired, and the
results are as `post` says. -/
structure Check.Spares {α : Type} (x : Check α) (f : Findings) (x' : Check α) (f' : Findings)
    (post : TypeTable → TypeTable → α → α → Prop) : Prop where
  reported : ∃ errors errors', (x.run f).2.errors = f.errors ++ errors ∧
    (x'.run f').2.errors = f'.errors ++ errors' ∧ errors'.Sublist errors
  left : f.Leads (x.run f).2
  right : f'.Leads (x'.run f').2
  tables : Paired (x.run f).2.table (x'.run f').2.table
  post : post (x.run f).2.table (x'.run f').2.table (x.run f).1 (x'.run f').1

/-- The check notes things of nodes at most. -/
structure Check.Quiet {α : Type} (x : Check α) : Prop where
  leads : ∀ f : Findings, f.Leads (x.run f).2
  errors : ∀ f : Findings, (x.run f).2.errors = f.errors
  table : ∀ f : Findings, (x.run f).2.table = f.table

/-- Both results are this type. -/
def Results (ty : Ty) (_ _ : TypeTable) (result result' : Ty) : Prop := result = ty ∧ result' = ty

/-- Nothing is asked of the results. -/
def AnyResults {α : Type} (_ _ : TypeTable) (_ _ : α) : Prop := True

namespace Check.Quiet

theorem noteType (id : NodeId) (ty : Ty) : Quiet (noteType id ty) :=
  ⟨fun f => ⟨[id], Check.Within.noteType (List.mem_singleton.2 rfl) ty f⟩, fun _ => rfl, fun _ => rfl⟩

theorem noteCall (id : NodeId) (callee : Callee) : Quiet (noteCall id callee) :=
  ⟨fun f => ⟨[id], Check.Within.noteCall (List.mem_singleton.2 rfl) callee f⟩, fun _ => rfl,
    fun _ => rfl⟩

theorem noteVar (id : NodeId) (decl : DeclRef) : Quiet (noteVar id decl) :=
  ⟨fun f => ⟨[id], Check.Within.noteVar (List.mem_singleton.2 rfl) decl f⟩, fun _ => rfl,
    fun _ => rfl⟩

theorem noteField (id : NodeId) (ref : MemberRef) : Quiet (noteField id ref) :=
  ⟨fun f => ⟨[id], Check.Within.noteField (List.mem_singleton.2 rfl) ref f⟩, fun _ => rfl,
    fun _ => rfl⟩

end Check.Quiet

namespace Check.Spares

variable {α β : Type} {f f' : Findings} {x x' : Check α}
variable {post : TypeTable → TypeTable → α → α → Prop} {post' : TypeTable → TypeTable → β → β → Prop}

theorem pure (ht : Paired f.table f'.table) {a a' : α} (h : post f.table f'.table a a') :
    Spares (pure a) f (pure a') f' post :=
  ⟨⟨[], [], (List.append_nil _).symm, (List.append_nil _).symm, .slnil⟩, .refl f, .refl f', ht, h⟩

/-- **Checks in turn** report in turn. -/
theorem bind {k k' : α → Check β} (hx : Spares x f x' f' post)
    (hk : ∀ a a' g g', Paired g.table g'.table → f.Leads g → f'.Leads g' →
      post g.table g'.table a a' → Spares (k a) g (k' a') g' post') :
    Spares (x >>= k) f (x' >>= k') f' post' := by
  obtain ⟨errors, errors', herr, herr', hsub⟩ := hx.reported
  have h := hk _ _ _ _ hx.tables hx.left hx.right hx.post
  obtain ⟨more, more', hmore, hmore', hsub'⟩ := h.reported
  refine ⟨⟨errors ++ more, errors' ++ more', ?_, ?_, hsub.append hsub'⟩, hx.left.trans h.left,
    hx.right.trans h.right, h.tables, h.post⟩
  · exact hmore.trans (by rw [herr, List.append_assoc])
  · exact hmore'.trans (by rw [herr', List.append_assoc])

theorem mono (hx : Spares x f x' f' post) {post' : TypeTable → TypeTable → α → α → Prop}
    (h : ∀ t t' a a', post t t' a a' → post' t t' a a') : Spares x f x' f' post' :=
  ⟨hx.reported, hx.left, hx.right, hx.tables, h _ _ _ _ hx.post⟩

theorem of_quiet (ht : Paired f.table f'.table) (hx : Quiet x) (hx' : Quiet x')
    (h : post f.table f'.table (x.run f).1 (x'.run f').1) : Spares x f x' f' post := by
  refine ⟨⟨[], [], ?_, ?_, .slnil⟩, hx.leads f, hx'.leads f', ?_, ?_⟩
  · rw [hx.errors, List.append_nil]
  · rw [hx'.errors, List.append_nil]
  · rwa [hx.table, hx'.table]
  · rwa [hx.table, hx'.table]

/-- What is noted of a node does not matter. -/
theorem quiet {y y' : Check β} {k k' : β → Check α} (ht : Paired f.table f'.table) (hy : Quiet y)
    (hy' : Quiet y') (hk : ∀ b b' g g', g.table = f.table → g'.table = f'.table →
      Spares (k b) g (k' b') g' post) : Spares (y >>= k) f (y' >>= k') f' post := by
  refine (of_quiet ht hy hy' ⟨rfl, rfl⟩ :
    Spares y f y' f' fun t t' _ _ => t = f.table ∧ t' = f'.table).bind ?_
  rintro b b' g g' - - - ⟨heq, heq'⟩
  exact hk b b' g g' heq heq'

theorem congr {y y' : Check α} (hx : Spares x f x' f' post) (h : y.run f = x.run f)
    (h' : y'.run f' = x'.run f') : Spares y f y' f' post := by
  obtain ⟨hreported, hleft, hright, htables, hpost⟩ := hx
  rw [← h, ← h'] at hreported htables hpost
  exact ⟨hreported, h ▸ hleft, h' ▸ hright, htables, hpost⟩

/-- What only reads the findings can be passed. -/
theorem reads {y y' : Check β} {b b' : β} {k k' : β → Check α} (h : y.run f = (b, f))
    (h' : y'.run f' = (b', f')) (hk : Spares (k b) f (k' b') f' post) :
    Spares (y >>= k) f (y' >>= k') f' post :=
  hk.congr (by rw [Check.run_bind, h]) (by rw [Check.run_bind, h'])

theorem report (ht : Paired f.table f'.table) (pos : Pos) (fault : TypeFault) :
    Spares (report pos fault) f (report pos fault) f' AnyResults :=
  ⟨⟨_, _, rfl, rfl, .refl _⟩, ⟨[], Check.Within.report _ _ f⟩, ⟨[], Check.Within.report _ _ f'⟩, ht,
    trivial⟩

/-- **A fault** is reported by the second run only if the first one reports the
same. -/
theorem unless_fault {c c' : Bool} {y y' : Check α} {a a' : α} {error error' : TypeError}
    (ht : Paired f.table f'.table)
    (hy : y.run f = (a, { f with errors := f.errors ++ [error] }))
    (hy' : y'.run f' = (a', { f' with errors := f'.errors ++ [error'] }))
    (h : c' = true ∨ c = c' ∧ error = error') (hpost : post f.table f'.table a a') :
    Spares (if c then Pure.pure a else y) f (if c' then Pure.pure a' else y') f' post := by
  have hleads (f : Findings) (error : TypeError) :
      f.Leads { f with errors := f.errors ++ [error] } :=
    ⟨[], Check.Within.report error.pos error.fault f⟩
  cases c' with
  | true =>
    cases c with
    | true => exact .pure ht hpost
    | false =>
      refine ⟨⟨[error], [], ?_, (List.append_nil _).symm, List.nil_sublist _⟩, ?_, .refl f', ?_, ?_⟩
      all_goals rw [if_neg Bool.false_ne_true, hy]
      · exact hleads f error
      · exact ht
      · exact hpost
  | false =>
    obtain h | ⟨rfl, rfl⟩ := h
    · cases h
    · refine ⟨⟨[error], [error], ?_, ?_, .refl _⟩, ?_, ?_, ?_, ?_⟩
      all_goals simp only [Bool.false_eq_true, if_false, hy, hy']
      · exact hleads f error
      · exact hleads f' error
      · exact ht
      · exact hpost

/-- **What is lost** leads on to nothing that the first run would not report. -/
theorem lost (hself : Spares x f x f post) (ht : Paired f.table f'.table)
    {post' : TypeTable → TypeTable → α → α → Prop} {a' : α}
    (hpost : ∀ t a, post t t a a → post' t f'.table a a') :
    Spares x f (Pure.pure a') f' post' := by
  obtain ⟨errors, -, herr, -, -⟩ := hself.reported
  refine ⟨⟨errors, [], herr, (List.append_nil _).symm, List.nil_sublist _⟩, hself.left, .refl f',
    ⟨hself.tables.left, ht.right, ?_⟩, hpost _ _ hself.post⟩
  exact ht.classNames.trans hself.left.classNames.symm

end Check.Spares

/-! ## Scopes -/

/-- Both types of a name are one, or neither has any. -/
def InfoAlike (t t' : TypeTable) : Option VarInfo → Option VarInfo → Prop :=
  Option.Rel fun info info' => Alike t t' info.ty info'.ty

theorem InfoAlike.cases {t t' : TypeTable} {info info' : Option VarInfo}
    (h : InfoAlike t t' info info') : info = none ∧ info' = none ∨
      ∃ i i', info = some i ∧ info' = some i' ∧ Alike t t' i.ty i'.ty := by
  cases h with
  | some h => exact .inr ⟨_, _, rfl, rfl, h⟩
  | none => exact .inl ⟨rfl, rfl⟩

theorem InfoAlike.mono {t t' u u' : TypeTable} (hle : t.elems <+: u.elems)
    (hle' : t'.elems <+: u'.elems) {info info' : Option VarInfo} (h : InfoAlike t t' info info') :
    InfoAlike u u' info info' := by
  cases h with
  | some h => exact .some (h.mono hle hle')
  | none => exact .none

theorem InfoAlike.orElse {t t' : TypeTable} {a a' b b' : Option VarInfo} (ha : InfoAlike t t' a a')
    (hb : InfoAlike t t' b b') : InfoAlike t t' (a <|> b) (a' <|> b') := by
  cases ha with
  | some h => exact .some h
  | none => exact hb

/-- The same names are in scope, with the same types, each in its own table. -/
structure Scope.Pairs (t t' : TypeTable) (scope scope' : Scope) : Prop where
  this : Alike t t' scope.thisTy scope'.thisTy
  returns : Alike t t' scope.returnTy scope'.returnTy
  var : ∀ name, InfoAlike t t' (scope.lookupVar name) (scope'.lookupVar name)
  field : ∀ name, InfoAlike t t' (scope.lookupField name) (scope'.lookupField name)

namespace Scope.Pairs

variable {t t' u u' : TypeTable} {scope scope' : Scope}

theorem mono (hle : t.elems <+: u.elems) (hle' : t'.elems <+: u'.elems)
    (h : Scope.Pairs t t' scope scope') : Scope.Pairs u u' scope scope' :=
  ⟨h.this.mono hle hle', h.returns.mono hle hle', fun name => (h.var name).mono hle hle',
    fun name => (h.field name).mono hle hle'⟩

theorem lookup (h : Scope.Pairs t t' scope scope') (name : String) :
    InfoAlike t t' (scope.lookup name) (scope'.lookup name) :=
  (h.var name).orElse (h.field name)

theorem empty {ty ty' : Ty} (h : Alike t t' ty ty') :
    Scope.Pairs t t' (Scope.empty.setThis ty) (Scope.empty.setThis ty') :=
  ⟨h, .any, fun _ => .none, fun _ => .none⟩

theorem push (h : Scope.Pairs t t' scope scope') : Scope.Pairs t t' scope.push scope'.push :=
  ⟨h.this, h.returns, h.var, h.field⟩

theorem setReturn (h : Scope.Pairs t t' scope scope') {ty ty' : Ty} (hty : Alike t t' ty ty') :
    Scope.Pairs t t' (scope.setReturn ty) (scope'.setReturn ty') :=
  ⟨h.this, hty, h.var, h.field⟩

theorem putVar (h : Scope.Pairs t t' scope scope') (name : String) {info info' : VarInfo}
    (hinfo : Alike t t' info.ty info'.ty) :
    Scope.Pairs t t' (scope.putVar name info) (scope'.putVar name info') := by
  refine ⟨h.this, h.returns, fun other => ?_, h.field⟩
  by_cases hname : name = other
  · subst hname
    rw [lookupVar_putVar_self, lookupVar_putVar_self]
    exact .some hinfo
  · rw [lookupVar_putVar_of_ne scope info hname, lookupVar_putVar_of_ne scope' info' hname]
    exact h.var other

theorem putField (h : Scope.Pairs t t' scope scope') (name : String) {info info' : VarInfo}
    (hinfo : Alike t t' info.ty info'.ty) :
    Scope.Pairs t t' (scope.putField name info) (scope'.putField name info') := by
  refine ⟨h.this, h.returns, h.var, fun other => ?_⟩
  rw [lookupField_putField, lookupField_putField]
  split
  · exact .some hinfo
  · exact h.field other

end Scope.Pairs

section Leaves

variable (ctx : Context) {f f' : Findings}

theorem spares_resolveType (ht : Paired f.table f'.table) (written : TypeExpr) :
    Check.Spares (resolveType ctx written) f (resolveType ctx written) f' fun t t' ty ty' =>
      ty = .invalid ∧ ty' = .invalid ∨ Alike t t' ty ty' := by
  obtain ⟨htables, hresolved⟩ := alike_resolve ctx.classes written ht
  exact ⟨⟨[], [], (List.append_nil _).symm, (List.append_nil _).symm, .slnil⟩,
    ⟨[], Check.Within.resolveType ctx written f⟩, ⟨[], Check.Within.resolveType ctx written f'⟩,
    htables, hresolved⟩

theorem spares_gracious (ht : Paired f.table f'.table) (written : TypeExpr) :
    Check.Spares (do return (← resolveType ctx written).gracious) f
      (do return (← resolveType ctx written).gracious) f' Alike :=
  (spares_resolveType ctx ht written).bind fun _ _ _ _ ht _ _ h => .pure ht (.gracious h)

theorem spares_resolveReported (ht : Paired f.table f'.table) (written : TypeExpr)
    (role : TypeRole) (pos : Pos) :
    Check.Spares (resolveReported ctx written role pos) f (resolveReported ctx written role pos) f'
      Alike := by
  refine (spares_resolveType ctx ht written).bind fun ty ty' g g' ht _ _ h => ?_
  have hinvalid : ty.isInvalid = ty'.isInvalid := by
    rcases h with ⟨rfl, rfl⟩ | h
    · rfl
    · simp [Ty.isInvalid, h.ne_invalid, h.symm.ne_invalid]
  rw [hinvalid]
  cases hcase : ty'.isInvalid with
  | true =>
    exact (Check.Spares.report ht pos _).bind fun _ _ _ _ ht hg hg' _ => .pure ht <|
      Alike.gracious (h.imp_right (·.mono hg.elems hg'.elems))
  | false => exact .pure ht (.gracious h)

theorem spares_fieldType (ht : Paired f.table f'.table) (ref : MemberRef) :
    Check.Spares (fieldType ctx ref) f (fieldType ctx ref) f' Alike := by
  unfold fieldType
  split
  · exact spares_gracious ctx ht _
  · exact .pure ht .any

theorem spares_arrayOf (ht : Paired f.table f'.table) {elem elem' : Ty}
    (h : Alike f.table f'.table elem elem') :
    Check.Spares (arrayOf elem) f (arrayOf elem') f' Alike := by
  obtain ⟨htables, harray⟩ := h.arrayOf ht
  exact ⟨⟨[], [], (List.append_nil _).symm, (List.append_nil _).symm, .slnil⟩,
    ⟨[], Check.Within.arrayOf elem f⟩, ⟨[], Check.Within.arrayOf elem' f'⟩, htables, harray⟩

/-- **What does not fit** after a type was lost did not fit before. -/
theorem spares_require (ht : Paired f.table f'.table) {expected expected' found found' : Ty}
    (hexpected : Fades f.table f'.table expected expected')
    (hfound : Fades f.table f'.table found found') (pos : Pos) :
    Check.Spares (require ctx expected found pos) f (require ctx expected' found' pos) f'
      AnyResults := by
  refine .reads rfl rfl
    (.unless_fault ht rfl rfl ((hfound.fits_or_alike ctx.classes hexpected).imp_right ?_) trivial)
  rintro ⟨hfound, hexpected⟩
  rw [hfound.text ht, hexpected.text ht, hfound.isSubtype ht ctx.classes hexpected]
  exact ⟨rfl, rfl⟩

/-- The arguments have the same positions, and types of which some may be lost. -/
def ArgsFade (t t' : TypeTable) : List (Option Pos × Ty) → List (Option Pos × Ty) → Prop :=
  List.Forall₂ fun arg arg' => arg'.1 = arg.1 ∧ Fades t t' arg.2 arg'.2

variable {ctx} in
theorem ArgsFade.mono {t t' u u' : TypeTable} (hle : t.elems <+: u.elems)
    (hle' : t'.elems <+: u'.elems) {args args' : List (Option Pos × Ty)}
    (h : ArgsFade t t' args args') : ArgsFade u u' args args' :=
  List.Forall₂.imp (fun _ _ h => ⟨h.1, h.2.mono hle hle'⟩) h

theorem ArgsFade.left {t t' : TypeTable} {args args' : List (Option Pos × Ty)}
    (h : ArgsFade t t' args args') : ArgsFade t t args args := by
  induction h with
  | nil => exact .nil
  | cons harg _ ih => exact .cons ⟨rfl, .alike harg.2.left⟩ ih

theorem spares_requireArgs (ht : Paired f.table f'.table) (here : Pos)
    {args args' : List (Option Pos × Ty)} (h : ArgsFade f.table f'.table args args')
    (params : List TypeExpr) :
    Check.Spares (requireArgs ctx here args params) f (requireArgs ctx here args' params) f'
      AnyResults := by
  induction args generalizing f f' args' params with
  | nil =>
    cases h
    exact .pure ht trivial
  | cons arg rest ih =>
    obtain ⟨pos, found⟩ := arg
    cases h with
    | @cons _ arg' _ rest' harg hrest =>
      obtain ⟨pos', found'⟩ := arg'
      obtain ⟨rfl, hfades⟩ := harg
      cases params with
      | nil => exact .pure ht trivial
      | cons param params =>
        refine (spares_resolveType ctx ht param).bind fun expected expected' g g' ht hg hg' h => ?_
        refine (spares_require ctx ht (.alike (.gracious h)) (hfades.mono hg.elems hg'.elems) _).bind
          fun _ _ k k' ht hk hk' _ => ?_
        exact ih ht (ArgsFade.mono (hg.trans hk).elems (hg'.trans hk').elems hrest) params

/-- **A call** whose arguments have lost types is no worse. -/
theorem spares_apply (ht : Paired f.table f'.table) (here : Pos) (callee : Callee)
    {args args' : List (Option Pos × Ty)} (h : ArgsFade f.table f'.table args args') :
    Check.Spares (apply ctx here callee args) f (apply ctx here callee args') f' Alike := by
  have hlength : args'.length = args.length := (List.Forall₂.length_eq h).symm
  unfold apply
  split
  · exact .pure ht .any
  · rw [hlength]
    split
    · exact (Check.Spares.report ht _ _).bind fun _ _ _ _ ht _ _ _ => spares_gracious ctx ht _
    · exact (spares_requireArgs ctx ht here h _).bind fun _ _ _ _ ht _ _ _ =>
        spares_gracious ctx ht _

variable {ctx} in
theorem Check.Spares.typed (m : Mark) (outer : Pos)
    {infer infer' : Pos → Check Ty}
    (h : Check.Spares (infer (m.pos.getD outer)) f (infer' (m.pos.getD outer)) f' Fades) :
    Check.Spares (typed m outer infer) f (typed m outer infer') f' Fades := by
  refine h.bind fun ty ty' g g' ht _ _ hty => ?_
  refine .quiet ht (.noteType _ _) (.noteType _ _) fun _ _ k k' hk hk' => ?_
  rw [← hk, ← hk'] at ht hty
  exact .pure ht hty

end Leaves

/-! ## Expressions -/

section Found

variable (ctx : Context) {f f' : Findings} {found found' : Ty}

section Reported

variable {post : TypeTable → TypeTable → Ty → Ty → Prop} {ty : Ty} (ht : Paired f.table f'.table)
variable (pos : Pos) (hty : ∀ t t', post t t' ty ty)
include ht hty

theorem spares_reported (fault : TypeFault) :
    Check.Spares (do report pos fault; return ty) f (do report pos fault; return ty) f' post :=
  (Check.Spares.report ht pos fault).bind fun _ _ _ _ ht _ _ _ => .pure ht (hty _ _)

/-- A fault that shows a type which was not lost. -/
theorem spares_reportShown (h : Alike f.table f'.table found found') (fault : String → TypeFault) :
    Check.Spares (do report pos (fault (← shown found)); return ty) f
      (do report pos (fault (← shown found')); return ty) f' post := by
  refine .reads rfl rfl ?_
  rw [h.text ht]
  exact spares_reported ht pos hty _

end Reported

/-- Nothing more is reported of what was lost. -/
theorem Check.Spares.faded {k k' : Ty → Check Ty} {ty : Ty}
    {post : TypeTable → TypeTable → Ty → Ty → Prop} (ht : Paired f.table f'.table)
    (h : Fades f.table f'.table found found') (hk' : k' .any = Pure.pure ty)
    (halike : Alike f.table f'.table found found' → Check.Spares (k found) f (k' found') f' post)
    (hself : Alike f.table f.table found found → Check.Spares (k found) f (k found) f post)
    (hpost : ∀ t u a, post t t a a → post t u a ty) :
    Check.Spares (k found) f (k' found') f' post := by
  cases h with
  | alike h => exact halike h
  | lost h =>
    rw [hk']
    exact (hself h).lost ht fun _ _ => hpost _ _ _

theorem spares_lengthFound (ht : Paired f.table f'.table) (h : Fades f.table f'.table found found')
    (pos : Pos) : Check.Spares (lengthFound pos found) f (lengthFound pos found') f'
      (Results .int) := by
  have halike {f f' : Findings} {found found' : Ty} (ht : Paired f.table f'.table)
      (h : Alike f.table f'.table found found') :
      Check.Spares (lengthFound pos found) f (lengthFound pos found') f' (Results .int) := by
    have hint (t t' : TypeTable) : Results .int t t' .int .int := ⟨rfl, rfl⟩
    have hreport := spares_reportShown ht pos hint h .notAnArray
    cases h with
    | any | array => exact .pure ht (hint _ _)
    | int | bool | null | class_ => exact hreport
  exact .faded ht h rfl (halike ht) (halike ⟨ht.left, ht.left, rfl⟩) fun _ _ _ h => ⟨h.1, rfl⟩

theorem spares_methodFound (ht : Paired f.table f'.table) (h : Fades f.table f'.table found found')
    (m : Mark) (here : Pos) (method : String) {args args' : List (Option Pos × Ty)}
    (hargs : ArgsFade f.table f'.table args args') :
    Check.Spares (methodFound ctx m here method args found) f
      (methodFound ctx m here method args' found') f' Fades := by
  have halike {f f' : Findings} {args args' : List (Option Pos × Ty)} {found found' : Ty}
      (ht : Paired f.table f'.table) (h : Alike f.table f'.table found found')
      (hargs : ArgsFade f.table f'.table args args') :
      Check.Spares (methodFound ctx m here method args found) f
        (methodFound ctx m here method args' found') f' Fades := by
    have hany (t t' : TypeTable) : Fades t t' .any .any := .alike .any
    have hreport := spares_reportShown ht here hany h (.noSuchMethod method)
    cases h with
    | any => exact .pure ht (hany _ _)
    | int | bool | null | array => exact spares_reported ht here hany .notAClassObject
    | class_ id =>
      rw [methodFound, methodFound]
      split
      · refine .quiet ht (.noteCall _ _) (.noteCall _ _) fun _ _ g g' hg hg' => ?_
        rw [← hg, ← hg'] at ht hargs
        exact (spares_apply ctx ht here _ hargs).mono fun _ _ _ _ => .alike
      · exact hreport
  exact .faded ht h rfl (halike ht · hargs) (halike ⟨ht.left, ht.left, rfl⟩ · hargs.left)
    fun _ _ _ h => .lost h.left

theorem spares_fieldFound (ht : Paired f.table f'.table) (h : Fades f.table f'.table found found')
    (m : Mark) (pos : Pos) (name : String) :
    Check.Spares (fieldFound ctx m pos name found) f (fieldFound ctx m pos name found') f' Fades := by
  have halike {f f' : Findings} {found found' : Ty} (ht : Paired f.table f'.table)
      (h : Alike f.table f'.table found found') :
      Check.Spares (fieldFound ctx m pos name found) f (fieldFound ctx m pos name found') f' Fades := by
    have hany (t t' : TypeTable) : Fades t t' .any .any := .alike .any
    have hreport := spares_reportShown ht pos hany h (.noSuchField name)
    cases h with
    | any => exact .pure ht (hany _ _)
    | int | bool | null | array => exact spares_reported ht pos hany .notAClassObject
    | class_ id =>
      rw [fieldFound]
      split
      · refine .quiet ht (.noteField _ _) (.noteField _ _) fun _ _ g g' hg hg' => ?_
        rw [← hg, ← hg'] at ht
        exact (spares_fieldType ctx ht _).mono fun _ _ _ _ => .alike
      · exact hreport
  exact .faded ht h rfl (halike ht) (halike ⟨ht.left, ht.left, rfl⟩) fun _ _ _ h => .lost h.left

theorem spares_indexFound (ht : Paired f.table f'.table) (h : Fades f.table f'.table found found')
    (here : Pos) : Check.Spares (indexFound here found) f (indexFound here found') f' Fades := by
  have halike {f f' : Findings} {found found' : Ty} (ht : Paired f.table f'.table)
      (h : Alike f.table f'.table found found') :
      Check.Spares (indexFound here found) f (indexFound here found') f' Fades := by
    have hany (t t' : TypeTable) : Fades t t' .any .any := .alike .any
    have hreport := spares_reportShown ht here hany h .indexNotArray
    cases h with
    | any => exact .pure ht (hany _ _)
    | int | bool | null | class_ => exact hreport
    | @array id id' elem elem' helem helem' h =>
      refine .reads rfl rfl (.pure ht (.alike ?_))
      rw [TypeTable.elem, TypeTable.elem, helem, helem']
      exact h
  exact .faded ht h rfl (halike ht) (halike ⟨ht.left, ht.left, rfl⟩) fun _ _ _ h => .lost h.left

end Found

section Expressions

variable (ctx : Context) {f f' : Findings} {scope scope' : Scope}

/-- **Operands** stay comparable. -/
theorem spares_comparableFound (ht : Paired f.table f'.table) {l l' r r' : Ty}
    (hl : Fades f.table f'.table l l') (hr : Fades f.table f'.table r r') (here : Pos) :
    Check.Spares (comparableFound ctx here l r) f (comparableFound ctx here l' r') f' Fades := by
  refine .reads rfl rfl (.reads rfl rfl (.unless_fault ht rfl rfl ?_ (.alike .bool)))
  rcases hl.fits_or_alike ctx.classes hr with hfits | ⟨hl, hr⟩
  · exact .inl (by rw [hfits, Bool.true_or])
  · right
    rw [hl.text ht, hr.text ht, hl.isSubtype ht ctx.classes hr, hr.isSubtype ht ctx.classes hl]
    exact ⟨rfl, rfl⟩

/-- An operand is checked. -/
theorem spares_unaryFound (ht : Paired f.table f'.table) (op : UnaryOp) {found found' : Ty}
    (hfound : Fades f.table f'.table found found') (pos : Pos) :
    Check.Spares (do require ctx (unaryType op) found pos; return unaryType op) f
      (do require ctx (unaryType op) found' pos; return unaryType op) f' Fades := by
  have hop (t t' : TypeTable) : Alike t t' (unaryType op) (unaryType op) := by
    cases op with
    | minus => exact .int
    | negate => exact .bool
  exact (spares_require ctx ht (.alike (hop _ _)) hfound pos).bind fun _ _ _ _ ht _ _ _ =>
    .pure ht (.alike (hop _ _))

section Operands

variable {op : BinaryOp} {operand result : Ty} (hop : binaryTypes? op = some (operand, result))
include hop

theorem alike_binaryTypes (t t' : TypeTable) :
    Alike t t' operand operand ∧ Alike t t' result result := by
  cases op with
  | plus | minus | times | div => cases hop; exact ⟨.int, .int⟩
  | less => cases hop; exact ⟨.int, .bool⟩
  | and => cases hop; exact ⟨.bool, .bool⟩
  | equals => cases hop

/-- The second operand is checked. -/
theorem spares_rhsFound (ht : Paired f.table f'.table) {r r' : Ty}
    (hr : Fades f.table f'.table r r') (pos : Pos) :
    Check.Spares (do require ctx operand r pos; return result) f
      (do require ctx operand r' pos; return result) f' Fades :=
  (spares_require ctx ht (.alike (alike_binaryTypes hop _ _).1) hr pos).bind
    fun _ _ _ _ ht _ _ _ => .pure ht (.alike (alike_binaryTypes hop _ _).2)

/-- The first operand is checked, and the second one is still to be. -/
theorem spares_lhsFound (ht : Paired f.table f'.table) {l l' : Ty}
    (hl : Fades f.table f'.table l l') (pos pos' : Pos) {rhs rhs' : Check Ty}
    (hrhs : ∀ g g', Paired g.table g'.table → f.Leads g → f'.Leads g' →
      Check.Spares rhs g rhs' g' Fades) :
    Check.Spares (do
        require ctx operand l pos
        let r ← rhs
        require ctx operand r pos'
        return result) f (do
        require ctx operand l' pos
        let r ← rhs'
        require ctx operand r pos'
        return result) f' Fades := by
  refine (spares_require ctx ht (.alike (alike_binaryTypes hop _ _).1) hl pos).bind
    fun _ _ g g' ht hg hg' _ => ?_
  exact (hrhs g g' ht hg hg').bind fun r r' _ _ ht _ _ hr => spares_rhsFound ctx hop ht hr pos'

end Operands

/-- The arguments of a call are checked. -/
theorem spares_callFound (ht : Paired f.table f'.table) (m : Mark) (here : Pos) (name : String)
    {args args' : List (Option Pos × Ty)} (h : ArgsFade f.table f'.table args args') :
    Check.Spares (callFound ctx m here name args) f (callFound ctx m here name args') f' Fades := by
  unfold callFound
  split
  next callee _ =>
    refine .quiet ht (.noteCall _ _) (.noteCall _ _) fun _ _ g g' hg hg' => ?_
    rw [← hg, ← hg'] at ht h
    exact (spares_apply ctx ht here callee h).mono fun _ _ _ _ => .alike
  next => exact spares_reported ht _ (fun _ _ => .alike .any) _

/-- The size of an array is checked. -/
theorem spares_sizeFound (ht : Paired f.table f'.table) {found found' : Ty}
    (hfound : Fades f.table f'.table found found') (pos here : Pos) (elem : TypeExpr) :
    Check.Spares (do
        require ctx .int found pos
        let elem ← resolveReported ctx elem .plain here
        arrayOf elem) f (do
        require ctx .int found' pos
        let elem ← resolveReported ctx elem .plain here
        arrayOf elem) f' Fades := by
  refine (spares_require ctx ht (.alike .int) hfound pos).bind fun _ _ _ _ ht _ _ _ => ?_
  refine (spares_resolveReported ctx ht elem .plain here).bind fun ty ty' _ _ ht _ _ hty => ?_
  exact (spares_arrayOf ht hty).mono fun _ _ _ _ => .alike

/-- The index into an array is checked. -/
theorem spares_indexChecked (ht : Paired f.table f'.table) {found found' i i' : Ty}
    (hfound : Fades f.table f'.table found found') (hi : Fades f.table f'.table i i')
    (pos here : Pos) :
    Check.Spares (do require ctx .int i pos; indexFound here found) f
      (do require ctx .int i' pos; indexFound here found') f' Fades :=
  (spares_require ctx ht (.alike .int) hi pos).bind fun _ _ _ _ ht hg hg' _ =>
    spares_indexFound ht (hfound.mono hg.elems hg'.elems) here

mutual

/-- **Checking an expression** where less is known reports no more. -/
theorem spares_checkExpr {f f' : Findings} (ht : Paired f.table f'.table)
    (hscope : Scope.Pairs f.table f'.table scope scope') (outer : Pos) : (e : Expr) →
    Check.Spares (checkExpr ctx scope outer e) f (checkExpr ctx scope' outer e) f' Fades
  | .int m _ => by
    rw [checkExpr, checkExpr]
    exact .typed m outer (.pure ht (.alike .int))
  | .bool m _ => by
    rw [checkExpr, checkExpr]
    exact .typed m outer (.pure ht (.alike .bool))
  | .null m => by
    rw [checkExpr, checkExpr]
    exact .typed m outer (.pure ht (.alike .null))
  | .this m => by
    rw [checkExpr, checkExpr]
    refine .typed m outer ?_
    dsimp only
    -- Without a class around it both runs report it; else it has the type that the scope says.
    split
    next hany =>
      rw [if_pos (hscope.this.eq_any_iff.1 hany)]
      exact (Check.Spares.report ht _ _).bind fun _ _ _ _ ht hg hg' _ =>
        .pure ht (.alike (hscope.this.mono hg.elems hg'.elems))
    next hany =>
      rw [if_neg fun hany' => hany (hscope.this.eq_any_iff.2 hany')]
      exact .pure ht (.alike hscope.this)
  | .read m place => by
    rw [checkExpr, checkExpr]
    exact .typed m outer (spares_checkPlace ht hscope _ place)
  | .arrayLength m array => by
    rw [checkExpr_arrayLength, checkExpr_arrayLength]
    refine .typed m outer ((spares_checkExpr ht hscope _ array).bind
      fun found found' g g' ht _ _ hfound => ?_)
    refine (spares_lengthFound ht hfound _).mono ?_
    rintro t t' _ _ ⟨rfl, rfl⟩
    exact .alike .int
  | .unary m op operand => by
    rw [checkExpr, checkExpr]
    exact .typed m outer ((spares_checkExpr ht hscope _ operand).bind
      fun found found' g g' ht _ _ hfound => spares_unaryFound ctx ht op hfound _)
  | .binary m op lhs rhs => by
    rw [checkExpr, checkExpr]
    refine .typed m outer ?_
    dsimp only
    split
    next operand result hop =>
      refine (spares_checkExpr ht hscope _ lhs).bind fun l l' g g' ht hg hg' hl => ?_
      exact spares_lhsFound ctx hop ht hl _ _ fun k k' ht hk hk' =>
        spares_checkExpr ht (hscope.mono (hg.trans hk).elems (hg'.trans hk').elems) _ rhs
    next =>
      refine (spares_checkExpr ht hscope _ lhs).bind fun l l' g g' ht hg hg' hl => ?_
      refine (spares_checkExpr ht (hscope.mono hg.elems hg'.elems) _ rhs).bind
        fun r r' k k' ht hk hk' hr => ?_
      exact spares_comparableFound ctx ht (hl.mono hk.elems hk'.elems) hr _
  | .call m name args => by
    rw [checkExpr_call, checkExpr_call]
    exact .typed m outer ((spares_checkArgs ht hscope _ args).bind
      fun tys tys' g g' ht _ _ htys => spares_callFound ctx ht m _ name htys)
  | .methodCall m receiver method args => by
    rw [checkExpr_methodCall, checkExpr_methodCall]
    refine .typed m outer ((spares_checkExpr ht hscope _ receiver).bind
      fun found found' g g' ht hg hg' hfound => ?_)
    refine (spares_checkArgs ht (hscope.mono hg.elems hg'.elems) _ args).bind
      fun tys tys' k k' ht hk hk' htys => ?_
    exact spares_methodFound ctx ht (hfound.mono hk.elems hk'.elems) m _ method htys
  | .newObject m name => by
    rw [checkExpr, checkExpr]
    refine .typed m outer ?_
    split
    next id _ => exact .pure ht (.alike (.class_ id))
    next => exact spares_reported ht _ (fun _ _ => .alike .any) _
  | .newArray m elem size => by
    rw [checkExpr, checkExpr]
    exact .typed m outer ((spares_checkExpr ht hscope _ size).bind
      fun found found' g g' ht _ _ hfound => spares_sizeFound ctx ht hfound _ _ elem)

/-- **Checking a place** where less is known reports no more. -/
theorem spares_checkPlace {f f' : Findings} (ht : Paired f.table f'.table)
    (hscope : Scope.Pairs f.table f'.table scope scope') (outer : Pos) : (place : Place) →
    Check.Spares (checkPlace ctx scope outer place) f (checkPlace ctx scope' outer place) f' Fades
  | .var m name => by
    rw [checkPlace, checkPlace]
    refine .typed m outer ?_
    obtain ⟨hvar, hvar'⟩ | ⟨info, info', hvar, hvar', hinfo⟩ := (hscope.lookup name).cases
    · rw [hvar, hvar']
      exact spares_reported ht _ (fun _ _ => .alike .any) _
    · rw [hvar, hvar']
      refine .quiet ht (.noteVar _ _) (.noteVar _ _) fun _ _ g g' hg hg' => ?_
      rw [← hg, ← hg'] at ht hinfo
      exact .pure ht (.alike hinfo)
  | .field m receiver name => by
    rw [checkPlace_field, checkPlace_field]
    exact .typed m outer ((spares_checkExpr ht hscope _ receiver).bind
      fun found found' g g' ht _ _ hfound => spares_fieldFound ctx ht hfound m _ name)
  | .index m array index => by
    rw [checkPlace_index, checkPlace_index]
    refine .typed m outer ((spares_checkExpr ht hscope _ array).bind
      fun found found' g g' ht hg hg' hfound => ?_)
    refine (spares_checkExpr ht (hscope.mono hg.elems hg'.elems) _ index).bind
      fun i i' k k' ht hk hk' hi => ?_
    exact spares_indexChecked ctx ht (hfound.mono hk.elems hk'.elems) hi _ _

theorem spares_checkArgs {f f' : Findings} (ht : Paired f.table f'.table)
    (hscope : Scope.Pairs f.table f'.table scope scope') (outer : Pos) : (args : List Expr) →
    Check.Spares (checkArgs ctx scope outer args) f (checkArgs ctx scope' outer args) f' ArgsFade
  | [] => .pure ht .nil
  | e :: rest => by
    rw [checkArgs, checkArgs]
    refine (spares_checkExpr ht hscope outer e).bind fun ty ty' g g' ht hg hg' hty => ?_
    refine (spares_checkArgs ht (hscope.mono hg.elems hg'.elems) outer rest).bind
      fun tys tys' k k' ht hk hk' htys => ?_
    exact .pure ht (.cons ⟨rfl, hty.mono hk.elems hk'.elems⟩ htys)

end

end Expressions

/-! ## Statements and declarations -/

section Statements

variable (ctx : Context) {f f' : Findings} {scope scope' : Scope}

theorem spares_conditionFound (ht : Paired f.table f'.table) {found found' : Ty}
    (hfound : Fades f.table f'.table found found') (pos : Pos) (of : ConditionOf) :
    Check.Spares (conditionFound ctx pos of found) f (conditionFound ctx pos of found') f'
      AnyResults := by
  refine .reads rfl rfl (.unless_fault ht rfl rfl
    ((hfound.fits_or_alike ctx.classes (.alike .bool)).imp_right ?_) trivial)
  rintro ⟨hfound, hbool⟩
  rw [hfound.text ht, hfound.isSubtype ht ctx.classes hbool]
  exact ⟨rfl, rfl⟩

theorem spares_checkCondition (ht : Paired f.table f'.table)
    (hscope : Scope.Pairs f.table f'.table scope scope') (outer : Pos) (of : ConditionOf)
    (cond : Expr) :
    Check.Spares (checkCondition ctx scope outer of cond) f
      (checkCondition ctx scope' outer of cond) f' AnyResults :=
  (spares_checkExpr ctx ht hscope outer cond).bind fun _ _ _ _ ht _ _ hfound =>
    spares_conditionFound ctx ht hfound _ of

theorem spares_valueFound (ht : Paired f.table f'.table)
    (hscope : Scope.Pairs f.table f'.table scope scope') {expected expected' found found' : Ty}
    (hexpected : Fades f.table f'.table expected expected')
    (hfound : Fades f.table f'.table found found') (pos : Pos)
    (fault : String → String → TypeFault) :
    Check.Spares (valueFound ctx scope pos fault expected found) f
      (valueFound ctx scope' pos fault expected' found') f' Scope.Pairs := by
  refine .reads rfl rfl (.unless_fault ht rfl rfl
    ((hfound.fits_or_alike ctx.classes hexpected).imp_right ?_) hscope)
  rintro ⟨hfound, hexpected⟩
  rw [hfound.text ht, hexpected.text ht, hfound.isSubtype ht ctx.classes hexpected]
  exact ⟨rfl, rfl⟩

theorem spares_declareVar (ht : Paired f.table f'.table)
    (hscope : Scope.Pairs f.table f'.table scope scope') (outer : Pos) (role : TypeRole)
    (taken : String → TypeFault) (var : VarDecl) :
    Check.Spares (declareVar ctx scope outer role taken var) f
      (declareVar ctx scope' outer role taken var) f' Scope.Pairs := by
  refine (spares_resolveReported ctx ht var.ty role _).bind fun ty ty' g g' ht hg hg' hty => ?_
  have hscope := hscope.mono hg.elems hg'.elems
  obtain ⟨hvar, hvar'⟩ | ⟨info, info', hvar, hvar', -⟩ := (hscope.var var.name).cases
  · rw [hvar, hvar']
    exact .pure ht (hscope.putVar var.name hty)
  · rw [hvar, hvar']
    exact (Check.Spares.report ht _ _).bind fun _ _ _ _ ht hk hk' _ =>
      .pure ht (hscope.mono hk.elems hk'.elems)

mutual

/-- **Checking a statement** where less is known reports no more. -/
theorem spares_checkStmt {f f' : Findings} {scope scope' : Scope} (ht : Paired f.table f'.table)
    (hscope : Scope.Pairs f.table f'.table scope scope') (outer : Pos) : (s : Stmt) →
    Check.Spares (checkStmt ctx scope outer s) f (checkStmt ctx scope' outer s) f' Scope.Pairs
  | .block pos (.mk stmts bodyPos) => by
    rw [checkStmt, checkStmt, checkBlock, checkBlock]
    exact (spares_checkStmts ht hscope.push _ stmts).bind fun _ _ _ _ ht hg hg' _ =>
      .pure ht (hscope.mono hg.elems hg'.elems)
  | .decl pos var => by
    rw [checkStmt, checkStmt]
    exact spares_declareVar ctx ht hscope _ .plain .duplicateVariable var
  | .assign pos target value => by
    rw [checkStmt_assign, checkStmt_assign]
    refine (spares_checkPlace ctx ht hscope _ target).bind fun expected expected' g g' ht hg hg'
      hexpected => ?_
    have hscope := hscope.mono hg.elems hg'.elems
    refine (spares_checkExpr ctx ht hscope _ value).bind fun found found' k k' ht hk hk' hfound => ?_
    exact spares_valueFound ctx ht (hscope.mono hk.elems hk'.elems) (hexpected.mono hk.elems hk'.elems)
      hfound _ .assignMismatch
  | .expr pos value => by
    rw [checkStmt, checkStmt]
    exact (spares_checkExpr ctx ht hscope _ value).bind fun _ _ _ _ ht hg hg' _ =>
      .pure ht (hscope.mono hg.elems hg'.elems)
  | .ifThen pos cond body => by
    rw [checkStmt, checkStmt]
    refine (spares_checkCondition ctx ht hscope _ .if_ cond).bind fun _ _ g g' ht hg hg' _ => ?_
    have hscope := hscope.mono hg.elems hg'.elems
    exact (spares_checkStmt ht hscope.push _ body).bind fun _ _ _ _ ht hk hk' _ =>
      .pure ht (hscope.mono hk.elems hk'.elems)
  | .ifElse pos cond yes no => by
    rw [checkStmt, checkStmt]
    refine (spares_checkCondition ctx ht hscope _ .if_ cond).bind fun _ _ g g' ht hg hg' _ => ?_
    have hscope := hscope.mono hg.elems hg'.elems
    refine (spares_checkStmt ht hscope.push _ yes).bind fun _ _ k k' ht hk hk' _ => ?_
    have hscope := hscope.mono hk.elems hk'.elems
    exact (spares_checkStmt ht hscope.push _ no).bind fun _ _ _ _ ht hl hl' _ =>
      .pure ht (hscope.mono hl.elems hl'.elems)
  | .loop pos cond body => by
    rw [checkStmt, checkStmt]
    refine (spares_checkCondition ctx ht hscope _ .while_ cond).bind fun _ _ g g' ht hg hg' _ => ?_
    have hscope := hscope.mono hg.elems hg'.elems
    exact (spares_checkStmt ht hscope.push _ body).bind fun _ _ _ _ ht hk hk' _ =>
      .pure ht (hscope.mono hk.elems hk'.elems)
  | .ret pos value => by
    rw [checkStmt_ret, checkStmt_ret]
    refine (spares_checkExpr ctx ht hscope _ value).bind fun found found' g g' ht hg hg' hfound => ?_
    have hscope := hscope.mono hg.elems hg'.elems
    exact spares_valueFound ctx ht hscope (.alike hscope.returns) hfound _ .returnMismatch

theorem spares_checkStmts {f f' : Findings} {scope scope' : Scope} (ht : Paired f.table f'.table)
    (hscope : Scope.Pairs f.table f'.table scope scope') (outer : Pos) : (stmts : List Stmt) →
    Check.Spares (checkStmts ctx scope outer stmts) f (checkStmts ctx scope' outer stmts) f'
      AnyResults
  | [] => .pure ht trivial
  | s :: rest => by
    rw [checkStmts, checkStmts]
    exact (spares_checkStmt ht hscope outer s).bind fun _ _ _ _ ht _ _ hbehind =>
      spares_checkStmts ht hbehind outer rest

end

theorem spares_declareParams (ht : Paired f.table f'.table)
    (hscope : Scope.Pairs f.table f'.table scope scope') (outer : Pos) (params : List VarDecl) :
    Check.Spares (declareParams ctx scope outer params) f (declareParams ctx scope' outer params) f'
      Scope.Pairs := by
  induction params generalizing f f' scope scope' with
  | nil => exact .pure ht hscope
  | cons param rest ih =>
    exact (spares_declareVar ctx ht hscope outer .parameter .duplicateParam param).bind
      fun _ _ _ _ ht _ _ hscope => ih ht hscope

theorem spares_checkFunction (ht : Paired f.table f'.table)
    (hscope : Scope.Pairs f.table f'.table scope scope') (outer : Pos) (g : FunctionDecl) :
    Check.Spares (checkFunction ctx scope outer g) f (checkFunction ctx scope' outer g) f'
      AnyResults := by
  refine (spares_resolveReported ctx ht g.returnType .return_ _).bind fun ty ty' _ _ ht hg hg' hty => ?_
  refine (spares_declareParams ctx ht ((hscope.mono hg.elems hg'.elems).setReturn hty) _ _).bind
    fun _ _ _ _ ht _ _ hscope => ?_
  cases g.body with
  | mk stmts pos =>
    rw [checkBlock, checkBlock]
    exact spares_checkStmts ctx ht hscope.push _ stmts

theorem spares_checkFunctions (ht : Paired f.table f'.table)
    (hscope : Scope.Pairs f.table f'.table scope scope') (outer : Pos) (gs : List FunctionDecl) :
    Check.Spares (checkFunctions ctx scope outer gs) f (checkFunctions ctx scope' outer gs) f'
      AnyResults := by
  induction gs generalizing f f' with
  | nil => exact .pure ht trivial
  | cons g rest ih =>
    exact (spares_checkFunction ctx ht hscope outer g).bind fun _ _ _ _ ht hg hg' _ =>
      ih ht (hscope.mono hg.elems hg'.elems)

theorem spares_declareFields (ht : Paired f.table f'.table)
    (hscope : Scope.Pairs f.table f'.table scope scope') (fields : Table String MemberRef) :
    Check.Spares (declareFields ctx scope fields) f (declareFields ctx scope' fields) f'
      Scope.Pairs := by
  induction fields generalizing f f' scope scope' with
  | nil => exact .pure ht hscope
  | cons field rest ih =>
    exact (spares_fieldType ctx ht field.2).bind fun _ _ _ _ ht hg hg' hty =>
      ih ht ((hscope.mono hg.elems hg'.elems).putField field.1 hty)

theorem spares_checkClass (ht : Paired f.table f'.table) (outer : Pos) (id : ClassId)
    (c : ClassDecl) :
    Check.Spares (checkClass ctx outer id c) f (checkClass ctx outer id c) f' AnyResults :=
  (spares_declareFields ctx ht (.empty (.class_ id)) _).bind fun _ _ _ _ ht _ _ hscope =>
    spares_checkFunctions ctx ht hscope.push _ c.methods

theorem spares_checkClasses (ht : Paired f.table f'.table) (outer : Pos)
    (classes : List (ClassDecl × Nat)) :
    Check.Spares (checkClasses ctx outer classes) f (checkClasses ctx outer classes) f'
      AnyResults := by
  induction classes generalizing f f' with
  | nil => exact .pure ht trivial
  | cons c rest ih =>
    exact (spares_checkClass ctx ht outer c.2 c.1).bind fun _ _ _ _ ht _ _ _ => ih ht

end Statements

end ClassLang.Typing
