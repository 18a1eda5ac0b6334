import ClassLang.Proofs.Typing.Notes
/-!
# Typing — checking leaves notes

An expression that has a type is noted when it was checked
(`noted_checkExpr`), and so are places, statements and functions. All
nodes of a program have identities of their own, so no later check
overwrites a note, and the analysis of a program without errors holds the
notes of all its bodies (`noted_analyze`).
-/


namespace ClassLang.Typing

open Source (NodeId TypeExpr Mark BinaryOp Expr Place Stmt Block VarDecl FunctionDecl ClassDecl Program)

section Steps

variable {p : Program} {printName : String} {names : Names} {f : Findings} {nodes : List NodeId}
variable {α β : Type} {x : Check α} {k : α → Check β}

theorem Check.run_bind (x : Check α) (k : α → Check β) (f : Findings) :
    (x >>= k).run f = (k (x.run f).1).run (x.run f).2 := rfl

/-- A check that decides something starts the next one without errors. -/
theorem Decides.clean {ok : Prop} {post : α → TypeTable → Prop} (h : Decides p x f ok post)
    (hok : ok) : Clean p (x.run f).2 := ⟨h.iff.2 hok, (h.post hok).2.1⟩

/-- The next check starts without errors, and the types that were interned stay. -/
theorem Decides.onward {ok : Prop} {post : α → TypeTable → Prop} (h : Decides p x f ok post)
    (hok : ok) : Clean p (x.run f).2 ∧ f.table.elems <+: (x.run f).2.table.elems :=
  ⟨h.clean hok, (h.post hok).1⟩

theorem ExprNoted.before {e : Expr} {τ : ExprTy} (h : ExprNoted p printName (x.run f).2 names e τ)
    (hk : ∀ a, Check.Within nodes (k a)) (hoff : ∀ id ∈ e.nodes, id ∉ nodes) :
    ExprNoted p printName ((x >>= k).run f).2 names e τ :=
  h.mono (hk _ _) e hoff

theorem ExprNoted.behind {e : Expr} {τ : ExprTy}
    (h : ExprNoted p printName ((k (x.run f).1).run (x.run f).2).2 names e τ) :
    ExprNoted p printName ((x >>= k).run f).2 names e τ := h

theorem PlaceNoted.before {place : Place} {ty : TypeExpr}
    (h : PlaceNoted p printName (x.run f).2 names place ty)
    (hk : ∀ a, Check.Within nodes (k a)) (hoff : ∀ id ∈ place.nodes, id ∉ nodes) :
    PlaceNoted p printName ((x >>= k).run f).2 names place ty :=
  h.mono (hk _ _) place hoff

variable {m : Mark} {outer : Pos} {infer : Pos → Check Ty}

/-- Typing a node notes its type last. -/
theorem grows_typed : Findings.Grows [m.id] ((infer (m.pos.getD outer)).run f).2
    ((typed m outer infer).run f).2 :=
  (Check.Within.noteType (List.mem_singleton.2 rfl) _ : Check.Within [m.id] _) _

theorem ExprNoted.typed {e : Expr} {τ : ExprTy}
    (h : ExprNoted p printName ((infer (m.pos.getD outer)).run f).2 names e τ)
    (hm : m.id ∉ e.nodes) : ExprNoted p printName ((typed m outer infer).run f).2 names e τ :=
  h.mono grows_typed e fun _ hid heq => hm (List.mem_singleton.1 heq ▸ hid)

theorem PlaceNoted.typed {place : Place} {ty : TypeExpr}
    (h : PlaceNoted p printName ((infer (m.pos.getD outer)).run f).2 names place ty)
    (hm : m.id ∉ place.nodes) :
    PlaceNoted p printName ((typed m outer infer).run f).2 names place ty :=
  h.mono grows_typed place fun _ hid heq => hm (List.mem_singleton.1 heq ▸ hid)

theorem types_typed : ((typed m outer infer).run f).2.types.get? m.id =
    some ((typed m outer infer).run f).1 :=
  Table.get?_insert_self _ _ _

/-- The type of an expression is noted. -/
theorem types_checkExpr (ctx : Context) (scope : Scope) (outer : Pos) (e : Expr) (f : Findings) :
    ((checkExpr ctx scope outer e).run f).2.types.get? e.id =
      some ((checkExpr ctx scope outer e).run f).1 := by
  cases e <;> (rw [checkExpr]; exact types_typed)

end Steps

/-! ## Expressions -/

section Expressions

variable {ctx : Context} {printName : String} {names : Names} {scope : Scope}

theorem typeNoted_checkExpr (hctx : ctx.Sound printName) {f : Findings} (hf : Clean ctx.program f)
    (hscope : ScopeOk ctx.program f.table names scope) (outer : Pos) {e : Expr} {τ : ExprTy}
    (h : HasType ctx.program printName names e τ) :
    TypeNoted ctx.program ((checkExpr ctx scope outer e).run f).2 e.id τ :=
  ⟨_, types_checkExpr ctx scope outer e f,
    ((decides_checkExpr hctx hf hscope outer e).post ⟨τ, h⟩).2.2 τ h⟩

/-- Behind an operand of a base type nothing was reported. -/
theorem onward_operand (hctx : ctx.Sound printName) {f : Findings} (hf : Clean ctx.program f)
    (hscope : ScopeOk ctx.program f.table names scope) (outer pos : Pos) {e : Expr} {base : Ty}
    {written : TypeExpr}
    (hbase : ∀ {sub}, Fits ctx.program sub (.written written) ↔ sub = .written written)
    (hd : ∀ {t}, Denotes ctx.program t base written)
    (h : HasType ctx.program printName names e (.written written)) {f' : Findings}
    (hf' : f' = ((do
        let found ← checkExpr ctx scope outer e
        require ctx base found pos : Check Unit).run f).2) :
    Clean ctx.program f' ∧ f.table.elems <+: f'.table.elems := by
  have hall : Decides ctx.program (do
      let found ← checkExpr ctx scope outer e
      require ctx base found pos) f _ fun _ _ => True :=
    (decides_checkExpr hctx hf hscope outer e).bind (fun _ => .require ctx _ _ _)
      fun hok _ _ hf₁ _ hpost => decides_operand hctx hf₁ pos hbase hd hok hpost
  exact hf' ▸ hall.onward ⟨⟨_, h⟩, h⟩

/-- **Two operands of a base type** are noted. -/
theorem noted_operands (hctx : ctx.Sound printName) {f : Findings} (hf : Clean ctx.program f)
    (hscope : ScopeOk ctx.program f.table names scope) (outer : Pos) {m : Mark} {op : BinaryOp}
    {lhs rhs : Expr} {operand result : Ty} {base : TypeExpr}
    (hop : binaryTypes? op = some (operand, result))
    (hbase : ∀ {sub}, Fits ctx.program sub (.written base) ↔ sub = .written base)
    (hd : ∀ {t}, Denotes ctx.program t operand base)
    (hnodup : (Expr.binary m op lhs rhs).nodes.Nodup)
    (hl : HasType ctx.program printName names lhs (.written base))
    (hlhs : ExprNoted ctx.program printName
      ((checkExpr ctx scope (m.pos.getD outer) lhs).run f).2 names lhs (.written base))
    (hrhs : ∀ f', Clean ctx.program f' → ScopeOk ctx.program f'.table names scope →
      ExprNoted ctx.program printName ((checkExpr ctx scope (m.pos.getD outer) rhs).run f').2
        names rhs (.written base)) :
    ExprNoted ctx.program printName ((checkExpr ctx scope outer (.binary m op lhs rhs)).run f).2
        names lhs (.written base) ∧
      ExprNoted ctx.program printName ((checkExpr ctx scope outer (.binary m op lhs rhs)).run f).2
        names rhs (.written base) := by
  rw [Expr.nodes, List.nodup_cons, List.nodup_append', List.mem_append, not_or] at hnodup
  obtain ⟨⟨hml, hmr⟩, -, -, hdisj⟩ := hnodup
  obtain ⟨hclean, hle⟩ := onward_operand hctx hf hscope (m.pos.getD outer)
    (lhs.mark.pos.getD (m.pos.getD outer)) hbase hd hl rfl
  rw [checkExpr_operands ctx hop]
  refine ⟨.typed (hlhs.before (fun l => (?_ : Check.Within rhs.nodes _)) hdisj) hml,
    .typed (.behind (.behind ((hrhs _ hclean (hscope.mono hle)).before
      (fun r => (?_ : Check.Within [] _)) (by simp)))) hmr⟩
  · exact .bind (.require ctx _ _ _) fun _ => .bind (.checkExpr ctx _ _ _) fun _ =>
      .bind (.require ctx _ _ _) fun _ => .pure _
  · exact .bind (.require ctx _ _ _) fun _ => .pure _

/-- **Two operands that are compared** are noted. -/
theorem noted_equals (hctx : ctx.Sound printName) {f : Findings} (hf : Clean ctx.program f)
    (hscope : ScopeOk ctx.program f.table names scope) (outer : Pos) {m : Mark} {lhs rhs : Expr}
    {left right : ExprTy} (hnodup : (Expr.binary m .equals lhs rhs).nodes.Nodup)
    (hl : HasType ctx.program printName names lhs left)
    (hlhs : ExprNoted ctx.program printName
      ((checkExpr ctx scope (m.pos.getD outer) lhs).run f).2 names lhs left)
    (hrhs : ∀ f', Clean ctx.program f' → ScopeOk ctx.program f'.table names scope →
      ExprNoted ctx.program printName ((checkExpr ctx scope (m.pos.getD outer) rhs).run f').2
        names rhs right) :
    ExprNoted ctx.program printName
        ((checkExpr ctx scope outer (.binary m .equals lhs rhs)).run f).2 names lhs left ∧
      ExprNoted ctx.program printName
        ((checkExpr ctx scope outer (.binary m .equals lhs rhs)).run f).2 names rhs right := by
  rw [Expr.nodes, List.nodup_cons, List.nodup_append', List.mem_append, not_or] at hnodup
  obtain ⟨⟨hml, hmr⟩, -, -, hdisj⟩ := hnodup
  obtain ⟨hclean, hle⟩ := (decides_checkExpr hctx hf hscope (m.pos.getD outer) lhs).onward ⟨_, hl⟩
  rw [checkExpr_equals]
  exact ⟨.typed (hlhs.before (fun _ => .bind (.checkExpr ctx _ _ _) fun _ =>
      .comparableFound ctx _ _ _) hdisj) hml,
    .typed (.behind ((hrhs _ hclean (hscope.mono hle)).before (fun _ =>
      (.comparableFound ctx _ _ _ : Check.Within [] _)) (by simp))) hmr⟩

theorem found_class (hctx : ctx.Sound printName) {f : Findings} (hf : Clean ctx.program f)
    (hscope : ScopeOk ctx.program f.table names scope) (outer : Pos) {e : Expr} {class_ : String}
    {id : ClassId} (hid : ctx.program.classId? class_ = some id)
    (h : HasType ctx.program printName names e (.written (.class_ class_))) :
    ((checkExpr ctx scope outer e).run f).1 = .class_ id := by
  have hd := ((decides_checkExpr hctx hf hscope outer e).post ⟨_, h⟩).2.2 _ h
  generalize ((checkExpr ctx scope outer e).run f).1 = found at hd
  cases hd with
  | written hd =>
    cases hd with
    | class_ hid' => rw [Option.some.inj (hid.symm.trans hid')]

/-- Where typing a node ends with `last`, its notes are those of `last` and the type. -/
theorem noted_part {m : Mark} {outer : Pos} {infer : Pos → Check Ty} {last : Check Ty}
    {f f₁ : Findings} (hlast : Check.Within [m.id] last)
    (hinfer : (infer (m.pos.getD outer)).run f = last.run f₁) :
    Findings.Grows [m.id] f₁ ((typed m outer infer).run f).2 ∧
      ∃ types, ((typed m outer infer).run f).2 = { (last.run f₁).2 with types := types } := by
  refine ⟨(hinfer ▸ hlast f₁ : Findings.Grows [m.id] f₁ _).trans grows_typed, ?_⟩
  rw [← hinfer]
  exact ⟨_, rfl⟩

theorem calls_apply (ctx : Context) (here : Pos) (m : Mark) (callee : Callee)
    (found : List (Option Pos × Ty)) (f : Findings) :
    Check.Within [m.id] (do noteCall m.id callee; apply ctx here callee found) ∧
    ((do noteCall m.id callee; apply ctx here callee found : Check Ty).run f).2.calls.get? m.id =
      some callee := by
  refine ⟨.bind (.noteCall (List.mem_singleton.2 rfl) _) fun _ => .apply ctx _ _ _, ?_⟩
  have hkept := (Check.Within.apply ctx here callee found : Check.Within [] _)
    { f with calls := f.calls.insert m.id callee }
  exact (hkept.calls m.id (by simp)).trans (Table.get?_insert_self _ _ _)

theorem noted_call (scope : Scope) (outer : Pos) (f : Findings) (m : Mark) (args : List Expr)
    {name : String} {callee : Callee} (hlookup : ctx.functions.lookup name = some callee) :
    Findings.Grows [m.id] ((checkArgs ctx scope (m.pos.getD outer) args).run f).2
        ((checkExpr ctx scope outer (.call m name args)).run f).2 ∧
      ((checkExpr ctx scope outer (.call m name args)).run f).2.calls.get? m.id = some callee := by
  rw [checkExpr]
  obtain ⟨hwithin, hcalls⟩ := calls_apply ctx (m.pos.getD outer) m callee
    ((checkArgs ctx scope (m.pos.getD outer) args).run f).1
    ((checkArgs ctx scope (m.pos.getD outer) args).run f).2
  refine And.imp_right (fun ⟨_, h⟩ => h ▸ hcalls) (noted_part hwithin ?_)
  simp only [hlookup]
  rfl

theorem noted_methodCall (outer : Pos) {f : Findings} {m : Mark} {receiver : Expr}
    {method : String} (args : List Expr) {id : ClassId} {ref : MemberRef}
    (hfound : ((checkExpr ctx scope (m.pos.getD outer) receiver).run f).1 = .class_ id)
    (href : (ctx.classes.info id).bind (·.method? method) = some ref) :
    Findings.Grows [m.id] ((checkArgs ctx scope (m.pos.getD outer) args).run
          ((checkExpr ctx scope (m.pos.getD outer) receiver).run f).2).2
        ((checkExpr ctx scope outer (.methodCall m receiver method args)).run f).2 ∧
      ((checkExpr ctx scope outer (.methodCall m receiver method args)).run f).2.calls.get? m.id =
        some (.method ref) := by
  rw [checkExpr]
  obtain ⟨hwithin, hcalls⟩ := calls_apply ctx (m.pos.getD outer) m (.method ref)
    ((checkArgs ctx scope (m.pos.getD outer) args).run
      ((checkExpr ctx scope (m.pos.getD outer) receiver).run f).2).1
    ((checkArgs ctx scope (m.pos.getD outer) args).run
      ((checkExpr ctx scope (m.pos.getD outer) receiver).run f).2).2
  refine And.imp_right (fun ⟨_, h⟩ => h ▸ hcalls) (noted_part hwithin ?_)
  rw [Check.run_bind, hfound]
  simp only [href]
  rfl

theorem noted_field (outer : Pos) {f : Findings} {m : Mark} {receiver : Expr} (name : String)
    {id : ClassId} {ref : MemberRef}
    (hfound : ((checkExpr ctx scope (m.pos.getD outer) receiver).run f).1 = .class_ id)
    (href : (ctx.classes.info id).bind (·.field? name) = some ref) :
    Findings.Grows [m.id] ((checkExpr ctx scope (m.pos.getD outer) receiver).run f).2
        ((checkPlace ctx scope outer (.field m receiver name)).run f).2 ∧
      ((checkPlace ctx scope outer (.field m receiver name)).run f).2.fields.get? m.id =
        some ref := by
  have hfield : Check.Within [m.id] (do noteField m.id ref; fieldType ctx ref) :=
    .bind (.noteField (List.mem_singleton.2 rfl) _) fun _ => .fieldType ctx _
  rw [checkPlace]
  have hkept := (Check.Within.fieldType ctx ref : Check.Within [] _)
    { ((checkExpr ctx scope (m.pos.getD outer) receiver).run f).2 with
      fields := ((checkExpr ctx scope (m.pos.getD outer) receiver).run f).2.fields.insert m.id ref }
  have hnoted := (hkept.fields m.id (by simp)).trans (Table.get?_insert_self _ _ _)
  refine And.imp_right (fun ⟨_, h⟩ => h ▸ hnoted) (noted_part hfield ?_)
  rw [Check.run_bind, hfound]
  simp only [href]

/-- A bare name is noted. -/
theorem noted_var {m : Mark} {name : String} (info : VarInfo) (outer : Pos) (f : Findings)
    (hlookup : scope.lookup name = some info) :
    ((checkPlace ctx scope outer (.var m name)).run f).2.vars.get? m.id = some info.decl := by
  rw [checkPlace]
  simp only [hlookup]
  exact Table.get?_insert_self _ _ _

/-- **A call** is noted, and what it calls. -/
theorem exprNoted_call (hctx : ctx.Sound printName) (outer : Pos) (f : Findings) {m : Mark}
    {name : String} {args : List Expr} {τ : ExprTy} (hm : m.id ∉ Source.argNodes args)
    (hargs : ∀ tys, ArgsFit ctx.program printName names args tys →
      ArgsNoted ctx.program printName
        ((checkArgs ctx scope (m.pos.getD outer) args).run f).2 names args tys)
    (h : HasType ctx.program printName names (.call m name args) τ) :
    ExprNoted ctx.program printName ((checkExpr ctx scope outer (.call m name args)).run f).2
      names (.call m name args) τ := by
  have hoff : ∀ id ∈ Source.argNodes args, id ∉ [m.id] := fun id hid heq =>
    hm (List.mem_singleton.1 heq ▸ hid)
  cases h with
  | print h =>
    obtain ⟨hgrows, hcall⟩ := noted_call scope outer f m args hctx.print
    have hnoted := (hargs _ h).mono hgrows args hoff
    cases hnoted with
    | cons harg hfits hnil =>
      cases hnil
      rw [fits_int_iff.1 hfits] at harg
      exact .print hcall harg
  | @call _ _ _ g hg h =>
    have hname : name ≠ printName := fun heq =>
      hctx.notPrint g (List.mem_of_find?_eq_some hg) <| by
        simpa [heq] using List.find?_some hg
    rw [Program.function?_eq] at hg
    obtain ⟨index, hindex, hg⟩ := Option.bind_eq_some_iff.1 hg
    obtain ⟨hgrows, hcall⟩ := noted_call scope outer f m args
      (show ctx.functions.lookup name = some (.function index) by
        rw [hctx.function name hname, hindex, Option.map_some])
    exact .call hname hcall hindex hg ((hargs _ h).mono hgrows args hoff)

/-- **A method call** is noted, its receiver and the method that it names. -/
theorem exprNoted_methodCall (hctx : ctx.Sound printName) {f : Findings}
    (hf : Clean ctx.program f) (hscope : ScopeOk ctx.program f.table names scope) (outer : Pos)
    {m : Mark} {receiver : Expr} {method : String} {args : List Expr} {τ : ExprTy}
    (hnodup : (Expr.methodCall m receiver method args).nodes.Nodup)
    (hreceiver : ∀ σ, HasType ctx.program printName names receiver σ →
      ExprNoted ctx.program printName
        ((checkExpr ctx scope (m.pos.getD outer) receiver).run f).2 names receiver σ)
    (hargs : ∀ f', Clean ctx.program f' → ScopeOk ctx.program f'.table names scope →
      ∀ tys, ArgsFit ctx.program printName names args tys → ArgsNoted ctx.program printName
        ((checkArgs ctx scope (m.pos.getD outer) args).run f').2 names args tys)
    (h : HasType ctx.program printName names (.methodCall m receiver method args) τ) :
    ExprNoted ctx.program printName
      ((checkExpr ctx scope outer (.methodCall m receiver method args)).run f).2 names
      (.methodCall m receiver method args) τ := by
  rw [Expr.nodes, List.nodup_cons, List.nodup_append', List.mem_append, not_or] at hnodup
  obtain ⟨⟨hmr, hma⟩, -, -, hdisj⟩ := hnodup
  have hoff {ids : List NodeId} (hm : m.id ∉ ids) : ∀ id ∈ ids, id ∉ [m.id] :=
    fun id hid heq => hm (List.mem_singleton.1 heq ▸ hid)
  cases h with
  | methodCall hty hmethod hfit =>
    obtain ⟨ref, hvisible, hg⟩ := Option.bind_eq_some_iff.1 hmethod
    obtain ⟨id, hid, href⟩ := Option.bind_eq_some_iff.1 hvisible
    obtain ⟨hclean, hle⟩ :=
      (decides_checkExpr hctx hf hscope (m.pos.getD outer) receiver).onward ⟨_, hty⟩
    obtain ⟨hgrows, hcall⟩ := noted_methodCall outer args
      (found_class hctx hf hscope (m.pos.getD outer) hid hty)
      (show (ctx.classes.info id).bind (·.method? method) = some ref by
        rw [hctx.classes.method, href])
    have hgrowsArgs := Check.Within.checkArgs ctx scope (m.pos.getD outer) args
      ((checkExpr ctx scope (m.pos.getD outer) receiver).run f).2
    have htype := typeNoted_checkExpr hctx hf hscope (m.pos.getD outer) hty
    have hmem := receiver.id_mem_nodes
    exact .methodCall
      (((hreceiver _ hty).mono hgrowsArgs receiver hdisj).mono hgrows receiver (hoff hmr))
      ((htype.mono hgrowsArgs (hdisj hmem)).mono hgrows (hoff hmr _ hmem)) hcall hid href hg
      ((hargs _ hclean (hscope.mono hle) _ hfit).mono hgrows args (hoff hma))

mutual

/-- **A typed expression is noted when it was checked.** -/
theorem noted_checkExpr (hctx : ctx.Sound printName) {f : Findings} (hf : Clean ctx.program f)
    (hscope : ScopeOk ctx.program f.table names scope) (outer : Pos) : (e : Expr) → {τ : ExprTy} →
    e.nodes.Nodup → HasType ctx.program printName names e τ →
    ExprNoted ctx.program printName ((checkExpr ctx scope outer e).run f).2 names e τ
  | .int _ _, _, _, h => by cases h; exact .int
  | .bool _ _, _, _, h => by cases h; exact .bool
  | .null _, _, _, h => by cases h; exact .null
  | .this _, _, _, h => by cases h with | this h => exact .this h
  | .read m place, _, hnodup, h => by
    rw [Expr.nodes, List.nodup_cons] at hnodup
    cases h with
    | read h =>
      rw [checkExpr]
      exact .read ((noted_checkPlace hctx hf hscope (m.pos.getD outer) place hnodup.2 h).typed
        hnodup.1)
  | .arrayLength m array, _, hnodup, h => by
    rw [Expr.nodes, List.nodup_cons] at hnodup
    cases h with
    | arrayLength h =>
      have hnoted := noted_checkExpr hctx hf hscope (m.pos.getD outer) array hnodup.2 h
      rw [checkExpr_arrayLength]
      exact .arrayLength ((hnoted.before (fun _ => (.lengthFound _ _ : Check.Within [] _))
        (by simp)).typed hnodup.1)
  | .unary m op operand, _, hnodup, h => by
    rw [Expr.nodes, List.nodup_cons] at hnodup
    -- Both operators note alike: only the type that is required differs.
    have hnoted {τ : ExprTy} (h : HasType ctx.program printName names operand τ) :
        ExprNoted ctx.program printName ((checkExpr ctx scope outer (.unary m op operand)).run f).2
          names operand τ := by
      rw [checkExpr]
      refine ((noted_checkExpr hctx hf hscope (m.pos.getD outer) operand hnodup.2 h).before
        (fun found => (?_ : Check.Within [] _)) (by simp)).typed hnodup.1
      exact .bind (.require ctx _ _ _) fun _ => .pure _
    cases h with
    | minus h => exact .minus (hnoted h)
    | negate h => exact .negate (hnoted h)
  | .binary m op lhs rhs, _, hnodup, h => by
    have hparts := hnodup
    rw [Expr.nodes, List.nodup_cons, List.nodup_append'] at hparts
    obtain ⟨-, hl, hr, -⟩ := hparts
    have hlhs {τ : ExprTy} (h : HasType ctx.program printName names lhs τ) :=
      noted_checkExpr hctx hf hscope (m.pos.getD outer) lhs hl h
    -- The right operand is checked with what the left one left behind, so for all findings.
    have hrhs {τ : ExprTy} (h : HasType ctx.program printName names rhs τ) (f' : Findings)
        (hf' : Clean ctx.program f') (hscope' : ScopeOk ctx.program f'.table names scope) :=
      noted_checkExpr hctx hf' hscope' (m.pos.getD outer) rhs hr h
    cases h with
    | arithmetic hop h h' =>
      have htypes : binaryTypes? op = some (.int, .int) := by
        rcases hop with rfl | rfl | rfl | rfl <;> rfl
      have hnoted := noted_operands hctx hf hscope outer htypes fits_int_iff .int hnodup h (hlhs h)
        (hrhs h')
      exact .arithmetic hop hnoted.1 hnoted.2
    | less h h' =>
      have hnoted := noted_operands hctx hf hscope outer rfl fits_int_iff .int hnodup h (hlhs h)
        (hrhs h')
      exact .less hnoted.1 hnoted.2
    | and h h' =>
      have hnoted := noted_operands hctx hf hscope outer rfl fits_bool_iff .bool hnodup h (hlhs h)
        (hrhs h')
      exact .and hnoted.1 hnoted.2
    | equals h h' hfits =>
      have hnoted := noted_equals hctx hf hscope outer hnodup h (hlhs h) (hrhs h')
      exact .equals hnoted.1 hnoted.2 hfits
  | .call m name args, _, hnodup, h => by
    rw [Expr.nodes, List.nodup_cons] at hnodup
    exact exprNoted_call hctx outer f hnodup.1
      (fun _ => noted_checkArgs hctx hf hscope (m.pos.getD outer) args hnodup.2) h
  | .methodCall m receiver method args, _, hnodup, h => by
    have hparts := hnodup
    rw [Expr.nodes, List.nodup_cons, List.nodup_append'] at hparts
    obtain ⟨-, hr, ha, -⟩ := hparts
    exact exprNoted_methodCall hctx hf hscope outer hnodup
      (fun _ => noted_checkExpr hctx hf hscope (m.pos.getD outer) receiver hr)
      (fun _ hf' hscope' _ => noted_checkArgs hctx hf' hscope' (m.pos.getD outer) args ha) h
  | .newObject m class_, _, _, h => by
    cases h with
    | newObject h =>
      obtain ⟨id, hid⟩ := Option.isSome_iff_exists.1 h
      exact .newObject hid
  | .newArray m elem size, _, hnodup, h => by
    rw [Expr.nodes, List.nodup_cons] at hnodup
    cases h with
    | newArray helem hsize =>
      have hnoted := noted_checkExpr hctx hf hscope (m.pos.getD outer) size hnodup.2 hsize
      refine .newArray (typeNoted_checkExpr hctx hf hscope outer (.newArray helem hsize)) ?_
      rw [checkExpr]
      refine (hnoted.before (fun found => (?_ : Check.Within [] _)) (by simp)).typed hnodup.1
      exact .bind (.require ctx _ _ _) fun _ => .bind (.resolveReported ctx _ _ _) fun _ =>
        .arrayOf _

theorem noted_checkPlace (hctx : ctx.Sound printName) {f : Findings} (hf : Clean ctx.program f)
    (hscope : ScopeOk ctx.program f.table names scope) (outer : Pos) : (place : Place) →
    {ty : TypeExpr} → place.nodes.Nodup → PlaceType ctx.program printName names place ty →
    PlaceNoted ctx.program printName ((checkPlace ctx scope outer place).run f).2 names place ty
  | .var m name, _, _, h => by
    cases h with
    | variable_ hvar =>
      obtain ⟨ty, hlookup, -⟩ := hscope.var name _ hvar
      exact .variable_ hvar (noted_var ⟨ty, _⟩ outer f (by simp [Scope.lookup, hlookup]))
    | ownField hvar hthis hfield =>
      obtain ⟨ref, hvisible, hfield⟩ := Option.bind_eq_some_iff.1 hfield
      obtain ⟨id, hid, href⟩ := Option.bind_eq_some_iff.1 hvisible
      obtain ⟨id', hid', -, -, hsome⟩ := hscope.this _ hthis
      obtain rfl := Option.some.inj (hid.symm.trans hid')
      obtain ⟨_, ty, -, hlookup, -⟩ := hsome name ref href
      refine .ownField hvar hthis hid href hfield (noted_var ⟨ty, .field ref⟩ outer f ?_)
      simp [Scope.lookup, hscope.noVar name hvar, hlookup]
  | .field m receiver name, _, hnodup, h => by
    rw [Place.nodes, List.nodup_cons] at hnodup
    cases h with
    | field hreceiver hfield =>
      obtain ⟨ref, hvisible, hfield⟩ := Option.bind_eq_some_iff.1 hfield
      obtain ⟨id, hid, href⟩ := Option.bind_eq_some_iff.1 hvisible
      obtain ⟨hgrows, hnoted⟩ := noted_field outer name
        (found_class hctx hf hscope (m.pos.getD outer) hid hreceiver)
        (show (ctx.classes.info id).bind (·.field? name) = some ref by
          rw [hctx.classes.field, href])
      refine .field ((noted_checkExpr hctx hf hscope _ receiver hnodup.2 hreceiver).mono hgrows
        receiver fun id hid heq => ?_) hid href hfield hnoted
      exact hnodup.1 (List.mem_singleton.1 heq ▸ hid)
  | .index m array index, _, hnodup, h => by
    rw [Place.nodes, List.nodup_cons, List.nodup_append', List.mem_append, not_or] at hnodup
    obtain ⟨⟨hma, hmi⟩, ha, hi, hdisj⟩ := hnodup
    cases h with
    | index harray hindex =>
      obtain ⟨hclean, hle⟩ :=
        (decides_checkExpr hctx hf hscope (m.pos.getD outer) array).onward ⟨_, harray⟩
      rw [checkPlace_index]
      refine .index (.typed (.before (noted_checkExpr hctx hf hscope _ array ha harray)
          (fun found => (?_ : Check.Within index.nodes _)) hdisj) hma)
        (.typed (.behind (.before (noted_checkExpr hctx hclean (hscope.mono hle) _ index hi hindex)
          (fun i => (?_ : Check.Within [] _)) (by simp))) hmi)
      · exact .bind (.checkExpr ctx _ _ _) fun _ => .bind (.require ctx _ _ _) fun _ =>
          .indexFound _ _
      · exact .bind (.require ctx _ _ _) fun _ => .indexFound _ _

theorem noted_checkArgs (hctx : ctx.Sound printName) {f : Findings} (hf : Clean ctx.program f)
    (hscope : ScopeOk ctx.program f.table names scope) (outer : Pos) : (args : List Expr) →
    {tys : List TypeExpr} → (Source.argNodes args).Nodup →
    ArgsFit ctx.program printName names args tys →
    ArgsNoted ctx.program printName ((checkArgs ctx scope outer args).run f).2 names args tys
  | [], _, _, h => by cases h; exact .nil
  | e :: rest, _, hnodup, h => by
    rw [Source.argNodes, List.nodup_append'] at hnodup
    cases h with
    | cons he hfits hrest =>
      obtain ⟨hclean, hle⟩ := (decides_checkExpr hctx hf hscope outer e).onward ⟨_, he⟩
      have hargs := noted_checkArgs hctx hclean (hscope.mono hle) outer rest hnodup.2.1 hrest
      have hnoted := noted_checkExpr hctx hf hscope outer e hnodup.1 he
      exact .cons (hnoted.mono (Check.Within.checkArgs ctx scope outer rest _) e
        fun id hid hmem => hnodup.2.2 hid hmem) hfits hargs

end

end Expressions

end ClassLang.Typing
