import ClassLang.Proofs.Typing.Containment
/-!
# Typing — looking up what was interned

The analysis resolves written types with a table that it grows; what comes
after it only looks them up. A type that was resolved once is found again in
every later table, as the same type and without interning anything
(`resolve_of_grown`). The run of the analysis comes to every type that is
written in a program, errors or not (`resolves_checkProgram`), so the two
resolvers agree on all of them (`agrees_analyze`).
-/


namespace ClassLang

/-! ## The types that are written in a program -/

namespace Source

/-- The types that are written in a part; with an array that is created comes
the type of that array. -/
def Part.written : Part → List TypeExpr
  | .expr (.newArray _ elem _) => [elem, .array elem]
  | _ => []

/-- The types that are written in a statement. -/
def Stmt.written (s : Stmt) : List TypeExpr := s.varDecls.map (·.ty) ++ s.parts.flatMap Part.written

/-- The types that are written in statements. -/
def stmtWritten (stmts : List Stmt) : List TypeExpr :=
  (listVarDecls stmts).map (·.ty) ++ (stmtParts stmts).flatMap Part.written

/-- The types that are written in a function: of its result, its parameters,
its local variables and the arrays that it creates. -/
def FunctionDecl.written (g : FunctionDecl) : List TypeExpr :=
  g.returnType :: (g.params.map (·.ty) ++ stmtWritten g.body.stmts)

/-- The types that are written in a class. -/
def ClassDecl.written (c : ClassDecl) : List TypeExpr :=
  c.fields.map (·.ty) ++ c.methods.flatMap (·.written)

/-- The types that are written in a program. -/
def Program.written (p : Program) : List TypeExpr :=
  p.functions.flatMap (·.written) ++ p.classes.flatMap (·.written)

end Source

namespace TypeTable

variable {t t' : TypeTable} {elem ty : Ty}

/-- An array type that is interned stays what it is when the table grows. -/
theorem lookupArray_of_grown (hle : t.elems <+: t'.elems) (h : t.lookupArray elem = some ty) :
    t'.lookupArray elem = some ty := by
  obtain ⟨id, hid, rfl⟩ := Option.map_eq_some_iff.1 h
  obtain ⟨hlt, heq, hfirst⟩ := List.idxOf?_eq_some_iff.1 hid
  obtain ⟨rest, hrest⟩ := hle
  refine Option.map_eq_some_iff.2 ⟨id, List.idxOf?_eq_some_iff.2 ?_, rfl⟩
  rw [← hrest]
  refine ⟨Nat.lt_of_lt_of_le hlt (by simp), by rw [List.getElem_append_left hlt]; exact heq, ?_⟩
  intro j hj
  rw [List.getElem_append_left (by omega)]
  exact hfirst j hj

theorem arrayOf_eq (h : t.lookupArray elem = some ty) : t.arrayOf elem = (ty, t) := by
  rw [arrayOf, h]

/-- What was interned is found. -/
theorem lookupArray_arrayOf (t : TypeTable) (elem : Ty) :
    (t.arrayOf elem).2.lookupArray elem = some (t.arrayOf elem).1 := by
  cases h : t.lookupArray elem with
  | some ty => rw [arrayOf_eq h, h]
  | none =>
    have hnew : elem ∉ t.elems := by simpa [lookupArray, List.idxOf?_eq_none_iff] using h
    rw [arrayOf, h]
    refine Option.map_eq_some_iff.2 ⟨t.elems.length, List.idxOf?_eq_some_iff.2 ?_, rfl⟩
    refine ⟨by simp, by simp, fun j hj heq => hnew ?_⟩
    rw [List.getElem_append_left hj] at heq
    exact heq ▸ List.getElem_mem hj

/-- Interning again finds what is there. -/
theorem arrayOf_of_grown (hle : (t.arrayOf elem).2.elems <+: t'.elems) :
    t'.arrayOf elem = ((t.arrayOf elem).1, t') :=
  arrayOf_eq (lookupArray_of_grown hle (lookupArray_arrayOf t elem))

/-- What interning leaves as it was had been interned. -/
theorem lookupArray_of_arrayOf (h : t.arrayOf elem = (ty, t)) : t.lookupArray elem = some ty := by
  have hfound := lookupArray_arrayOf t elem
  rwa [h] at hfound

end TypeTable

namespace Typing

open Source (TypeExpr Expr Place Part Stmt Block VarDecl FunctionDecl ClassDecl Program)

section Resolving

variable {classes : ClassTable} {written : TypeExpr} {t t' : TypeTable}

/-- An array type resolves with its element type. -/
theorem resolve_array (classes : ClassTable) (elem : TypeExpr) (t : TypeTable) :
    resolve classes (.array elem) t =
      if (resolve classes elem t).1 = .invalid then (.invalid, (resolve classes elem t).2)
      else (resolve classes elem t).2.arrayOf (resolve classes elem t).1 := by
  rw [resolve]
  split
  next heq => rw [heq, if_pos rfl]
  next hvalid heq => rw [heq, if_neg hvalid]

/-- Resolving an array type goes on from the table of its element type. -/
theorem prefix_resolve_array (classes : ClassTable) (elem : TypeExpr) (t : TypeTable) :
    (resolve classes elem t).2.elems <+: (resolve classes (.array elem) t).2.elems := by
  rw [resolve_array]
  split
  · exact List.prefix_rfl
  · exact prefix_arrayOf _ _

/-- **What was resolved once is found again** in every table that grew from
there, without interning. -/
theorem resolve_of_grown (hle : (resolve classes written t).2.elems <+: t'.elems) :
    resolve classes written t' = ((resolve classes written t).1, t') := by
  induction written generalizing t with
  | int | bool | class_ name => rfl
  | array elem ih =>
    have helem := ih ((prefix_resolve_array classes elem t).trans hle)
    rw [resolve_array classes elem t] at hle ⊢
    rw [resolve_array, helem]
    split
    · rfl
    next hvalid =>
      rw [if_neg hvalid] at hle
      exact TypeTable.arrayOf_of_grown hle

/-- A type that resolves without interning is the one that is looked up. -/
theorem Analysis.lookupType_of_resolve {a : Analysis} {found : Ty}
    (h : resolve a.classes written a.findings.table = (found, a.findings.table)) :
    a.lookupType written = if found = .invalid then none else some found := by
  induction written generalizing found with
  | int | bool =>
    obtain rfl : _ = found := congrArg Prod.fst h
    rfl
  | class_ name =>
    obtain rfl : (a.classes.lookup name).elim .invalid .class_ = found := congrArg Prod.fst h
    rw [lookupType]
    cases a.classes.lookup name <;> simp
  | array elem ih =>
    -- The element type interns nothing either, or the table would have grown.
    have helem : resolve a.classes elem a.findings.table =
        ((resolve a.classes elem a.findings.table).1, a.findings.table) :=
      resolve_of_grown (by simpa only [h] using prefix_resolve_array a.classes elem a.findings.table)
    rw [resolve_array, helem] at h
    rw [lookupType, ih helem]
    split at h
    next hinvalid =>
      obtain rfl : Ty.invalid = found := congrArg Prod.fst h
      simp [show (resolve a.classes elem a.findings.table).1 = .invalid from hinvalid]
    next hvalid =>
      have hfound := TypeTable.lookupArray_of_arrayOf h
      obtain ⟨id, -, rfl⟩ := Option.map_eq_some_iff.1 hfound
      simp [hvalid, hfound]

end Resolving

/-! ## What a run comes to -/

/-- The check only adds to what is found. -/
def Check.Growing {α : Type} (x : Check α) : Prop :=
  ∀ f, ∃ nodes, Findings.Grows nodes f (x.run f).2

theorem Check.Growing.of_within {α : Type} {x : Check α} {nodes : List Source.NodeId}
    (h : Within nodes x) : Growing x := fun f => ⟨nodes, h f⟩

theorem Check.Growing.bind {α β : Type} {x : Check α} {k : α → Check β} (hx : Growing x)
    (hk : ∀ a, Growing (k a)) : Growing (x >>= k) := fun f => by
  obtain ⟨nodes, hgrows⟩ := hx f
  obtain ⟨nodes', hgrows'⟩ := hk (x.run f).1 (x.run f).2
  exact ⟨nodes ++ nodes', (hgrows.weaken (by simp)).trans (hgrows'.weaken (by simp))⟩

/-- Running `x` from the findings `f` comes to `y`, with the findings `f₁`:
what runs before and after it only adds. -/
inductive Check.ComesTo {β : Type} (y : Check β) : {α : Type} → Check α → Findings → Findings → Prop
  | here (f : Findings) : ComesTo y y f f
  | first {α γ : Type} {x : Check α} {k : α → Check γ} {f f₁ : Findings} : ComesTo y x f f₁ →
      (∀ a, Growing (k a)) → ComesTo y (x >>= k) f f₁
  | next {α γ : Type} {x : Check α} {k : α → Check γ} {f f₁ : Findings} : Growing x →
      ComesTo y (k (x.run f).1) (x.run f).2 f₁ → ComesTo y (x >>= k) f f₁

/-- The analysis takes the written type for `found` when `x` runs from `f`: it
resolves the type, or it creates an array of that type. -/
inductive Check.Takes (ctx : Context) {α : Type} (x : Check α) (f : Findings) : TypeExpr → Ty → Prop
  | resolved {ty : TypeExpr} {f₁ : Findings} : ComesTo (resolveType ctx ty) x f f₁ →
      Takes ctx x f ty ((resolveType ctx ty).run f₁).1
  | created {elem : TypeExpr} {pos : Pos} {f₁ : Findings} :
      ComesTo (resolveReported ctx elem .plain pos >>= arrayOf) x f f₁ →
      Takes ctx x f (.array elem) ((resolveReported ctx elem .plain pos >>= arrayOf).run f₁).1

/-- The check only adds, and comes to all of these types. -/
structure Check.Resolves (ctx : Context) (tys : List TypeExpr) {α : Type} (x : Check α) : Prop where
  growing : Growing x
  takes : ∀ f, ∀ ty ∈ tys, ∃ found, Takes ctx x f ty found

/-- What stands behind the place that a run comes to is kept to its end. -/
theorem Check.ComesTo.grows {α β : Type} {x : Check α} {y : Check β} {f f₁ : Findings}
    (h : ComesTo y x f f₁) : (y.run f₁).2.table.elems <+: (x.run f).2.table.elems := by
  induction h with
  | here f => exact List.prefix_rfl
  | @first _ _ x k f _ _ hk ih =>
    obtain ⟨nodes, hgrows⟩ := hk (x.run f).1 (x.run f).2
    exact ih.trans hgrows.elems
  | next _ _ ih => exact ih

namespace Check.Resolves

variable {α β : Type} {ctx : Context} {tys tys' : List TypeExpr} {x : Check α} {k : α → Check β}
  {nodes : List Source.NodeId}

theorem of_within (h : Within nodes x) : Resolves ctx [] x := ⟨.of_within h, by simp⟩

theorem of_subset (h : Resolves ctx tys' x) (hsub : tys ⊆ tys') : Resolves ctx tys x :=
  ⟨h.growing, fun f ty hty => h.takes f ty (hsub hty)⟩

/-- A check in turn with another comes to what either comes to. -/
theorem bind (hx : Resolves ctx tys x) (hk : ∀ a, Resolves ctx tys' (k a)) :
    Resolves ctx (tys ++ tys') (x >>= k) := by
  refine ⟨hx.growing.bind fun a => (hk a).growing, fun f => List.forall_mem_append.2
    ⟨fun ty hty => ?_, fun ty hty => ?_⟩⟩
  · obtain ⟨found, hfound⟩ := hx.takes f ty hty
    cases hfound with
    | resolved h => exact ⟨_, .resolved (h.first fun a => (hk a).growing)⟩
    | created h => exact ⟨_, .created (h.first fun a => (hk a).growing)⟩
  · obtain ⟨found, hfound⟩ := (hk (x.run f).1).takes (x.run f).2 ty hty
    cases hfound with
    | resolved h => exact ⟨_, .resolved (.next hx.growing h)⟩
    | created h => exact ⟨_, .created (.next hx.growing h)⟩

/-- A check that is followed by one without types. -/
theorem before (hx : Resolves ctx tys x) (nodes : List Source.NodeId)
    (hk : ∀ a, Within nodes (k a)) : Resolves ctx tys (x >>= k) := by
  simpa using hx.bind fun a => of_within (hk a)

/-- A check that comes after one without types. -/
theorem behind (nodes : List Source.NodeId) (hx : Within nodes x)
    (hk : ∀ a, Resolves ctx tys (k a)) : Resolves ctx tys (x >>= k) := by
  simpa using (of_within hx).bind hk

theorem resolveType (ty : TypeExpr) : Resolves ctx [ty] (resolveType ctx ty) := by
  refine ⟨.of_within (.resolveType ctx ty : Within [] _), fun f other hother => ?_⟩
  obtain rfl := List.mem_singleton.1 hother
  exact ⟨_, .resolved (.here f)⟩

theorem resolveReported (ty : TypeExpr) (role : TypeRole) (pos : Pos) :
    Resolves ctx [ty] (resolveReported ctx ty role pos) :=
  (resolveType ty).before [] fun _ => .ite (.bind (.report _ _) fun _ => .pure _) (.pure _)

/-! ## Expressions -/

theorem typed {m : Source.Mark} (outer : Pos) {infer : Pos → Check Ty}
    (h : ∀ here, Resolves ctx tys (infer here)) : Resolves ctx tys (typed m outer infer) :=
  (h _).before [m.id] fun _ => .bind (.noteType List.mem_cons_self _) fun _ => .pure _

/-- Creating an array resolves the type of its elements and its own type. -/
theorem createArray (elem : TypeExpr) (pos : Pos) :
    Resolves ctx [elem, .array elem] (Typing.resolveReported ctx elem .plain pos >>= arrayOf) := by
  have hreported : Resolves ctx [elem] (Typing.resolveReported ctx elem .plain pos >>= arrayOf) :=
    (resolveReported elem .plain pos).before [] fun _ => .arrayOf _
  refine ⟨hreported.growing, fun f => List.forall_mem_cons.2 ⟨?_, List.forall_mem_singleton.2 ?_⟩⟩
  · exact hreported.takes f elem List.mem_cons_self
  · exact ⟨_, .created (.here f)⟩

variable (ctx)

mutual

/-- **Checking an expression resolves the types that are written in it.** -/
theorem checkExpr (scope : Scope) (outer : Pos) : (e : Expr) →
    Resolves ctx (e.parts.flatMap Part.written) (checkExpr ctx scope outer e)
  | .int m _ | .bool m _ | .null m | .this m | .newObject m _ =>
    of_within (.checkExpr ctx scope outer _)
  | .read m place => typed _ fun here => checkPlace scope here place
  | .arrayLength m array => by
    rw [checkExpr_arrayLength]
    exact typed _ fun here => (checkExpr scope here array).before [] fun _ => .lengthFound _ _
  | .unary m op operand => typed _ fun here => (checkExpr scope here operand).before [] fun _ =>
      .bind (.require ctx _ _ _) fun _ => .pure _
  | .binary m op lhs rhs => by
    rw [Typing.checkExpr, Expr.parts, List.flatMap_cons, List.flatMap_append]
    refine typed _ fun here => ?_
    split
    · exact (checkExpr scope here lhs).bind fun _ => behind [] (.require ctx _ _ _) fun _ =>
        (checkExpr scope here rhs).before [] fun _ => .bind (.require ctx _ _ _) fun _ => .pure _
    · exact (checkExpr scope here lhs).bind fun _ => (checkExpr scope here rhs).before [] fun _ =>
        .comparableFound ctx _ _ _
  | .call m name args => by
    rw [checkExpr_call]
    exact typed _ fun here => (checkArgs scope here args).before [m.id] fun _ =>
      .callFound ctx List.mem_cons_self _ _ _
  | .methodCall m receiver method args => by
    rw [checkExpr_methodCall, Expr.parts, List.flatMap_cons, List.flatMap_append]
    exact typed _ fun here => (checkExpr scope here receiver).bind fun _ =>
      (checkArgs scope here args).before [m.id] fun _ =>
        .methodFound ctx List.mem_cons_self _ _ _ _
  | .newArray m elem size => by
    have hcreate (here : Pos) : Resolves ctx (size.parts.flatMap Part.written ++ [elem, .array elem])
        (do
          let found ← Typing.checkExpr ctx scope here size
          require ctx .int found (size.mark.pos.getD here)
          Typing.resolveReported ctx elem .plain here >>= arrayOf) :=
      (checkExpr scope here size).bind fun _ =>
        behind [] (.require ctx _ _ _) fun _ => createArray elem here
    refine (typed (m := m) outer hcreate).of_subset ?_
    simp [Expr.parts, Part.written]

/-- **Checking a place resolves the types that are written in it.** -/
theorem checkPlace (scope : Scope) (outer : Pos) : (place : Place) →
    Resolves ctx (place.parts.flatMap Part.written) (checkPlace ctx scope outer place)
  | .var m name => of_within (.checkPlace ctx scope outer _)
  | .field m receiver name => by
    rw [checkPlace_field]
    exact typed _ fun here => (checkExpr scope here receiver).before [m.id] fun _ =>
      .fieldFound ctx List.mem_cons_self _ _ _
  | .index m array index => by
    rw [checkPlace_index, Place.parts, List.flatMap_cons, List.flatMap_append]
    exact typed _ fun here => (checkExpr scope here array).bind fun _ =>
      (checkExpr scope here index).before [] fun _ => .bind (.require ctx _ _ _) fun _ =>
        .indexFound _ _

theorem checkArgs (scope : Scope) (outer : Pos) : (args : List Expr) →
    Resolves ctx ((Source.argParts args).flatMap Part.written) (checkArgs ctx scope outer args)
  | [] => of_within (.pure _ : Within [] _)
  | e :: rest => by
    rw [Typing.checkArgs, Source.argParts, List.flatMap_append]
    exact (checkExpr scope outer e).bind fun _ =>
      (checkArgs scope outer rest).before [] fun _ => .pure _

end

/-! ## Statements -/

theorem checkCondition (scope : Scope) (outer : Pos) (of : ConditionOf) (cond : Expr) :
    Resolves ctx (cond.parts.flatMap Part.written) (checkCondition ctx scope outer of cond) :=
  (checkExpr ctx scope outer cond).before [] fun _ => .conditionFound ctx _ _ _

theorem declareVar (scope : Scope) (outer : Pos) (role : TypeRole) (taken : String → TypeFault)
    (var : VarDecl) : Resolves ctx [var.ty] (declareVar ctx scope outer role taken var) := by
  refine (resolveReported var.ty role _).before [] fun ty => ?_
  split
  · exact .bind (.report _ _) fun _ => .pure _
  · exact .pure _

mutual

/-- **Checking a statement resolves the types that are written in it.** -/
theorem checkStmt (scope : Scope) (outer : Pos) : (s : Stmt) →
    Resolves ctx s.written (checkStmt ctx scope outer s)
  | .block pos (.mk stmts bodyPos) => by
    rw [Typing.checkStmt, checkBlock]
    exact (checkStmts scope.push _ stmts).before [] fun _ => .pure _
  | .decl pos var => declareVar ctx scope _ _ _ var
  | .assign pos target value => by
    rw [checkStmt_assign, Stmt.written, Stmt.parts, List.flatMap_append]
    exact (checkPlace ctx scope _ target).bind fun _ => (checkExpr ctx scope _ value).before [] fun _ =>
      .valueFound ctx _ _ _ _ _
  | .expr pos value => (checkExpr ctx scope _ value).before [] fun _ => .pure _
  | .ifThen pos cond body => by
    have h := (checkCondition ctx scope (pos.getD outer) .if_ cond).bind fun _ =>
      (checkStmt scope.push (pos.getD outer) body).before [] fun _ => .pure scope
    refine h.of_subset fun ty hty => ?_
    simp only [Stmt.written, Stmt.varDecls, Stmt.parts, List.flatMap_append, List.mem_append] at hty ⊢
    tauto
  | .ifElse pos cond yes no => by
    have h := (checkCondition ctx scope (pos.getD outer) .if_ cond).bind fun _ =>
      (checkStmt scope.push (pos.getD outer) yes).bind fun _ =>
        (checkStmt scope.push (pos.getD outer) no).before [] fun _ => .pure scope
    refine h.of_subset fun ty hty => ?_
    simp only [Stmt.written, Stmt.varDecls, Stmt.parts, List.flatMap_append, List.map_append,
      List.mem_append] at hty ⊢
    tauto
  | .loop pos cond body => by
    have h := (checkCondition ctx scope (pos.getD outer) .while_ cond).bind fun _ =>
      (checkStmt scope.push (pos.getD outer) body).before [] fun _ => .pure scope
    refine h.of_subset fun ty hty => ?_
    simp only [Stmt.written, Stmt.varDecls, Stmt.parts, List.flatMap_append, List.mem_append] at hty ⊢
    tauto
  | .ret pos value => by
    rw [checkStmt_ret]
    exact (checkExpr ctx scope _ value).before [] fun _ => .valueFound ctx _ _ _ _ _

theorem checkStmts (scope : Scope) (outer : Pos) : (stmts : List Stmt) →
    Resolves ctx (Source.stmtWritten stmts) (checkStmts ctx scope outer stmts)
  | [] => of_within (.pure _ : Within [] _)
  | s :: rest => by
    have h := (checkStmt scope outer s).bind fun scope => checkStmts scope outer rest
    refine h.of_subset fun ty hty => ?_
    simp only [Stmt.written, Source.stmtWritten, Source.listVarDecls, Source.stmtParts,
      List.flatMap_append, List.map_append, List.mem_append] at hty ⊢
    tauto

end

/-! ## Declarations -/

theorem declareParams (scope : Scope) (outer : Pos) (params : List VarDecl) :
    Resolves ctx (params.map (·.ty)) (declareParams ctx scope outer params) := by
  induction params generalizing scope with
  | nil => exact of_within (.pure _ : Within [] _)
  | cons param rest ih => exact (declareVar ctx scope _ _ _ param).bind fun scope => ih scope

/-- **Checking a function resolves the types that are written in it.** -/
theorem checkFunction (scope : Scope) (outer : Pos) (g : FunctionDecl) :
    Resolves ctx g.written (checkFunction ctx scope outer g) := by
  obtain ⟨_, returnType, _, params, ⟨stmts, pos⟩, _⟩ := g
  exact (resolveReported returnType _ _).bind fun _ => (declareParams ctx _ _ params).bind
    fun scope => checkStmts ctx scope.push _ stmts

theorem checkFunctions (scope : Scope) (outer : Pos) (fs : List FunctionDecl) :
    Resolves ctx (fs.flatMap (·.written)) (checkFunctions ctx scope outer fs) := by
  induction fs with
  | nil => exact of_within (.pure _ : Within [] _)
  | cons f rest ih => exact (checkFunction ctx scope outer f).bind fun _ => ih

theorem checkClasses (outer : Pos) (classes : List (ClassDecl × Nat)) :
    Resolves ctx (classes.flatMap fun c => c.1.methods.flatMap (·.written))
      (checkClasses ctx outer classes) := by
  induction classes with
  | nil => exact of_within (.pure _ : Within [] _)
  | cons c rest ih =>
    exact (behind [] (.declareFields ctx _ _) fun _ => checkFunctions ctx _ _ _ :
      Resolves ctx (c.1.methods.flatMap (·.written)) (checkClass ctx outer c.2 c.1)).bind fun _ => ih

theorem checkFields (outer : Pos) (seen : Table String Pos) (fields : List VarDecl) :
    Resolves ctx (fields.map (·.ty)) (checkFields ctx outer seen fields) := by
  induction fields generalizing seen with
  | nil => exact of_within (.pure _ : Within [] _)
  | cons field rest ih =>
    refine (resolveReported field.ty .plain (field.pos.getD outer)).bind fun _ => ?_
    split
    · exact behind [] (.report _ _) fun _ => ih _
    · exact ih _

/-- **Checking the members of classes resolves the types of their fields.** -/
theorem checkMembers (outer : Pos) (classes : List ClassDecl) :
    Resolves ctx (classes.flatMap fun c => c.fields.map (·.ty)) (checkMembers ctx outer classes) := by
  induction classes with
  | nil => exact of_within (.pure _ : Within [] _)
  | cons c rest ih =>
    exact (checkFields ctx _ _ c.fields).bind fun _ =>
      behind [] (.checkMethodNames _ _ _) fun _ => ih

end Check.Resolves

/-- **The checks of a program resolve every type that is written in it**,
errors or not. -/
theorem resolves_checkProgram (p : Program) (printName : String) (fallback : Pos) :
    Check.Resolves (programContext p printName fallback) p.written
      (checkProgram p printName fallback) := by
  have h : Check.Resolves (programContext p printName fallback)
      ((p.classes.flatMap fun c => c.fields.map (·.ty)) ++ (p.functions.flatMap (·.written) ++
        p.classes.flatMap fun c => c.methods.flatMap (·.written)))
      (checkProgram p printName fallback) := by
    refine (Check.Resolves.checkMembers _ _ p.classes).bind fun _ =>
      .behind [] (.checkMain _ _) fun _ =>
      (Check.Resolves.checkFunctions _ _ _ p.functions).bind fun _ => ?_
    rw [← flatMap_zipIdx]
    exact .checkClasses _ _ _
  refine h.of_subset fun ty hty => ?_
  simp only [Program.written, ClassDecl.written, List.mem_append, List.mem_flatMap] at hty ⊢
  rcases hty with hty | ⟨c, hc, hty | hty⟩
  · exact .inr (.inl hty)
  · exact .inl ⟨c, hc, hty⟩
  · exact .inr (.inr ⟨c, hc, hty⟩)

/-! ## The two resolvers -/

theorem gracious_of_ne_invalid {ty : Ty} (h : ty ≠ .invalid) : ty.gracious = ty := by
  cases ty <;> first | rfl | exact absurd rfl h

section Taken

variable {ctx : Context} {ty elem : TypeExpr} {f : Findings} {found : Ty}

theorem run_resolveReported (ctx : Context) (ty : TypeExpr) (role : TypeRole) (pos : Pos)
    (f : Findings) : ((resolveReported ctx ty role pos).run f).1 =
        (resolve ctx.classes ty f.table).1.gracious ∧
      ((resolveReported ctx ty role pos).run f).2.table = (resolve ctx.classes ty f.table).2 := by
  unfold resolveReported
  rw [Check.run_bind]
  split <;> exact ⟨rfl, rfl⟩

/-- An array that is created of a type that resolves has the type that is
written with a bracket pair behind it. -/
theorem run_createArray (pos : Pos) (hvalid : (resolve ctx.classes elem f.table).1 ≠ .invalid) :
    ((resolveReported ctx elem .plain pos >>= arrayOf).run f).1 =
        (resolve ctx.classes (.array elem) f.table).1 ∧
      ((resolveReported ctx elem .plain pos >>= arrayOf).run f).2.table =
        (resolve ctx.classes (.array elem) f.table).2 := by
  obtain ⟨hfound, htable⟩ := run_resolveReported ctx elem .plain pos f
  rw [gracious_of_ne_invalid hvalid] at hfound
  rw [Check.run_bind, hfound, resolve_array, if_neg hvalid, ← htable]
  exact ⟨rfl, rfl⟩

/-- **What the analysis came to is settled**: the type interns nothing ever
after. -/
theorem settled_of_takes {α : Type} {x : Check α} (htakes : x.Takes ctx f ty found) :
    (resolve ctx.classes ty (x.run f).2.table).2 = (x.run f).2.table := by
  cases htakes with
  | resolved hcomes => rw [resolve_of_grown hcomes.grows]
  | @created elem pos f₁ hcomes =>
    by_cases hvalid : (resolve ctx.classes elem f₁.table).1 = .invalid
    · -- The elements resolve to nothing, and then so does the array.
      have hreported := (run_resolveReported ctx elem .plain pos f₁).2
      have hle : (resolve ctx.classes elem f₁.table).2.elems <+: (x.run f).2.table.elems := by
        rw [← hreported]
        exact (prefix_arrayOf _ _).trans hcomes.grows
      rw [resolve_array, resolve_of_grown hle, if_pos hvalid]
    · obtain ⟨-, htable⟩ := run_createArray pos hvalid
      rw [resolve_of_grown (htable ▸ hcomes.grows)]

/-- What the analysis takes a type for, it is resolved to ever after. -/
theorem resolve_of_takes {p : Program} (hlookup : ∀ name, ctx.classes.lookup name = p.classId? name)
    {α : Type} {x : Check α} (htakes : x.Takes ctx f ty found) (hty : p.Resolves ty) :
    resolve ctx.classes ty (x.run f).2.table = (found, (x.run f).2.table) := by
  cases htakes with
  | resolved hcomes => exact resolve_of_grown hcomes.grows
  | @created elem pos f₁ hcomes =>
    have hvalid := (resolve_valid hlookup (show p.Resolves elem from hty) f₁.table).1
    obtain ⟨hresult, htable⟩ := run_createArray pos hvalid
    rw [hresult]
    exact resolve_of_grown (htable ▸ hcomes.grows)

end Taken

/-- **The two resolvers agree**: the analysis comes to every type that is
written in the program, and what it takes the type for is what is looked up
behind it. A type with a class that is not declared is not found. Resolving a
type once more gives what is looked up and interns nothing. -/
structure Analysis.Agrees (p : Program) (printName : String) (a : Analysis) : Prop where
  taken : ∀ ty ∈ p.written, ∃ found, (checkProgram p printName (p.pos.getD .origin)).Takes
    ⟨p, a.classes, a.functions⟩ (programFindings p printName (p.pos.getD .origin)) ty found
  found : ∀ ty found, (checkProgram p printName (p.pos.getD .origin)).Takes
    ⟨p, a.classes, a.functions⟩ (programFindings p printName (p.pos.getD .origin)) ty found →
    p.Resolves ty → a.lookupType ty = some found
  missing : ∀ ty, ¬ p.Resolves ty → a.lookupType ty = none
  settled : ∀ ty ∈ p.written, resolve a.classes ty a.findings.table =
    ((a.lookupType ty).getD .invalid, a.findings.table)

theorem lookup_programContext (p : Program) (printName : String) (fallback : Pos) (name : String) :
    (programContext p printName fallback).classes.lookup name = p.classId? name :=
  (ClassTable.faithful_resolveAll p fallback).lookup name

/-- **The type that the analysis resolved is looked up behind it**, for every
type that is written in a program, and no lookup needs a new array type. -/
theorem agrees_analyze (p : Program) (printName : String) :
    (analyze p ⟨printName⟩).Agrees p printName := by
  have hlookup := lookup_programContext p printName (p.pos.getD .origin)
  have hfound : ∀ ty found, (checkProgram p printName (p.pos.getD .origin)).Takes
      (programContext p printName (p.pos.getD .origin))
      (programFindings p printName (p.pos.getD .origin)) ty found → p.Resolves ty →
      (analyze p ⟨printName⟩).lookupType ty = some found := fun ty found htakes hty => by
    have hagain := resolve_of_takes hlookup htakes hty
    have hvalid : found ≠ .invalid := by
      have h := (resolve_valid hlookup hty (analyze p ⟨printName⟩).findings.table).1
      rwa [analyze_eq, hagain] at h
    rw [Analysis.lookupType_of_resolve hagain, if_neg hvalid]
  have hmissing : ∀ ty, ¬ p.Resolves ty → (analyze p ⟨printName⟩).lookupType ty = none :=
    fun ty hty => by
      have h := resolve_of_not_resolves hlookup (analyze p ⟨printName⟩).findings.table hty
      rw [Analysis.lookupType_of_resolve h, if_pos rfl]
  have htaken := (resolves_checkProgram p printName (p.pos.getD .origin)).takes
    (programFindings p printName (p.pos.getD .origin))
  refine ⟨htaken, hfound, hmissing, fun ty hty => ?_⟩
  by_cases h : p.Resolves ty
  · obtain ⟨found, htakes⟩ := htaken ty hty
    have hagain := resolve_of_takes hlookup htakes h
    rw [hfound ty found htakes h]
    exact hagain
  · rw [hmissing ty h]
    exact resolve_of_not_resolves hlookup _ h

end Typing

end ClassLang
