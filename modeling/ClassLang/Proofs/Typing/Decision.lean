import ClassLang.Proofs.Typing.Growth
/-!
# Typing — checks that decide a property

`Decides` is what is proved of every check: started without errors, it
reports nothing exactly if a property holds, and then its result and the
table of types satisfy a second one. `Decides.bind` puts checks in turn:
the second is looked at only where the first reports nothing, since no
check takes an error back (`Check.Adds`).
-/


namespace ClassLang.Typing

open Source (NodeId TypeExpr Mark VarDecl FunctionDecl ClassDecl Program)

/-- The check takes no error back. -/
def Check.Adds {α : Type} (x : Check α) : Prop := ∀ f, f.errors <+: (x.run f).2.errors

namespace Check.Adds

variable {α β : Type}

/-- A check that notes about its own nodes takes no error back. -/
theorem of_within {nodes : List NodeId} {x : Check α} (h : Check.Within nodes x) : Adds x :=
  fun f => (h f).errors

theorem pure (a : α) : Adds (pure a : Check α) := fun _ => List.prefix_rfl

/-- Of two checks in turn, neither takes an error back. -/
theorem bind {x : Check α} {k : α → Check β} (hx : Adds x) (hk : ∀ a, Adds (k a)) :
    Adds (x >>= k) := fun f => (hx f).trans (hk _ _)

theorem ite {c : Prop} [Decidable c] {x y : Check α} (hx : Adds x) (hy : Adds y) :
    Adds (if c then x else y) := by
  split
  · exact hx
  · exact hy

variable (ctx : Context)

theorem report (pos : Pos) (fault : TypeFault) : Adds (report pos fault) :=
  of_within (Check.Within.report pos fault : Check.Within [] _)

theorem resolveType (ty : TypeExpr) : Adds (resolveType ctx ty) :=
  of_within (Check.Within.resolveType ctx ty : Check.Within [] _)

theorem resolveReported (ty : TypeExpr) (role : TypeRole) (pos : Pos) :
    Adds (resolveReported ctx ty role pos) :=
  of_within (Check.Within.resolveReported ctx ty role pos : Check.Within [] _)

theorem arrayOf (elem : Ty) : Adds (arrayOf elem) :=
  of_within (Check.Within.arrayOf elem : Check.Within [] _)

theorem require (expected found : Ty) (pos : Pos) : Adds (require ctx expected found pos) :=
  of_within (Check.Within.require ctx expected found pos : Check.Within [] _)

theorem requireArgs (here : Pos) (args : List (Option Pos × Ty)) (params : List TypeExpr) :
    Adds (requireArgs ctx here args params) :=
  of_within (Check.Within.requireArgs ctx here args params : Check.Within [] _)

theorem lengthFound (pos : Pos) (found : Ty) : Adds (lengthFound pos found) :=
  of_within (Check.Within.lengthFound pos found : Check.Within [] _)

theorem comparableFound (here : Pos) (l r : Ty) : Adds (comparableFound ctx here l r) :=
  of_within (Check.Within.comparableFound ctx here l r : Check.Within [] _)

theorem callFound (m : Mark) (here : Pos) (name : String) (args : List (Option Pos × Ty)) :
    Adds (callFound ctx m here name args) :=
  of_within (.callFound ctx (List.mem_singleton.2 rfl) here name args)

theorem methodFound (m : Mark) (here : Pos) (method : String) (args : List (Option Pos × Ty))
    (found : Ty) : Adds (methodFound ctx m here method args found) :=
  of_within (.methodFound ctx (List.mem_singleton.2 rfl) here method args found)

theorem fieldFound (m : Mark) (pos : Pos) (name : String) (found : Ty) :
    Adds (fieldFound ctx m pos name found) :=
  of_within (.fieldFound ctx (List.mem_singleton.2 rfl) pos name found)

theorem indexFound (here : Pos) (found : Ty) : Adds (indexFound here found) :=
  of_within (Check.Within.indexFound here found : Check.Within [] _)

theorem conditionFound (pos : Pos) (of : ConditionOf) (found : Ty) :
    Adds (conditionFound ctx pos of found) :=
  of_within (Check.Within.conditionFound ctx pos of found : Check.Within [] _)

theorem valueFound (scope : Scope) (pos : Pos) (fault : String → String → TypeFault)
    (expected found : Ty) : Adds (valueFound ctx scope pos fault expected found) :=
  of_within (Check.Within.valueFound ctx scope pos fault expected found : Check.Within [] _)

theorem checkExpr (scope : Scope) (outer : Pos) (e : Source.Expr) :
    Adds (checkExpr ctx scope outer e) := of_within (.checkExpr ctx scope outer e)

theorem checkArgs (scope : Scope) (outer : Pos) (args : List Source.Expr) :
    Adds (checkArgs ctx scope outer args) := of_within (.checkArgs ctx scope outer args)

theorem checkStmt (scope : Scope) (outer : Pos) (s : Source.Stmt) :
    Adds (checkStmt ctx scope outer s) := of_within (.checkStmt ctx scope outer s)

theorem checkStmts (scope : Scope) (outer : Pos) (stmts : List Source.Stmt) :
    Adds (checkStmts ctx scope outer stmts) := of_within (.checkStmts ctx scope outer stmts)

end Check.Adds

/-- Started from findings without errors, the check reports nothing exactly
if `ok` holds, and then its result and the table are as `post` says. -/
structure Decides (p : Program) {α : Type} (x : Check α) (f : Findings) (ok : Prop)
    (post : α → TypeTable → Prop) : Prop where
  iff : (x.run f).2.errors = [] ↔ ok
  post : ok → f.table.elems <+: (x.run f).2.table.elems ∧ TableOk p (x.run f).2.table ∧
    post (x.run f).1 (x.run f).2.table

/-- Findings to start from: no errors, and only types that stand for written
ones. -/
structure Clean (p : Program) (f : Findings) : Prop where
  errors : f.errors = []
  table : TableOk p f.table

/-- Noting what a call means reports nothing. -/
theorem Clean.noteCall {p : Program} {f : Findings} (hf : Clean p f) (calls : Table NodeId Callee) :
    Clean p { f with calls := calls } := ⟨hf.errors, hf.table⟩

theorem Clean.noteVar {p : Program} {f : Findings} (hf : Clean p f) (vars : Table NodeId DeclRef) :
    Clean p { f with vars := vars } := ⟨hf.errors, hf.table⟩

theorem Clean.noteField {p : Program} {f : Findings} (hf : Clean p f)
    (fields : Table NodeId MemberRef) : Clean p { f with fields := fields } :=
  ⟨hf.errors, hf.table⟩

namespace Decides

variable {p : Program} {α β : Type} {x : Check α} {f : Findings} {ok ok₁ ok₂ : Prop}
variable {post post₁ : α → TypeTable → Prop} {post₂ : β → TypeTable → Prop}

theorem pure (hf : Clean p f) {a : α} (h : post a f.table) :
    Decides p (Pure.pure a) f True post :=
  ⟨⟨fun _ => trivial, fun _ => hf.errors⟩, fun _ => ⟨List.prefix_rfl, hf.table, h⟩⟩

/-- **Checks in turn.** -/
theorem bind {k : α → Check β} (hx : Decides p x f ok₁ post₁) (hadds : ∀ a, Check.Adds (k a))
    (hk : ok₁ → ∀ a f', Clean p f' → f.table.elems <+: f'.table.elems → post₁ a f'.table →
      Decides p (k a) f' ok₂ post₂) : Decides p (x >>= k) f (ok₁ ∧ ok₂) post₂ := by
  have hrun : (x >>= k).run f = (k (x.run f).1).run (x.run f).2 := rfl
  by_cases hok : ok₁
  · obtain ⟨hle, ht, hpost⟩ := hx.post hok
    have hclean : Clean p (x.run f).2 := ⟨hx.iff.2 hok, ht⟩
    have h := hk hok _ _ hclean hle hpost
    refine ⟨?_, fun h12 => ?_⟩
    · rw [hrun, h.iff]
      exact ⟨fun h2 => ⟨hok, h2⟩, fun h2 => h2.2⟩
    · obtain ⟨hle', ht', hpost'⟩ := h.post h12.2
      rw [hrun]
      exact ⟨hle.trans hle', ht', hpost'⟩
  · refine ⟨⟨fun herr => absurd ?_ hok, fun h => absurd h.1 hok⟩, fun h => absurd h.1 hok⟩
    rw [hrun] at herr
    exact hx.iff.1 (List.prefix_nil.1 (herr ▸ hadds _ _))

/-- A condition may be replaced by an equivalent one. -/
theorem congr (h : Decides p x f ok₁ post) (hiff : ok₁ ↔ ok₂) : Decides p x f ok₂ post :=
  ⟨h.iff.trans hiff, fun h2 => h.post (hiff.2 h2)⟩

/-- A weaker result is decided as well, and the table may grow for it. -/
theorem mono (h : Decides p x f ok post₁)
    (hpost : ok → ∀ a t, f.table.elems <+: t.elems → post₁ a t → post a t) :
    Decides p x f ok post :=
  ⟨h.iff, fun hok => ⟨(h.post hok).1, (h.post hok).2.1,
    hpost hok _ _ (h.post hok).1 (h.post hok).2.2⟩⟩

/-- What only reads can be left out. -/
theorem reads {k : α → Check β} {a : α} (h : x.run f = (a, f)) (hk : Decides p (k a) f ok post₂) :
    Decides p (x >>= k) f ok post₂ := by
  have hrun : (x >>= k).run f = (k a).run f := by
    show (k (x.run f).1).run (x.run f).2 = _
    rw [h]
  exact ⟨hrun ▸ hk.iff, hrun ▸ hk.post⟩

/-- Notes change neither errors nor types. -/
theorem noteCall {k : Unit → Check β} {id : NodeId} {callee : Callee}
    (h : Decides p (k ()) { f with calls := f.calls.insert id callee } ok post₂) :
    Decides p (Typing.noteCall id callee >>= k) f ok post₂ := ⟨h.iff, h.post⟩

/-- Noting what a variable means decides nothing. -/
theorem noteVar {k : Unit → Check β} {id : NodeId} {decl : DeclRef}
    (h : Decides p (k ()) { f with vars := f.vars.insert id decl } ok post₂) :
    Decides p (Typing.noteVar id decl >>= k) f ok post₂ := ⟨h.iff, h.post⟩

theorem noteField {k : Unit → Check β} {id : NodeId} {ref : MemberRef}
    (h : Decides p (k ()) { f with fields := f.fields.insert id ref } ok post₂) :
    Decides p (Typing.noteField id ref >>= k) f ok post₂ := ⟨h.iff, h.post⟩

/-- A check that ends with a report of nothing but errors. -/
theorem of_errors_ne (h : (x.run f).2.errors ≠ []) : Decides p x f False post :=
  ⟨⟨fun herr => h herr, False.elim⟩, False.elim⟩

/-- Reporting never reports nothing. -/
theorem report (pos : Pos) (fault : TypeFault) {post : Unit → TypeTable → Prop} :
    Decides p (report pos fault) f False post :=
  of_errors_ne (by simp [Typing.report, StateT.run, modify, modifyGet, MonadStateOf.modifyGet,
    StateT.modifyGet, Pure.pure])

/-- Nor does what reports first. -/
theorem report_bind (pos : Pos) (fault : TypeFault) {k : Unit → Check α}
    (hadds : ∀ a, Check.Adds (k a)) : Decides p (Typing.report pos fault >>= k) f False post := by
  have hreport : Decides p (Typing.report pos fault) f False fun _ _ => False := report pos fault
  have h : Decides p (Typing.report pos fault >>= k) f (False ∧ True) post :=
    hreport.bind hadds fun h => h.elim
  exact h.congr (by simp)

/-- **What reports and ends** decides what does not hold. -/
theorem refused {pos : Pos} {fault : TypeFault} {a : α} (h : ¬ ok) :
    Decides p (do Typing.report pos fault; return a) f ok post :=
  (report_bind pos fault fun _ => .pure _).congr ⟨False.elim, h⟩

/-- The report may show a type. -/
theorem refusedShown {pos : Pos} {fault : String → TypeFault} {ty : Ty} {a : α} (h : ¬ ok) :
    Decides p (do Typing.report pos (fault (← shown ty)); return a) f ok post :=
  .reads rfl (refused h)

/-- **What reports unless a test succeeds.** -/
theorem unless_ {c : Bool} {x y : Check α} (hf : ok → Decides p y f True post) (hiff : c = true ↔ ok)
    (hx : Decides p x f False post) : Decides p (if c then y else x) f ok post := by
  by_cases hok : ok
  · rw [if_pos (hiff.2 hok)]
    exact (hf hok).congr (by simp [hok])
  · rw [if_neg fun h => hok (hiff.1 h)]
    exact hx.congr (by simp [hok])

end Decides

end ClassLang.Typing
