import ClassLang.Proofs.Hierarchy.References
import ClassLang.Proofs.Typing.Exchange
import ClassLang.Proofs.Typing.Outlines
/-!
# Typing — one mistake does not cascade

Where a name that is not there takes the place of an expression, its read is
the one new error: all others were reported before, outside of the expression
that it replaces (`spared_analyze`).
-/


namespace ClassLang.Typing

open Source (TypeExpr Mark Expr Stmt Block VarDecl FunctionDecl ClassDecl Program)
open Source (FunctionHole ClassHole ProgramHole)

/-! ## Functions and classes -/

section Declarations

variable {x : Exchange} {owner : Option ClassId} {f : Findings}

theorem swaps_checkFunction (hx : x.Loses) (ht : Paired f.table f.table) {scope : Scope}
    (hscope : Scope.Pairs f.table f.table scope scope) {this? : Option String}
    (hholds : Scope.Holds x.ctx owner ⟨this?, []⟩ scope) (outer : Pos) (hole : FunctionHole)
    (hsite : ∀ s, Scope.Holds x.ctx owner (hole.names this?) s → x.site s) :
    x.Swaps (checkFunction x.ctx scope outer (hole.fill x.old))
      (checkFunction x.ctx scope outer (hole.fill x.new)) f AnyResults := by
  unfold checkFunction
  simp only [FunctionHole.fill, checkBlock]
  refine .behind (spares_resolveReported x.ctx ht hole.returnType .return_ _) fun ht hg hty => ?_
  have hscope := (hscope.mono hg.elems hg.elems).setReturn hty
  have hparams (ty : Ty) := holds_declareParams (hholds.setReturn ty) (hole.pos.getD outer) hole.params
  rw [List.append_nil] at hparams
  exact .behind (spares_declareParams x.ctx ht hscope _ hole.params) fun ht _ hscope =>
    swaps_checkStmts hx ht hscope.push (hparams _ _).push _ hole.stmts hsite

theorem swaps_checkFunctions (hx : x.Loses) (ht : Paired f.table f.table) {scope : Scope}
    (hscope : Scope.Pairs f.table f.table scope scope) {this? : Option String}
    (hholds : Scope.Holds x.ctx owner ⟨this?, []⟩ scope) (outer : Pos)
    (before after : List FunctionDecl) (hole : FunctionHole)
    (hsite : ∀ s, Scope.Holds x.ctx owner (hole.names this?) s → x.site s) :
    x.Swaps (checkFunctions x.ctx scope outer (before ++ hole.fill x.old :: after))
      (checkFunctions x.ctx scope outer (before ++ hole.fill x.new :: after)) f AnyResults := by
  induction before generalizing f with
  | nil =>
    exact (swaps_checkFunction hx ht hscope hholds outer hole hsite).bind fun _ _ _ _ ht hg hg' _ =>
      spares_checkFunctions x.ctx ht (hscope.mono hg.elems hg'.elems) outer after
  | cons g rest ih =>
    exact .behind (spares_checkFunction x.ctx ht hscope outer g) fun ht hg _ =>
      ih ht (hscope.mono hg.elems hg.elems)

/-- Declaring fields brings their names into scope. -/
theorem holds_declareFields (ctx : Context) (scope : Scope) (fields : Table String MemberRef) :
    Check.Returns (fun scope' => (∀ name, scope'.lookupVar name = scope.lookupVar name) ∧
        ∀ name, scope'.lookupField name = none ↔
          scope.lookupField name = none ∧ fields.get? name = none)
      (declareFields ctx scope fields) := by
  induction fields generalizing scope with
  | nil => exact .pure ⟨fun _ => rfl, fun _ => by simp⟩
  | cons field rest ih =>
    obtain ⟨name, ref⟩ := field
    refine .behind fun ty f => ?_
    obtain ⟨hvar, hfield⟩ := ih (scope.putField name ⟨ty, .field ref⟩) f
    refine ⟨hvar, fun other => ?_⟩
    rw [hfield other, lookupField_putField, Table.get?]
    split
    · simp
    · rfl

theorem swaps_checkClass (hx : x.Loses) (ht : Paired f.table f.table) (outer : Pos) (id : ClassId)
    (hole : ClassHole)
    (hsite : ∀ s, Scope.Holds x.ctx (some id) (hole.method.names (some hole.name)) s → x.site s) :
    x.Swaps (checkClass x.ctx outer id (hole.fill x.old))
      (checkClass x.ctx outer id (hole.fill x.new)) f AnyResults := by
  have hscope : Scope.Pairs f.table f.table (Scope.empty.setThis (.class_ id))
    (Scope.empty.setThis (.class_ id)) := .empty (.class_ id)
  refine .behind (spares_declareFields x.ctx ht hscope _) fun ht _ hscope => ?_
  obtain ⟨hvar, hfield⟩ := holds_declareFields x.ctx (Scope.empty.setThis (.class_ id))
    (x.ctx.visible id) f
  refine swaps_checkFunctions hx ht hscope.push (Scope.Holds.push ⟨fun name => ?_, fun name => ?_⟩) _
    hole.before hole.after hole.method hsite
  · exact iff_of_true (hvar name) rfl
  · refine (hfield name).trans ⟨fun h _ heq => Option.some.inj heq ▸ h.2, fun h => ⟨rfl, h id rfl⟩⟩

theorem swaps_checkClasses (hx : x.Loses) (ht : Paired f.table f.table) (outer : Pos)
    (before after : List (ClassDecl × Nat)) (id : ClassId) (hole : ClassHole)
    (hsite : ∀ s, Scope.Holds x.ctx (some id) (hole.method.names (some hole.name)) s → x.site s) :
    x.Swaps (checkClasses x.ctx outer (before ++ (hole.fill x.old, id) :: after))
      (checkClasses x.ctx outer (before ++ (hole.fill x.new, id) :: after)) f AnyResults := by
  induction before generalizing f with
  | nil =>
    exact (swaps_checkClass hx ht outer id hole hsite).bind fun _ _ _ _ ht _ _ _ =>
      spares_checkClasses x.ctx ht outer after
  | cons c rest ih =>
    exact .behind (spares_checkClass x.ctx ht outer c.2 c.1) fun ht _ _ => ih ht

end Declarations

/-! ## What does not depend on bodies -/

section Outside

variable (ctx : Context) {f f' : Findings}

theorem spares_checkFields (ht : Paired f.table f'.table) (outer : Pos) (seen : Table String Pos)
    (fields : List VarDecl) :
    Check.Spares (checkFields ctx outer seen fields) f (checkFields ctx outer seen fields) f'
      AnyResults := by
  induction fields generalizing f f' seen with
  | nil => exact .pure ht trivial
  | cons field rest ih =>
    refine (spares_resolveReported ctx ht field.ty .plain _).bind fun _ _ _ _ ht _ _ _ => ?_
    split
    · exact (Check.Spares.report ht _ _).bind fun _ _ _ _ ht _ _ _ => ih ht _
    · exact ih ht _

theorem spares_checkMethodNames (ht : Paired f.table f'.table) (outer : Pos)
    (seen : Table String Pos) (methods : List FunctionDecl) :
    Check.Spares (checkMethodNames outer seen methods) f (checkMethodNames outer seen methods) f'
      AnyResults := by
  induction methods generalizing f f' seen with
  | nil => exact .pure ht trivial
  | cons method rest ih =>
    rw [checkMethodNames]
    split
    · exact (Check.Spares.report ht _ _).bind fun _ _ _ _ ht _ _ _ => ih ht _
    · exact ih ht _

theorem spares_checkMembers (ht : Paired f.table f'.table) (outer : Pos)
    (classes : List ClassDecl) :
    Check.Spares (checkMembers ctx outer classes) f (checkMembers ctx outer classes) f'
      AnyResults := by
  induction classes generalizing f f' with
  | nil => exact .pure ht trivial
  | cons c rest ih =>
    refine (spares_checkFields ctx ht _ [] c.fields).bind fun _ _ _ _ ht _ _ _ => ?_
    exact (spares_checkMethodNames ht _ [] c.methods).bind fun _ _ _ _ ht _ _ _ => ih ht

theorem spares_checkMain (ht : Paired f.table f'.table) (fallback : Pos) :
    Check.Spares (checkMain ctx fallback) f (checkMain ctx fallback) f' AnyResults := by
  unfold checkMain
  dsimp only
  split
  next => exact .report ht _ _
  next main _ =>
    refine (spares_resolveType ctx ht main.returnType).bind fun ty ty' g g' ht _ _ hty => ?_
    have hint : ty = .int ↔ ty' = .int := by
      rcases hty with ⟨rfl, rfl⟩ | h
      · rfl
      · cases h <;> simp
    have hlast {g g' : Findings} (ht : Paired g.table g'.table) : Check.Spares
        (if main.body.stmts.getLast?.any Stmt.isReturn = true then pure ()
          else report (main.pos.getD fallback) .mainMissingReturn) g
        (if main.body.stmts.getLast?.any Stmt.isReturn = true then pure ()
          else report (main.pos.getD fallback) .mainMissingReturn) g' AnyResults := by
      split
      · exact .pure ht trivial
      · exact .report ht _ _
    simp only [hint]
    split
    · split
      · exact hlast ht
      · exact (Check.Spares.report ht _ _).bind fun _ _ _ _ ht _ _ _ => hlast ht
    · refine (Check.Spares.report ht _ _).bind fun _ _ _ _ ht _ _ _ => ?_
      split
      · exact hlast ht
      · exact (Check.Spares.report ht _ _).bind fun _ _ _ _ ht _ _ _ => hlast ht

end Outside

/-! ## Programs -/

/-- In the course of the analysis, when the errors `before` were reported,
checking `e` where these names are in scope adds the errors `inside`. -/
inductive ReportedBy (p : Program) (printName : String) (owner : Option ClassId) (names : Names)
    (e : Expr) (before inside : List TypeError) : Prop
  | intro (scope : Scope) (outer : Pos) (f : Findings) :
      scope.Holds (programContext p printName (p.pos.getD .origin)) owner names →
      Findings.Leads (programFindings p printName (p.pos.getD .origin)) f → f.errors = before →
      ((checkExpr (programContext p printName (p.pos.getD .origin)) scope outer e).run f).2.errors =
        before ++ inside →
      Findings.Leads
        ((checkExpr (programContext p printName (p.pos.getD .origin)) scope outer e).run f).2
        (analyze p ⟨printName⟩).findings →
      ReportedBy p printName owner names e before inside

section Programs

variable {p : Program} {printName : String}

/-- A read of a name that is not in scope is reported, and its type is lost. -/
theorem run_checkExpr_unbound (ctx : Context) {scope : Scope} {u : String}
    (h : scope.lookup u = none) (outer : Pos) {m m' : Mark} (hm : m'.pos = m.pos) (f : Findings) :
    ((checkExpr ctx scope outer (.read m (.var m' u))).run f).1 = .any ∧
      ((checkExpr ctx scope outer (.read m (.var m' u))).run f).2.table = f.table ∧
      ((checkExpr ctx scope outer (.read m (.var m' u))).run f).2.errors =
        f.errors ++ [⟨.unknownVariable u, m.pos.getD outer⟩] := by
  have hpos : m'.pos.getD (m.pos.getD outer) = m.pos.getD outer := by
    rw [hm]
    cases m.pos <;> rfl
  have hcheck : checkExpr ctx scope outer (.read m (.var m' u)) = typed m outer fun here =>
      typed m' here fun here => do
        report here (.unknownVariable u)
        return .any := by
    rw [checkExpr]
    simp only [checkPlace, h]
  rw [hcheck]
  refine ⟨rfl, rfl, ?_⟩
  rw [← hpos]
  rfl

/-- The exchange of two expressions in the hole of a program. -/
def holeExchange (hole : ProgramHole) (old new : Expr) (printName : String) (fallback : Pos) :
    Exchange where
  ctx := programContext (hole.fill old).outline printName fallback
  old := old
  new := new
  site := Scope.Holds (programContext (hole.fill old).outline printName fallback) hole.owner
    hole.names

/-- **A program with a hole** is checked alike but for the hole. -/
theorem swaps_checkProgram (hole : ProgramHole) (old new : Expr) (printName : String)
    (fallback : Pos) (hx : (holeExchange hole old new printName fallback).Loses) :
    (holeExchange hole old new printName fallback).Swaps
      (checkProgram (hole.fill old) printName fallback)
      (checkProgram (hole.fill new) printName fallback)
      (programFindings (hole.fill old) printName fallback) AnyResults := by
  have ht : Paired (programFindings (hole.fill old) printName fallback).table
      (programFindings (hole.fill old) printName fallback).table :=
    ⟨layered_ofClassNames _, layered_ofClassNames _, rfl⟩
  rw [checkProgram_eq_outline (hole.fill new), hole.outline_fill old new,
    checkProgram_eq_outline (hole.fill old)]
  refine .behind (spares_checkMembers _ ht fallback _) fun ht _ _ => ?_
  refine .behind (spares_checkMain _ ht fallback) fun ht _ _ => ?_
  have hscope {t : TypeTable} : Scope.Pairs t t Scope.empty Scope.empty := .empty .any
  cases hole with
  | function before g after classes pos =>
    have hholds : Scope.Holds (programContext
        (ProgramHole.fill old (.function before g after classes pos)).outline printName fallback)
        none ⟨none, []⟩ .empty :=
      ⟨fun _ => iff_of_true rfl rfl, fun _ => iff_of_true rfl fun _ h => by cases h⟩
    exact (swaps_checkFunctions hx ht hscope hholds fallback before after g fun _ h => h).bind
      fun _ _ _ _ ht _ _ _ => spares_checkClasses _ ht fallback _
  | method functions before c after pos =>
    have hclasses (e : Expr) : (ProgramHole.fill e (.method functions before c after pos)).classes.zipIdx =
        before.zipIdx ++ (c.fill e, before.length) :: after.zipIdx (before.length + 1) := by
      rw [ProgramHole.fill, List.zipIdx_append, List.zipIdx_cons, Nat.zero_add]
    rw [hclasses, hclasses]
    exact .behind (spares_checkFunctions _ ht hscope fallback _) fun ht _ _ =>
      swaps_checkClasses hx ht fallback _ _ before.length c fun _ h => h

/-- A field that no class above declares is not in scope. -/
theorem get?_visible_eq_none {fallback : Pos} {id : ClassId} {name : String}
    (h : p.nearest? (·.fields.map (·.name)) id name = none) :
    ((programContext p printName fallback).visible id).get? name = none := by
  cases hget : ((programContext p printName fallback).visible id).get? name with
  | none => rfl
  | some ref =>
    cases hinfo : (programContext p printName fallback).classes.info id with
    | none => simp [Context.visible, hinfo] at hget
    | some info =>
      simp only [Context.visible, hinfo, Option.map_some, Option.getD_some] at hget
      have hnearest := ((ClassTable.faithful_resolveAll p fallback).fields id info hinfo name ref).1 hget
      cases h.symm.trans (Program.nearest?_eq_some_iff.2 hnearest)

theorem visible_outline (fallback : Pos) (id : ClassId) :
    (programContext p.outline printName fallback).visible id =
      (programContext p printName fallback).visible id := by
  rw [programContext_outline]
  rfl

theorem Scope.Holds.lookup_eq_none {ctx : Context} {owner : Option ClassId} {names : Names}
    {scope : Scope} (h : scope.Holds ctx owner names) {u : String} (hvar : names.var? u = none)
    (hfield : ∀ id, owner = some id → (ctx.visible id).get? u = none) : scope.lookup u = none := by
  rw [Scope.lookup, (h.var u).2 hvar, (h.field u).2 hfield]
  rfl

/-- What a check in the course of the analysis reports. -/
theorem exists_reportedBy {owner : Option ClassId} {names : Names} {scope : Scope} {outer : Pos}
    {e : Expr} {g : Findings} {fallback : Pos} (hfallback : p.pos.getD .origin = fallback)
    (hscope : scope.Holds (programContext p.outline printName fallback) owner names)
    (hbefore : (programFindings p printName fallback).Leads g)
    (hafter : ((checkExpr (programContext p.outline printName fallback) scope outer e).run g).2.Leads
      ((checkProgram p printName fallback).run (programFindings p printName fallback)).2) :
    ∃ inside, ((checkExpr (programContext p.outline printName fallback) scope outer e).run g).2.errors =
        g.errors ++ inside ∧ ReportedBy p printName owner names e g.errors inside := by
  subst hfallback
  rw [programContext_outline, checkExpr_outline] at hafter ⊢
  rw [programContext_outline] at hscope
  obtain ⟨inside, hinside⟩ :=
    (Check.Within.checkExpr (programContext p printName (p.pos.getD .origin)) scope outer e g).errors
  exact ⟨inside, hinside.symm,
    .intro scope outer g ⟨hscope.var, hscope.field⟩ hbefore rfl hinside.symm hafter⟩

/-- **Around a hole** the errors are the same up to it, and those behind it are
among the old ones, if nothing is known of the new expression. -/
theorem spared_of_loses (hole : ProgramHole) (old new : Expr) (printName : String)
    (hx : (holeExchange hole old new printName ((hole.fill old).pos.getD .origin)).Loses) :
    ∃ before inside inside' after after',
      (analyze (hole.fill old) ⟨printName⟩).errors = before ++ inside ++ after ∧
      (analyze (hole.fill new) ⟨printName⟩).errors = before ++ inside' ++ after' ∧
      after'.Sublist after ∧
      ReportedBy (hole.fill old) printName hole.owner hole.names old before inside ∧
      ReportedBy (hole.fill new) printName hole.owner hole.names new before inside' := by
  obtain ⟨fallback, hfallback⟩ : ∃ fallback, (hole.fill old).pos.getD .origin = fallback := ⟨_, rfl⟩
  have hfallback' : (hole.fill new).pos.getD .origin = fallback := by
    cases hole <;> exact hfallback
  have hfindings : programFindings (hole.fill new) printName fallback =
      programFindings (hole.fill old) printName fallback := by
    rw [← programFindings_outline, hole.outline_fill old new, programFindings_outline]
  rw [hfallback] at hx
  obtain ⟨⟨scope, outer, g, hsite, hbefore, hleft, hright, after, after', hafter, hafter', hsub⟩, -, -⟩ :=
    swaps_checkProgram hole old new printName fallback hx
  -- The second run starts from the same findings, over the same outline.
  rw [← hfindings] at hright hafter'
  simp only [holeExchange] at hleft hafter hright hafter' hsite
  obtain ⟨inside, hinside, hreported⟩ := exists_reportedBy hfallback hsite hbefore hleft
  rw [← hole.outline_fill old new] at hright hafter' hsite
  obtain ⟨inside', hinside', hreported'⟩ :=
    exists_reportedBy hfallback' hsite (hfindings ▸ hbefore) hright
  refine ⟨g.errors, inside, inside', after, after', ?_, ?_, hsub, hreported, hreported'⟩
  · rw [← hinside, ← hafter, ← hfallback]
    rfl
  · rw [← hinside', ← hafter', ← hfallback']
    rfl

/-- **One mistake does not cascade.** Put a read of a name in the place of an
expression, where the name is neither a variable nor a field in scope. The
errors are the same up to there, then there is one new error, and all others
were reported behind the expression before. -/
theorem spared_analyze (hole : ProgramHole) (e : Expr) (m m' : Mark) (u printName : String)
    (hm : m.pos = e.mark.pos) (hm' : m'.pos = e.mark.pos) (hvar : hole.names.var? u = none)
    (hfield : ∀ id, hole.owner = some id →
      (hole.fill e).nearest? (·.fields.map (·.name)) id u = none) :
    ∃ before inside after after' pos,
      (analyze (hole.fill e) ⟨printName⟩).errors = before ++ inside ++ after ∧
      (analyze (hole.fill (.read m (.var m' u))) ⟨printName⟩).errors =
        before ++ [⟨.unknownVariable u, pos⟩] ++ after' ∧
      after'.Sublist after ∧ (∀ q, e.mark.pos = some q → pos = q) ∧
      ReportedBy (hole.fill e) printName hole.owner hole.names e before inside ∧
      ReportedBy (hole.fill (.read m (.var m' u))) printName hole.owner hole.names
        (.read m (.var m' u)) before [⟨.unknownVariable u, pos⟩] := by
  have hvisible (fallback : Pos) (id : ClassId) (hid : hole.owner = some id) :
      ((programContext (hole.fill e).outline printName fallback).visible id).get? u = none := by
    rw [visible_outline]
    exact get?_visible_eq_none (hfield id hid)
  have hpos : m'.pos = m.pos := hm'.trans hm.symm
  have hx : (holeExchange hole e (.read m (.var m' u)) printName
      ((hole.fill e).pos.getD .origin)).Loses := by
    have hrun (scope : Scope) (outer : Pos) (f : Findings)
        (hsite : (holeExchange hole e (.read m (.var m' u)) printName
          ((hole.fill e).pos.getD .origin)).site scope) :=
      run_checkExpr_unbound (programContext (hole.fill e).outline printName
        ((hole.fill e).pos.getD .origin)) (hsite.lookup_eq_none hvar (hvisible _)) outer hpos f
    exact ⟨hm, fun scope outer f hsite => (hrun scope outer f hsite).1,
      fun scope outer f hsite => (hrun scope outer f hsite).2.1⟩
  obtain ⟨before, inside, inside', after, after', herr, herr', hsub, hreported, hreported'⟩ :=
    spared_of_loses hole e (.read m (.var m' u)) printName hx
  -- What the read itself reports is the one new error.
  obtain ⟨scope, outer, f, hscope, hleads, hf, hinside, hafter⟩ := hreported'
  have hlookup := hscope.lookup_eq_none hvar fun id hid => by
    rw [← visible_outline, hole.outline_fill e]
    exact hvisible _ id hid
  obtain ⟨-, -, hnew⟩ := run_checkExpr_unbound (programContext _ printName _) hlookup outer hpos f
  obtain rfl := List.append_cancel_left (hinside.symm.trans (hf ▸ hnew))
  refine ⟨before, inside, after, after', _, herr, herr', hsub, fun q hq => ?_, hreported,
    .intro scope outer f hscope hleads hf hinside hafter⟩
  rw [hm, hq]
  rfl

/-- `class A { int x; int scale(int n) { return n * □; } } int main() { return null; }` -/
def scaling : ProgramHole :=
  .method [⟨10, .int, "main", [], .mk [.ret (some ⟨1, 68⟩) (.null ⟨11, some ⟨1, 75⟩⟩)] none, none⟩] []
    ⟨0, "A", none, [⟨1, .int, "x", some ⟨1, 15⟩⟩], [],
      ⟨2, .int, "scale", [⟨3, .int, "n", some ⟨1, 32⟩⟩],
        .head (.ret (some ⟨1, 37⟩) (.rhs ⟨9, some ⟨1, 46⟩⟩ .times
          (.read ⟨5, some ⟨1, 44⟩⟩ (.var ⟨4, some ⟨1, 44⟩⟩ "n")) .here)) [], none, none⟩, [], none⟩
    [] none

theorem spared_scaling :
    scaling.names.var? "y" = none ∧
    (∀ id, scaling.owner = some id →
      (scaling.fill (.this ⟨8, some ⟨1, 48⟩⟩)).nearest? (·.fields.map (·.name)) id "y" = none) ∧
    ∃ before inside after after' pos,
      (analyze (scaling.fill (.this ⟨8, some ⟨1, 48⟩⟩)) ⟨"print"⟩).errors = before ++ inside ++ after ∧
      (analyze (scaling.fill (.read ⟨13, some ⟨1, 48⟩⟩ (.var ⟨12, some ⟨1, 48⟩⟩ "y")))
        ⟨"print"⟩).errors = before ++ [⟨.unknownVariable "y", pos⟩] ++ after' ∧
      after'.Sublist after ∧ pos = ⟨1, 48⟩ := by
  have hvar : scaling.names.var? "y" = none := by decide
  have hfield (id : ClassId) (hid : scaling.owner = some id) :
      (scaling.fill (.this ⟨8, some ⟨1, 48⟩⟩)).nearest? (·.fields.map (·.name)) id "y" = none := by
    obtain rfl := Option.some.inj hid
    cbv
  obtain ⟨before, inside, after, after', pos, herr, herr', hsub, hpos, -, -⟩ :=
    spared_analyze scaling (.this ⟨8, some ⟨1, 48⟩⟩) ⟨13, some ⟨1, 48⟩⟩ ⟨12, some ⟨1, 48⟩⟩ "y" "print"
      rfl rfl hvar hfield
  exact ⟨hvar, hfield, before, inside, after, after', pos, herr, herr', hsub, hpos _ rfl⟩

end Programs

end ClassLang.Typing
