import ClassLang.Proofs.Lowering.Expressions
/-!
# Lowering — calls, and every expression

The forms of expressions that call a procedure: print, the calls of
functions and methods, and the two forms of `new`, which call allocators.
With them every expression, every place and all arguments that the analysis
has noted are lowered to their code (`lowersExpr`, `lowersPlace`,
`lowersArgs`).
-/


namespace ClassLang.Lowering

open Source (NodeId TypeExpr Expr Place Mark Program VarDecl FunctionDecl)
open Semantics (Fault)
open Typing (Analysis ExprTy Names Fits TypeNoted ExprNoted PlaceNoted ArgsNoted)
open Ir (Operand Proc)

/-! ## What is called -/

section Targets

variable {p : Program} {printName : String} {a : Analysis} {s : Session}

/-- A declared function has its procedure. -/
theorem yields_function (hs : s.Ready p a) {index : Nat} {g : FunctionDecl}
    (hg : p.functions[index]? = some g) : Yields (functionProc index) s fun proc s' => s' = s ∧
      s.functionProcs[index]? = some proc ∧ HasProc p a s g.name [] g proc := by
  obtain ⟨proc, hproc, hhas⟩ := hs.functions index g hg
  exact .get_bind (.lift (orFault_ok hproc) ⟨rfl, hproc, hhas⟩)

/-- What a method call needs of its receiver. -/
theorem yields_callTarget (hs : s.Ready p a) {receiver : NodeId} {class_ method : String}
    {id : ClassId} {ref : MemberRef} {g : FunctionDecl} {slot : Nat}
    (htype : TypeNoted p a.findings receiver (.written (.class_ class_)))
    (hid : p.classId? class_ = some id) (href : p.methodRef? id method = some ref)
    (hg : methodDecl? p ref = some g) (hslot : (p.slotNames id)[slot]? = some method) :
    Yields (callTarget a receiver method ref) s fun r s' => s' = s ∧ ∃ proc name fields,
      r = (slot, .ptr (.struct (2 * ref.class_)), fields.map (·.ty)) ∧
        SlotProc p s id method ref proc ∧ ProcFor p a s name [thisParam ref.class_] g proc ∧
        proc.params = thisParam ref.class_ :: fields ∧
        List.Forall₂ (ParamFor p a s) g.params fields := by
  obtain ⟨ty, hty, hd⟩ := htype
  obtain ⟨entries, _, _, hlaid⟩ := hs.laid id (Source.Program.classId?_lt hid)
  obtain ⟨c, -, hlayout⟩ := hlaid.layout
  obtain ⟨proc, hproc, decl, hdecl, name, hfor⟩ := hs.method hg
  obtain ⟨fields, hparams, hfields⟩ := hfor.params
  -- The analysis noted the class of the receiver, so its layout is the one to ask.
  have hty' : ty = .class_ id := by
    cases hd with
    | written hd =>
      cases hd with
      | class_ hid' => rw [Option.some.inj (hid'.symm.trans hid)]
  subst hty'
  refine .lift_bind (orFault_ok hty) ?_
  refine Yields.bind (P := fun found s' => found = id ∧ s' = s) (.pure ⟨rfl, rfl⟩)
    fun found s₁ h => ?_
  obtain ⟨rfl, rfl⟩ := h
  refine (yields_classLayout (P := fun l s' => l = _ ∧ s' = s₁) hlayout ⟨rfl, rfl⟩).bind
    fun l s₂ h => ?_
  obtain ⟨rfl, rfl⟩ := h
  have hfound : ClassLayout.slot? ⟨c.name, 2 * found, 2 * found + 1, found, entries⟩ method =
      some slot := by
    rw [ClassLayout.slot?, hlaid.names]
    exact idxOf?_eq_of_nodup (Source.Program.nodup_slotNames _) hslot
  refine .lift_bind (orFault_ok hfound) ?_
  refine (yields_methodProc (P := fun q s' => q = proc ∧ s' = s₂) hproc ⟨rfl, rfl⟩).bind
    fun q s₃ h => ?_
  obtain ⟨rfl, rfl⟩ := h
  refine (yields_procDecl (P := fun d s' => d = decl ∧ s' = s₃) hdecl ⟨rfl, rfl⟩).bind
    fun d s₄ h => ?_
  obtain ⟨rfl, rfl⟩ := h
  rw [hparams]
  exact .pure ⟨rfl, d, name, fields, rfl, ⟨href, q, hproc, hdecl⟩, hfor, hparams, hfields⟩

theorem SlotProc.mono {s' : Session} (h : s.Extends s') {id : ClassId} {method : String}
    {ref : MemberRef} {proc : Proc} (hproc : SlotProc p s id method ref proc) :
    SlotProc p s' id method ref proc := by
  obtain ⟨index, hindex, hget⟩ := hproc.found
  exact ⟨hproc.nearest, index, h.methodProcs _ _ hindex, getElem?_of_initial h.procs hget⟩

/-- The type of the elements of a new array. -/
theorem newElem_ok {id : NodeId} {elem : TypeExpr}
    (h : TypeNoted p a.findings id (.written (.array elem))) :
    ∃ ty, newElem a id = .ok ty ∧ Typing.Denotes p a.findings.table ty elem := by
  obtain ⟨ty, hty, hd⟩ := h
  cases hd with
  | written hd =>
    cases hd with
    | @array index inner _ hinner hd =>
      refine ⟨inner, ?_, hd⟩
      have hty : a.type? id = some (.array index) := hty
      rw [newElem, orFault_ok hty]
      show Except.ok (a.findings.table.elem index) = _
      simp [TypeTable.elem, hinner]

end Targets

/-! ## Calls -/

section Calls

variable {p : Program} {printName : String} {a : Analysis} {names : Names}
variable {slots : Table NodeId Operand} {line : Nat} {s s' : Body}

/-- A procedure that is known by its number is called. -/
theorem yields_callProc (hs : s.Holds p a names slots line) (name : String) {id : Ir.ProcId}
    {proc : Proc} (hproc : s.session.ir.procs[id]? = some proc) {args : List Operand}
    (hargs : List.Forall₂ s.HasTy args (proc.params.map (·.ty))) :
    Yields (Lower.emit fun p => Emit.call p name (.proc id) args) s fun v s' =>
      Lowered p a s s' (fun _ q pt pt' => q.Defines (.call · (.proc id) args) pt v pt') ∧
        s'.HasTy v proc.ret :=
  Lower.yields_operand hs (x := fun p => Emit.call p name (.proc id) args)
    (yields_call hs.sound name (hs.ready.hasTy_proc hproc) hargs)

theorem LowersExpr.print {arg : Expr}
    (h : LowersExpr p printName a names slots line arg (.written .int)) {m : Mark}
    (hnoted : a.findings.calls.get? m.id = some (.builtin .printInt)) :
    LowersExpr p printName a names slots line (.call m printName [arg]) (.written .int) := by
  intro s hs
  rw [rvalue]
  refine .lift_bind (orFault_ok hnoted) ?_
  refine (h s hs).bind fun value s₁ hlowered => ?_
  obtain ⟨h₁, hvalue⟩ := hlowered
  have hs₁ := h₁.holds hs
  refine (Lower.yields_emit (P := fun _ s₂ => Lowered p a s₁ s₂ fun _ q pt pt' =>
    q.At pt (.print value) ∧ pt' = pt.next) ?_).bind fun _ s₂ h₂ => .pure ?_
  · exact (yields_print hs₁.sound hvalue.int).mono fun _ b h => .of_emission hs₁ h
  · refine ⟨(h₁.trans h₂).mono ?_, _, .written .int, Ir.hasTy_int _⟩
    rintro S q pt pt' ⟨_, harg, hprint, rfl⟩
    exact .print harg hprint

theorem LowersExpr.call {name : String} {args : List Expr} {index : Nat} {g : FunctionDecl}
    (hname : name ≠ printName) (hindex : p.functionIndex? name = some index)
    (hg : p.functions[index]? = some g)
    (hargs : LowersArgs p printName a names slots line args (g.params.map (·.ty))) {m : Mark}
    (hnoted : a.findings.calls.get? m.id = some (.function index)) :
    LowersExpr p printName a names slots line (.call m name args) (.written g.returnType) := by
  intro s hs
  rw [rvalue]
  refine .lift_bind (orFault_ok hnoted) ?_
  refine (Lower.yields_read (yields_function hs.ready hg)).bind fun proc s₁ h => ?_
  obtain ⟨rfl, hproc, decl, hdecl, hfor⟩ := h
  obtain ⟨fields, hparams, hfields⟩ := hfor.params
  rw [List.nil_append] at hparams
  refine (Lower.yields_read (yields_procDecl hdecl ⟨rfl, Eq.refl decl⟩)).bind fun d s₂ h => ?_
  obtain ⟨rfl, rfl⟩ := h
  rw [hparams]
  refine (hargs s₂ _ hs (represents_params hfields)).bind fun values s₃ h => ?_
  obtain ⟨h₃, hvalues⟩ := h
  have hs₃ := h₃.holds hs
  rw [← hparams] at hvalues
  refine (yields_callProc hs₃ _ (getElem?_of_initial h₃.session.procs hdecl) hvalues).mono
    fun v s₄ h => ?_
  obtain ⟨h₄, hv⟩ := h
  refine ⟨⟨h₃.toLeads.trans h₄.toLeads, h₄.line.trans h₃.line, fun pt hpt => ?_⟩,
    decl.ret, .written ?_, hv⟩
  · obtain ⟨pt', hpt', hall⟩ := (h₃.trans h₄).code pt hpt
    refine ⟨pt', hpt', fun S q hS hq => ?_⟩
    obtain ⟨_, hcode, hdef⟩ := hall S q hS hq
    have hprocs := ((h₃.session.trans h₄.session).functionProcs).trans hS.functionProcs
    exact .call hname hindex hg (getElem?_of_initial hprocs hproc) hcode hdef
  · exact h₄.represents (h₃.represents hfor.ret)

theorem LowersExpr.methodCall (ha : Supports p printName a) {receiver : Expr}
    {method class_ : String} {args : List Expr} {id : ClassId} {ref : MemberRef} {g : FunctionDecl}
    (hreceiver : LowersExpr p printName a names slots line receiver (.written (.class_ class_)))
    (htype : TypeNoted p a.findings receiver.id (.written (.class_ class_)))
    (hid : p.classId? class_ = some id) (href : p.methodRef? id method = some ref)
    (hg : methodDecl? p ref = some g)
    (hargs : LowersArgs p printName a names slots line args (g.params.map (·.ty))) {m : Mark}
    (hnoted : a.findings.calls.get? m.id = some (.method ref)) :
    LowersExpr p printName a names slots line (.methodCall m receiver method args)
      (.written g.returnType) := by
  intro s hs
  have hcallee : a.callee? m.id = some (.method ref) := hnoted
  obtain ⟨slot, hslot, hlt⟩ := ha.slot_of_methodRef? href
  rw [rvalue, hcallee]
  refine (hreceiver s hs).bind fun object s₁ h => ?_
  obtain ⟨h₁, hobject⟩ := h
  have hs₁ := h₁.holds hs
  have hty := hobject.object hs₁.ready hid
  refine (Lower.yields_nullCheck hs₁ hty m.pos).bind fun _ s₂ h₂ => ?_
  have hs₂ := h₂.holds hs₁
  refine (Lower.yields_read (yields_callTarget hs₂.ready htype hid href hg hslot)).bind
    fun r s₃ h => ?_
  obtain ⟨rfl, proc, name, fields, rfl, hproc, hfor, hparams, hfields⟩ := h
  obtain ⟨index, hindex, hget⟩ := hproc.found
  -- The receiver is cast to the class that declares the method: its procedure takes that one.
  have hthisTy : (Ir.Ty.ptr (.struct (2 * ref.class_))).Within s₃.session.ir := by
    have h := (Ir.Ty.within_proc.1
      (hs₂.ready.typed.ir.procs proc (List.mem_of_getElem? hget)).signature).2
    rw [hparams] at h
    exact h _ List.mem_cons_self
  dsimp only
  refine (Lower.yields_cast hs₂ (h₂.hasTy hty) (.inr ⟨.inr ⟨_, rfl⟩, _, rfl⟩) hthisTy).bind
    fun this s₄ h => ?_
  obtain ⟨h₄, hthis⟩ := h
  have hs₄ := h₄.holds hs₂
  refine (hargs s₄ _ hs₄ (represents_params (hfields.imp fun _ _ h => h.mono h₄.session.grows))).bind
    fun values s₅ h => ?_
  obtain ⟨h₅, hvalues⟩ := h
  have h₄₅ := h₄.toLeads.trans h₅.toLeads
  have hall : List.Forall₂ s₅.HasTy (this :: values) (proc.params.map (·.ty)) := by
    rw [hparams]
    exact .cons (h₅.hasTy hthis) hvalues
  refine (Lower.yields_dispatch (h₅.holds hs₄) (h₄₅.hasTy (h₂.hasTy hty))
    (Source.Program.classId?_lt hid) hslot hlt (hproc.mono h₄₅.session) hall).mono
      fun v s₆ h => ?_
  obtain ⟨h₆, hv⟩ := h
  refine ⟨((((h₁.trans h₂).trans h₄).trans h₅).trans h₆).mono ?_, proc.ret,
    .written (h₆.represents (h₄₅.represents hfor.ret)), hv⟩
  rintro S q pt pt' ⟨_, ⟨_, ⟨_, ⟨_, k₁, k₂⟩, k₃⟩, k₄⟩, k₅⟩
  exact .methodCall k₁ k₂ hid href hg hslot hlt k₃ k₄ k₅

/-! ## Allocations -/

theorem LowersExpr.newObject (ha : Supports p printName a) {class_ : String} {id : ClassId}
    (hid : p.classId? class_ = some id) (m : Mark) :
    LowersExpr p printName a names slots line (.newObject m class_)
      (.written (.class_ class_)) := by
  intro s hs
  have hlookup : a.classes.lookup class_ = some id := by rw [ha.classes.lookup, hid]
  refine .lift_bind (orFault_ok hlookup) ?_
  refine (Lower.yields_session (P := fun proc s' => Lowered p a s s' (fun _ _ pt pt' => pt' = pt) ∧
    s'.session.classAllocators.get? id = some proc)
    ((yields_classAllocator ha hs.ready (Source.Program.classId?_lt hid)).mono
      fun proc session h => ⟨.of_session hs h.1 h.2.1, h.2.2⟩)).bind fun proc s₁ h => ?_
  obtain ⟨h₁, hproc⟩ := h
  have hs₁ := h₁.holds hs
  obtain ⟨-, -, q, values, hq, hparams, hret, -⟩ := hs₁.ready.objects id proc hproc
  have hargs : List.Forall₂ s₁.HasTy [] (q.params.map (·.ty)) := by
    rw [hparams]
    exact .nil
  refine (yields_callProc hs₁ "new_object" hq hargs).mono fun v s₂ h => ?_
  obtain ⟨h₂, hv⟩ := h
  refine ⟨⟨h₁.toLeads.trans h₂.toLeads, h₂.line.trans h₁.line, fun pt hpt => ?_⟩, q.ret,
    .written ?_, hv⟩
  · obtain ⟨pt', hpt', hall⟩ := (h₁.trans h₂).code pt hpt
    refine ⟨pt', hpt', fun S q hS hq => ?_⟩
    obtain ⟨_, rfl, hdef⟩ := hall S q hS hq
    have hallocators := (h₂.session.grows.trans hS).classAllocators
    exact .newObject hid (hallocators _ _ hproc) hdef
  · rw [hret]
    exact h₂.ready.represents_class.2 ⟨id, hid, rfl⟩

theorem LowersExpr.newArray (ha : Supports p printName a) {elem : TypeExpr} {size : Expr}
    (h : LowersExpr p printName a names slots line size (.written .int)) {m : Mark}
    (htype : TypeNoted p a.findings m.id (.written (.array elem))) :
    LowersExpr p printName a names slots line (.newArray m elem size)
      (.written (.array elem)) := by
  intro s hs
  obtain ⟨ty, helem, hd⟩ := newElem_ok htype
  refine .lift_bind helem ?_
  refine (h s hs).bind fun value s₁ h => ?_
  obtain ⟨h₁, hvalue⟩ := h
  have hs₁ := h₁.holds hs
  refine (Lower.yields_session (P := fun proc s' => Lowered p a s₁ s' (fun _ _ pt pt' => pt' = pt) ∧
    s'.session.arrayAllocators.get? ty = some proc)
    ((yields_arrayAllocator ha hs₁.ready hd).mono
      fun proc session h => ⟨.of_session hs₁ h.1 h.2.1, h.2.2⟩)).bind fun proc s₂ h => ?_
  obtain ⟨h₂, hproc⟩ := h
  have hs₂ := h₂.holds hs₁
  obtain ⟨-, q, elem', struct, hq, hd', hstruct, hparams, hret, -⟩ :=
    hs₂.ready.arrays ty proc hproc
  obtain rfl := hd.right_unique hd'
  have hargs : List.Forall₂ s₂.HasTy [value] (q.params.map (·.ty)) := by
    rw [hparams]
    exact .cons (h₂.hasTy hvalue.int) .nil
  refine (yields_callProc hs₂ "new_array" hq hargs).mono fun v s₃ h => ?_
  obtain ⟨h₃, hv⟩ := h
  refine ⟨⟨(h₁.toLeads.trans h₂.toLeads).trans h₃.toLeads, ?_, fun pt hpt => ?_⟩, q.ret,
    .written ?_, hv⟩
  · rw [h₃.line, h₂.line, h₁.line]
  · obtain ⟨pt', hpt', hall⟩ := ((h₁.trans h₂).trans h₃).code pt hpt
    refine ⟨pt', hpt', fun S q hS hq => ?_⟩
    obtain ⟨_, ⟨_, hsize, rfl⟩, hdef⟩ := hall S q hS hq
    have hallocators := (h₃.session.grows.trans hS).arrayAllocators
    exact .newArray hd hsize (hallocators _ _ hproc) hdef
  · rw [hret]
    exact .array hd (h₃.session.arrayStructs _ _ hstruct)

/-! ## Arguments -/

theorem LowersArgs.nil : LowersArgs p printName a names slots line [] [] := by
  intro s targets hs htargets
  cases htargets
  rw [castArgs]
  exact .pure ⟨(Lowered.refl hs).mono fun S q pt _ heq => heq ▸ .nil, .nil⟩
  simp

theorem LowersArgs.cons (ha : Supports p printName a) {arg : Expr} {args : List Expr}
    {found : ExprTy} {ty : TypeExpr} {tys : List TypeExpr}
    (h : LowersExpr p printName a names slots line arg found) (hfits : Fits p found (.written ty))
    (hrest : LowersArgs p printName a names slots line args tys) :
    LowersArgs p printName a names slots line (arg :: args) (ty :: tys) := by
  intro s targets hs htargets
  cases htargets with
  | cons htarget htargets =>
    refine (h s hs).bind fun value s₁ harg => ?_
    obtain ⟨h₁, hvalue⟩ := harg
    have hs₁ := h₁.holds hs
    refine (yields_castTo ha hs₁ hvalue (h₁.represents htarget) hfits).bind fun v s₂ hcast => ?_
    obtain ⟨h₂, hv⟩ := hcast
    have h₁₂ := h₁.toLeads.trans h₂.toLeads
    refine (hrest s₂ _ (h₂.holds hs₁) (htargets.imp fun _ _ h => h₁₂.represents h)).bind
      fun values s₃ hargs => ?_
    obtain ⟨h₃, hvalues⟩ := hargs
    refine .pure ⟨((h₁.trans h₂).trans h₃).mono ?_, .cons (h₃.hasTy hv) hvalues⟩
    rintro S q pt pt' ⟨_, ⟨_, harg, hcast⟩, hargs⟩
    exact .cons harg hfits hcast hargs

end Calls

/-! ## Every expression -/

section Trees

variable {p : Program} {printName : String} {a : Analysis} {names : Names}
variable {slots : Table NodeId Operand} {line : Nat}

mutual

/-- **Every noted expression is lowered** to its code. -/
theorem lowersExpr (ha : Supports p printName a) : (e : Expr) → {τ : ExprTy} →
    ExprNoted p printName a.findings names e τ → LowersExpr p printName a names slots line e τ
  | .int _ value, _, h => by
    cases h
    intro s hs
    exact .pure (.const hs ⟨_, .written .int, Ir.hasTy_int _⟩ fun _ _ _ => .int)
  | .bool _ value, _, h => by
    cases h
    intro s hs
    exact .pure (.const hs ⟨_, .written .bool, Ir.hasTy_bool _⟩ fun _ _ _ => .bool)
  | .null _, _, h => by
    cases h
    intro s hs
    exact .pure (.const hs ⟨_, .null, Ir.hasTy_null⟩ fun _ _ _ => .null)
  | .this m, _, h => by
    cases h with
    | this hthis => exact .this hthis m
  | .read m place, _, h => by
    cases h with
    | read h => exact (lowersPlace ha place h).read m
  | .arrayLength m array, _, h => by
    cases h with
    | arrayLength h => exact (lowersExpr ha array h).arrayLength m
  | .unary m op operand, _, h => by
    cases h with
    | minus h => exact (lowersExpr ha operand h).minus m
    | negate h => exact (lowersExpr ha operand h).negate m
  | .binary m op lhs rhs, _, h => by
    cases h with
    | arithmetic hop hl hr =>
      have hl := lowersExpr ha lhs hl
      have hr := lowersExpr ha rhs hr
      rcases hop with rfl | rfl | rfl | rfl
      · exact .plain rfl hl hr m
      · exact .plain rfl hl hr m
      · exact .plain rfl hl hr m
      · exact hl.div hr m
    | less hl hr => exact .plain rfl (lowersExpr ha lhs hl) (lowersExpr ha rhs hr) m
    | and hl hr => exact (lowersExpr ha lhs hl).and (lowersExpr ha rhs hr) m
    | equals hl hr hfits => exact .equals ha (lowersExpr ha lhs hl) (lowersExpr ha rhs hr) hfits m
  | .call m name args, _, h => by
    -- The one argument of a print is taken from the list, so that the recursion sees it.
    have hfirst {arg : Expr} {rest : List Expr} (heq : args = arg :: rest) {τ : ExprTy}
        (h : ExprNoted p printName a.findings names arg τ) :
        LowersExpr p printName a names slots line arg τ := by
      cases args with
      | nil => cases heq
      | cons e rest' =>
        obtain ⟨rfl, -⟩ := List.cons.inj heq
        exact lowersExpr ha e h
    cases h with
    | print hnoted h => exact (hfirst rfl h).print hnoted
    | call hname hnoted hindex hg hargs => exact .call hname hindex hg (lowersArgs ha args hargs) hnoted
  | .methodCall m receiver method args, _, h => by
    cases h with
    | methodCall hreceiver htype hnoted hid href hg hargs =>
      exact .methodCall ha (lowersExpr ha receiver hreceiver) htype hid href hg
        (lowersArgs ha args hargs) hnoted
  | .newObject m class_, _, h => by
    cases h with
    | newObject hid => exact .newObject ha hid m
  | .newArray m elem size, _, h => by
    cases h with
    | newArray htype h => exact .newArray ha (lowersExpr ha size h) htype

/-- **Every noted place is lowered** to its code. -/
theorem lowersPlace (ha : Supports p printName a) : (place : Place) → {ty : TypeExpr} →
    PlaceNoted p printName a.findings names place ty →
    LowersPlace p printName a names slots line place ty
  | .var m name, _, h => by
    cases h with
    | variable_ hvar hnoted => exact .variable_ hvar hnoted
    | ownField hvar hthis hid href hfield hnoted =>
      exact .ownField ha hvar hthis hid href hfield hnoted
  | .field m receiver name, _, h => by
    cases h with
    | field hreceiver hid href hfield hnoted =>
      exact .field ha (lowersExpr ha receiver hreceiver) (accessed?_of_noted hreceiver hid href) hid
        href hfield hnoted
  | .index m array index, _, h => by
    cases h with
    | index harray hindex => exact .index (lowersExpr ha array harray) (lowersExpr ha index hindex) m

/-- **All noted arguments are lowered** to their code. -/
theorem lowersArgs (ha : Supports p printName a) : (args : List Expr) → {tys : List TypeExpr} →
    ArgsNoted p printName a.findings names args tys →
    LowersArgs p printName a names slots line args tys
  | [], _, h => by cases h; exact .nil
  | arg :: args, _, h => by
    cases h with
    | cons harg hfits hargs => exact .cons ha (lowersExpr ha arg harg) hfits (lowersArgs ha args hargs)

end

end Trees

end ClassLang.Lowering
