import ClassLang.Proofs.Lowering.Calls
/-!
# Lowering — statements

Every statement that the analysis has noted is lowered to its code
(`lowersStmt`, `lowersStmts`). A branch or a loop makes blocks for later
(`Branched`, `Looped`), which stay blank while its parts are lowered, and
its parts are left for them (`Left`), unless a return has closed the block.
-/


namespace ClassLang.Lowering

open Source (NodeId TypeExpr Expr Place Stmt Block Program VarDecl)
open Semantics (lineOf lineAfter lineAfterAll)
open Typing (Analysis ExprTy Names Fits ExprNoted PlaceNoted StmtNoted StmtsNoted)
open Ir (Operand Proc Point BlockId Builder)
open Ir.Builder (Reserved)

section Statements

variable {p : Program} {printName : String} {a : Analysis} {names : Names}
variable {slots : Table NodeId Operand} {line : Nat} {s s' s'' : Body} {ret : TypeExpr}

/-! ## What statements rely on -/

variable (p a slots ret) in
/-- **What the statements of a body rely on**: the results have the type of
the procedure, and the variables that they declare have slots. -/
structure Body.Hosts (vars : List VarDecl) (s : Body) : Prop where
  ret : Represents p a s.session ret s.builder.ret
  slots : ∀ var ∈ vars, s.HasSlotFor p a slots var

theorem Leads.hosts {vars : List VarDecl} (h : Leads p a s s') (hs : s.Hosts p a slots ret vars) :
    s'.Hosts p a slots ret vars :=
  ⟨h.grows.into.ret ▸ h.represents hs.ret, fun var hvar => h.stores (hs.slots var hvar)⟩

theorem Body.Hosts.mono {vars vars' : List VarDecl} (hs : s.Hosts p a slots ret vars)
    (h : vars' ⊆ vars) : s.Hosts p a slots ret vars' :=
  ⟨hs.ret, fun var hvar => hs.slots var (h hvar)⟩

theorem Body.Holds.declare (hs : s.Holds p a names slots line) {var : VarDecl}
    (hvar : s.HasSlotFor p a slots var) : s.Holds p a (names.declare var) slots line :=
  ⟨hs.ready, hs.sound, hs.locals, hs.line, List.forall_mem_cons.2 ⟨hvar, hs.slots⟩, hs.this⟩

theorem Body.Holds.relined (hs : s.Holds p a names slots line) (n : Nat) :
    Body.Holds p a names slots n { s with line := n } :=
  ⟨hs.ready, hs.sound, hs.locals, rfl, hs.slots, hs.this⟩

theorem Leads.relined {n : Nat} (h : Leads p a { s with line := n } s') : Leads p a s s' :=
  ⟨h.session, h.ready, h.grows, h.locals, h.inMethod⟩

/-- A statement is entered. -/
theorem yields_enterStmt (hs : s.Holds p a names slots line) (comments : Bool) (stmt : Stmt) :
    Yields (enterStmt comments stmt) s fun _ s' =>
      Lowered p a { s with line := lineOf line stmt.pos } s' fun _ q => Commented q := by
  have hrelined := hs.relined (lineOf line stmt.pos)
  have hcomment : Yields (if comments = true then do
        let line := (← get).line
        Lower.emit fun _ => Emit.comment ("line " ++ toString line ++ ": " ++ describe stmt)
      else pure ()) { s with line := lineOf line stmt.pos } fun _ s' =>
        Lowered p a { s with line := lineOf line stmt.pos } s' fun _ q => Commented q := by
    cases comments with
    | false => exact .pure ((Lowered.refl hrelined).mono fun _ _ _ _ => .inl)
    | true =>
      refine .get_bind (Lower.yields_emit (.modify_last ?_))
      refine .of_emission hrelined ((Ir.Builder.emission_comment hs.sound _).mono ?_)
      exact fun q pt pt' ⟨hcomment, hpt⟩ => .inr ⟨⟨_, hcomment⟩, hpt⟩
  unfold enterStmt
  cases hpos : stmt.pos with
  | none =>
    have hline : ({ s with line := lineOf line stmt.pos } : Body) = s := by
      rw [lineOf, hpos, Option.map_none, Option.getD_none, ← hs.line]
    rw [hpos] at hline hcomment
    rw [hline] at hcomment ⊢
    exact hcomment
  | some pos =>
    rw [hpos] at hcomment
    exact .modify_bind hcomment

/-! ## Leaving a branch -/

variable (p a) in
/-- A part of a statement is left for the block `join`, and lowering goes on
in the block `next`. -/
structure Left (s₀ s : Body) (join next : BlockId) (s' : Body) : Prop where
  leads : Leads p a s₀ s'
  session : s'.session = s.session
  line : s'.line = s.line
  into : s.builder.Into s'.builder
  here : s'.builder.here? = some ⟨s.builder.temps.length, next, 0⟩
  jumps : ∀ q : Proc, q.Covers s'.builder → Leaves q s.builder.here? join
  reserved : ∀ other, Reserved s₀.builder.blocks.length s.builder other → next ≠ other →
    Reserved s₀.builder.blocks.length s'.builder other

theorem yields_leaveBranch {s₀ : Body} (h : Leads p a s₀ s) {join next : BlockId}
    (hjoin : s.builder.Target join)
    (hnext : Reserved s₀.builder.blocks.length s.builder next) :
    Yields (leaveBranch join next) s fun _ s' => Left p a s₀ s join next s' := by
  refine Lower.yields_emit ?_
  refine Yields.bind (P := fun _ b => b = if s.builder.isOpen then s.builder.terminate (.jump join)
    else s.builder) (.get_bind ?_) fun _ b hb => ?_
  · split
    · exact .modify_last rfl
    · exact .pure rfl
  refine .modify_last ?_
  cases hcurrent : s.builder.current with
  | some k =>
    rw [Ir.Builder.isOpen, hcurrent] at hb
    subst hb
    have hm := movesTo h.grows (Nat.le_refl _) hnext (.jump hjoin)
    refine ⟨⟨h.session, h.ready, hm.extends_, h.locals, h.inMethod⟩, rfl, rfl, hm.into, hm.here,
      fun q hq pt hpt => hm.ends hpt hq, fun other hother hne => hm.reserved hother hne⟩
  | none =>
    rw [Ir.Builder.isOpen, hcurrent] at hb
    subst hb
    have hE := Ir.Builder.Extends.switchTo (N := s₀.builder.blocks.length)
      (c := s₀.builder.current) h.grows.sound hnext.blank hnext.le
    refine ⟨⟨h.session, h.ready, Ir.Builder.Extends.trans h.grows hE, h.locals, h.inMethod⟩, rfl, rfl, hE.into,
      Ir.Builder.here?_switchTo hnext.blank, fun q _ pt hpt => ?_, fun other hother hne => ?_⟩
    · rw [Ir.Builder.here?, hcurrent] at hpt
      cases hpt
    · exact ⟨hother.blank, fun heq => hne (Option.some.inj heq), hother.pos, hother.le⟩

/-! ## Blocks for later -/

variable (p printName a names slots line) in
/-- Behind a condition: lowering goes on where it holds; the blocks `no` and
`join` are for later. -/
structure Branched (s : Body) (cond : Expr) (no join : BlockId) (s' : Body) : Prop where
  leads : Leads p a s s'
  atLine : s'.line = s.line
  noReserved : Reserved s.builder.blocks.length s'.builder no
  joinReserved : Reserved s.builder.blocks.length s'.builder join
  other : no ≠ join
  code : ∀ pt, s.builder.here? = some pt → ∃ v pt₁ yes, s'.builder.here? = some (pt₁.enter yes) ∧
    yes ≠ 0 ∧ ∀ (S : Session) (q : Proc), s'.session.Grows S → q.Covers s'.builder →
      ExprCode p printName a S q slots names line cond (.written .bool) pt v pt₁ ∧
        q.Ends pt₁ (.branch v yes no)

theorem yields_branchIf {cond : Expr}
    (hcond : LowersExpr p printName a names slots line cond (.written .bool))
    (hs : s.Holds p a names slots line) : Yields (branchIf a cond) s fun r s' =>
      Branched p printName a names slots line s cond r.1 r.2 s' := by
  refine (hcond s hs).bind fun v s₁ ⟨h₁, hv⟩ => ?_
  have hs₁ := h₁.holds hs
  refine Lower.yields_emit ?_
  refine yields_newBlock_bind hs₁.sound _ fun yes b₁ hyes => ?_
  refine yields_newBlock_bind hyes.grows.sound _ fun no b₂ hno => ?_
  refine yields_newBlock_bind hno.grows.sound _ fun join b₃ hjoin => ?_
  have hE := (hyes.grows.trans hno.grows).trans hjoin.grows
  have hyes₃ := (hyes.reserved.grows hno.grows).grows hjoin.grows
  have hno₃ := (hno.reserved.weaken hyes.grows.into.length_le).grows hjoin.grows
  have hjoin₃ := hjoin.reserved.weaken (hyes.grows.trans hno.grows).into.length_le
  refine yields_moveTo_bind (x := pure (no, join)) hE (Nat.le_refl _) hyes₃
    (.branch (Builder.HasTy.mono hv.bool (.refl _) hE.into) hyes₃.target hno₃.target)
      fun b₄ hm => .pure ?_
  have hle := h₁.grows.into.length_le
  refine ⟨h₁.toLeads.trans ⟨.refl _, h₁.ready, hm.extends_, rfl, rfl⟩, h₁.line,
    (hm.reserved hno₃ (hno.other hyes.reserved)).weaken hle,
    (hm.reserved hjoin₃ (hjoin.other (hyes.reserved.grows hno.grows))).weaken hle,
    hjoin.other hno.reserved, fun pt hpt => ?_⟩
  obtain ⟨pt₁, hpt₁, hcode⟩ := h₁.code pt hpt
  have hpt₃ := hjoin.here _ (hno.here _ (hyes.here _ hpt₁))
  refine ⟨v, pt₁, yes, ?_, hyes.reserved.pos, fun S q hS hq => ?_⟩
  · rw [hm.here, ← (hjoin.grows.sound.here hpt₃).2.1]
    rfl
  · exact ⟨hcode S q hS ((hE.into.trans hm.into).covers hq), hm.ends hpt₃ hq⟩

variable (p a) in
/-- At the head of a loop; the blocks `inside` and `exit` are for later. -/
structure Looped (s : Body) (head inside exit : BlockId) (s' : Body) : Prop where
  leads : Leads p a s s'
  atLine : s'.line = s.line
  headTarget : s'.builder.Target head
  insideReserved : Reserved s.builder.blocks.length s'.builder inside
  exitReserved : Reserved s.builder.blocks.length s'.builder exit
  other : inside ≠ exit
  code : ∀ pt, s.builder.here? = some pt → s'.builder.here? = some (pt.enter head) ∧
    ∀ q : Proc, q.Covers s'.builder → q.Ends pt (.jump head)

theorem yields_loopHead (hs : s.Holds p a names slots line) :
    Yields (Lower.emit fun _ => do
      let head ← Emit.newBlock "while_cond"
      let inside ← Emit.newBlock "while_body"
      let exit ← Emit.newBlock "while_end"
      Emit.terminate (.jump head)
      Emit.switchTo head
      return (head, inside, exit)) s fun r s' => Looped p a s r.1 r.2.1 r.2.2 s' := by
  refine Lower.yields_emit ?_
  refine yields_newBlock_bind hs.sound _ fun head b₁ hhead => ?_
  refine yields_newBlock_bind hhead.grows.sound _ fun inside b₂ hinside => ?_
  refine yields_newBlock_bind hinside.grows.sound _ fun exit b₃ hexit => ?_
  have hE := (hhead.grows.trans hinside.grows).trans hexit.grows
  have hhead₃ := (hhead.reserved.grows hinside.grows).grows hexit.grows
  have hinside₃ := (hinside.reserved.weaken hhead.grows.into.length_le).grows hexit.grows
  have hexit₃ := hexit.reserved.weaken (hhead.grows.trans hinside.grows).into.length_le
  refine yields_moveTo_bind (x := pure (head, inside, exit)) hE (Nat.le_refl _) hhead₃
    (.jump hhead₃.target) fun b₄ hm => .pure ?_
  refine ⟨⟨.refl _, hs.ready, hm.extends_, rfl, rfl⟩, rfl, hhead₃.target.mono hm.into,
    hm.reserved hinside₃ (hinside.other hhead.reserved),
    hm.reserved hexit₃ (hexit.other (hhead.reserved.grows hinside.grows)),
    hexit.other hinside.reserved, fun pt hpt => ?_⟩
  have hpt₃ := hexit.here _ (hinside.here _ (hhead.here _ hpt))
  refine ⟨?_, fun q hq => hm.ends hpt₃ hq⟩
  rw [hm.here, ← (hexit.grows.sound.here hpt₃).2.1]
  rfl

variable (p a) in
/-- Behind the condition of a loop, where its body is to be lowered. -/
structure Entered (s₀ s : Body) (v : Operand) (inside exit : BlockId) (s' : Body) : Prop where
  leads : Leads p a s₀ s'
  line : s'.line = s.line
  session : s'.session = s.session
  into : s.builder.Into s'.builder
  exitReserved : Reserved s₀.builder.blocks.length s'.builder exit
  code : ∀ pt, s.builder.here? = some pt → s'.builder.here? = some (pt.enter inside) ∧
    ∀ q : Proc, q.Covers s'.builder → q.Ends pt (.branch v inside exit)

theorem yields_loopBranch {s₀ : Body} (h : Leads p a s₀ s) {v : Operand} (hv : s.HasTy v .bool)
    {inside exit : BlockId} (hinside : Reserved s₀.builder.blocks.length s.builder inside)
    (hexit : Reserved s₀.builder.blocks.length s.builder exit) (hne : inside ≠ exit) :
    Yields (Lower.emit fun _ => do
      Emit.terminate (.branch v inside exit)
      Emit.switchTo inside) s fun _ s' => Entered p a s₀ s v inside exit s' := by
  refine Lower.yields_emit ?_
  refine yields_moveTo_bind (x := pure ()) h.grows (Nat.le_refl _) hinside
    (.branch hv hinside.target hexit.target) fun b hm => .pure ?_
  refine ⟨⟨h.session, h.ready, hm.extends_, h.locals, h.inMethod⟩, rfl, rfl, hm.into,
    hm.reserved hexit hne, fun pt hpt => ⟨?_, fun q hq => hm.ends hpt hq⟩⟩
  rw [hm.here, ← (h.grows.sound.here hpt).2.1]
  rfl

/-! ## The forms -/

variable (p printName a names slots ret) in
/-- A statement is lowered. -/
structure LoweredStmt (s : Body) (line : Nat) (stmt : Stmt) (behind : Names) (s' : Body) :
    Prop where
  leads : Leads p a s s'
  atLine : s'.line = lineAfter line stmt
  code : ∀ pt, s.builder.here? = some pt → ∀ (S : Session) (q : Proc), s'.session.Grows S →
    q.Covers s'.builder →
      StmtCode p printName a S q slots ret names line stmt behind pt s'.builder.here?

variable (p printName a names slots ret) in
/-- Statements in turn are lowered. -/
structure LoweredStmts (s : Body) (line : Nat) (stmts : List Stmt) (s' : Body) : Prop where
  leads : Leads p a s s'
  atLine : s'.line = lineAfterAll line stmts
  code : ∀ pt, s.builder.here? = some pt → ∀ (S : Session) (q : Proc), s'.session.Grows S →
    q.Covers s'.builder →
      StmtsCode p printName a S q slots ret names line stmts pt s'.builder.here?

variable (p printName a names slots ret) (comments : Bool) in
/-- Wherever the statement is lowered, it gets its code. -/
def LowersStmt (stmt : Stmt) (behind : Names) : Prop :=
  ∀ (line : Nat) (s : Body), s.Holds p a names slots line →
    s.Hosts p a slots ret stmt.varDecls → Yields (lowerStmt a comments stmt) s fun _ s' =>
      LoweredStmt p printName a names slots ret s line stmt behind s'

variable (p printName a names slots ret) (comments : Bool) in
/-- Wherever the statements are lowered, they get their code. -/
def LowersStmts (stmts : List Stmt) : Prop :=
  ∀ (line : Nat) (s : Body), s.Holds p a names slots line →
    s.Hosts p a slots ret (Source.listVarDecls stmts) →
    Yields (lowerStmts a comments stmts) s fun _ s' =>
      LoweredStmts p printName a names slots ret s line stmts s'

variable {comments : Bool}

/-- Expressions are lowered whatever the line is. -/
theorem LowersStmt.expr {value : Expr} {found : ExprTy}
    (h : ∀ line, LowersExpr p printName a names slots line value found) (pos : Option Pos) :
    LowersStmt p printName a names slots ret comments (.expr pos value) names := by
  intro line s hs _
  refine (yields_enterStmt hs comments _).bind fun _ s₁ h₁ => ?_
  have hs₁ := h₁.holds (hs.relined _)
  refine (h _ s₁ hs₁).bind fun v s₂ ⟨h₂, _⟩ => .pure ?_
  have h₁₂ := h₁.trans h₂
  refine ⟨h₁₂.toLeads.relined, h₁₂.line, fun pt hpt S q hS hq => ?_⟩
  obtain ⟨pt', hpt', hall⟩ := h₁₂.code pt hpt
  obtain ⟨_, hcomment, hcode⟩ := hall S q hS hq
  rw [hpt']
  exact .expr hcomment hcode

theorem LowersStmt.decl (ha : Supports p printName a) {var : VarDecl}
    (hty : Typing.Interned p a.findings var.ty) (hvar : names.var? var.name = none)
    (pos : Option Pos) :
    LowersStmt p printName a names slots ret comments (.decl pos var) (names.declare var) := by
  intro line s hs hh
  refine (yields_enterStmt hs comments _).bind fun _ s₁ h₁ => ?_
  have hs₁ := h₁.holds (hs.relined _)
  obtain ⟨slot, ty, hslot, hslotTy, hr⟩ := h₁.toLeads.stores (hh.slots var (List.mem_singleton_self _))
  refine Yields.bind (P := fun v s' => v = slot ∧ s' = s₁)
    (.get_bind (.lift (orFault_ok (by rw [hs₁.locals]; exact hslot)) ⟨rfl, rfl⟩)) fun v s₂ h => ?_
  obtain ⟨rfl, rfl⟩ := h
  refine (Lower.yields_session (P := fun target s' =>
    Lowered p a s₂ s' (fun _ _ pt pt' => pt' = pt) ∧ Represents p a s'.session var.ty target)
    ((yields_irTyOf ha.covers.table ha.classes.lookup hs₁.ready.typed hty).mono
      fun target session ⟨h, hr⟩ => ⟨.of_session hs₁ h.extends_ (hs₁.ready.retyped h), hr⟩)).bind
        fun target s₃ ⟨h₃, hr'⟩ => ?_
  obtain rfl := (h₃.represents hr).unique ha.covers.table hr'
  have hs₃ := h₃.holds hs₁
  refine (Lower.yields_emit (P := fun _ s' => Lowered p a s₃ s' fun _ q =>
    q.Stores v (defaultValue ty)) ?_).mono fun _ s₄ h₄ => ?_
  · exact (yields_storeDefault hs₃.sound (h₃.hasTy hslotTy) hr'.storable).mono
      fun _ b h => .of_emission hs₃ h
  have h₁₄ := (h₁.trans h₃).trans h₄
  refine ⟨h₁₄.toLeads.relined, h₁₄.line, fun pt hpt S q hS hq => ?_⟩
  obtain ⟨pt', hpt', hall⟩ := h₁₄.code pt hpt
  obtain ⟨_, ⟨_, hcomment, rfl⟩, hstore⟩ := hall S q hS hq
  rw [hpt', hr'.default] at *
  exact .decl hcomment hvar hslot hstore

theorem LowersStmt.assign (ha : Supports p printName a) {target : Place} {value : Expr}
    {ty : TypeExpr} {found : ExprTy}
    (htarget : ∀ line, LowersPlace p printName a names slots line target ty)
    (hvalue : ∀ line, LowersExpr p printName a names slots line value found)
    (hfits : Fits p found (.written ty)) (pos : Option Pos) :
    LowersStmt p printName a names slots ret comments (.assign pos target value) names := by
  intro line s hs _
  refine (yields_enterStmt hs comments _).bind fun _ s₁ h₁ => ?_
  have hs₁ := h₁.holds (hs.relined _)
  refine (htarget _ s₁ hs₁).bind fun addr s₂ ⟨h₂, ty', hr, haddr⟩ => ?_
  have hs₂ := h₂.holds hs₁
  refine (hvalue _ s₂ hs₂).bind fun v s₃ ⟨h₃, hv⟩ => ?_
  have hs₃ := h₃.holds hs₂
  refine (Lower.yields_emit (P := fun found s' => found = ty' ∧ s' = s₃)
    ((yields_pointee (h₃.hasTy haddr)).mono fun _ b h => ⟨h.1, by rw [h.2]⟩)).bind
      fun found' s₄ h => ?_
  obtain ⟨rfl, rfl⟩ := h
  refine (yields_castTo ha hs₃ hv (h₃.represents hr) hfits).bind fun v' s₅ ⟨h₅, hv'⟩ => ?_
  have hs₅ := h₅.holds hs₃
  refine (Lower.yields_emit (P := fun _ s' => Lowered p a s₅ s' fun _ q => q.Stores addr v')
    ?_).mono fun _ s₆ h₆ => ?_
  · exact (yields_store hs₅.sound (h₅.hasTy (h₃.hasTy haddr)) hv').mono
      fun _ b h => .of_emission hs₅ h
  have h₁₆ := (((h₁.trans h₂).trans h₃).trans h₅).trans h₆
  refine ⟨h₁₆.toLeads.relined, h₁₆.line, fun pt hpt S q hS hq => ?_⟩
  obtain ⟨pt', hpt', hall⟩ := h₁₆.code pt hpt
  obtain ⟨_, ⟨_, ⟨_, ⟨_, hcomment, hplace⟩, hexpr⟩, hcast⟩, hstore⟩ := hall S q hS hq
  rw [hpt']
  exact .assign hcomment hplace hexpr hfits hcast hstore

theorem LowersStmt.return_ (ha : Supports p printName a) {value : Expr} {found : ExprTy}
    (h : ∀ line, LowersExpr p printName a names slots line value found)
    (hfits : Fits p found (.written ret)) (pos : Option Pos) :
    LowersStmt p printName a names slots ret comments (.ret pos value) names := by
  intro line s hs hh
  refine (yields_enterStmt hs comments _).bind fun _ s₁ h₁ => ?_
  have hs₁ := h₁.holds (hs.relined _)
  refine (h _ s₁ hs₁).bind fun v s₂ ⟨h₂, hv⟩ => .get_bind ?_
  have hs₂ := h₂.holds hs₁
  have hret := ((h₁.trans h₂).toLeads.relined.hosts hh).ret
  refine (yields_castTo ha hs₂ hv hret hfits).bind fun v' s₃ ⟨h₃, hv'⟩ => ?_
  have hadmits : s₃.builder.Admits s₃.session.ir (.ret v') :=
    .ret (by rw [h₃.grows.into.ret]; exact hv')
  have h₁₃ := (h₁.trans h₂).trans h₃
  have hE := Ir.Builder.grows_terminate h₃.grows.sound hadmits
  refine Lower.yields_emit (yields_terminate ?_)
  refine ⟨h₁₃.toLeads.relined.trans ⟨.refl _, h₃.ready, hE, rfl, rfl⟩, h₁₃.line,
    fun pt hpt S q hS hq => ?_⟩
  obtain ⟨pt', hpt', hall⟩ := h₁₃.code pt hpt
  obtain ⟨_, ⟨_, hcomment, hexpr⟩, hcast⟩ := hall S q hS (hE.into.covers hq)
  exact .ret hcomment hexpr hfits hcast (Ir.Builder.ends_terminate h₃.grows.sound hpt' hq)

theorem LowersStmt.block {stmts : List Stmt} {bodyPos : Option Pos}
    (h : LowersStmts p printName a names slots ret comments stmts) (pos : Option Pos) :
    LowersStmt p printName a names slots ret comments (.block pos (.mk stmts bodyPos)) names := by
  intro line s hs hh
  rw [lowerStmt, lowerBlock]
  refine (yields_enterStmt hs comments _).bind fun _ s₁ h₁ => ?_
  have hs₁ := h₁.holds (hs.relined _)
  refine (h _ s₁ hs₁ (h₁.toLeads.relined.hosts hh)).mono fun _ s₂ h₂ => ?_
  refine ⟨h₁.toLeads.relined.trans h₂.leads, h₂.atLine, fun pt hpt S q hS hq => ?_⟩
  obtain ⟨pt₁, hpt₁, hcomment⟩ := h₁.code pt hpt
  exact .block (hcomment S q (h₂.leads.session.grows.trans hS) (h₂.leads.grows.into.covers hq))
    (h₂.code pt₁ hpt₁ S q hS hq)

/-- Behind a lowered statement, in the names that were in scope before it. -/
theorem LoweredStmt.holds {stmt : Stmt} {behind : Names}
    (h : LoweredStmt p printName a names slots ret s line stmt behind s')
    (hs : s.Holds p a names slots line) : s'.Holds p a names slots (lineAfter line stmt) :=
  h.atLine ▸ h.leads.holds hs

theorem LowersStmt.ifThen {cond : Expr} {body : Stmt} {inner : Names}
    (hcond : ∀ line, LowersExpr p printName a names slots line cond (.written .bool))
    (hbody : LowersStmt p printName a names slots ret comments body inner) (pos : Option Pos) :
    LowersStmt p printName a names slots ret comments (.ifThen pos cond body) names := by
  intro line s hs hh
  refine (yields_enterStmt hs comments _).bind fun _ s₁ h₁ => ?_
  have hs₁ := h₁.holds (hs.relined _)
  refine (yields_branchIf (hcond _) hs₁).bind fun ⟨no, join⟩ s₂ h₂ => ?_
  have hs₂ := h₂.leads.holds hs₁
  rw [h₂.atLine, hs₁.line] at hs₂
  have h₁₂ := h₁.toLeads.relined.trans h₂.leads
  refine (hbody _ s₂ hs₂ (h₁₂.hosts hh)).bind fun _ s₃ h₃ => ?_
  have h₂₃ := h₂.leads.trans h₃.leads
  have hjoin₃ := h₂.joinReserved.grows h₃.leads.grows
  refine (yields_leaveBranch h₂₃ hjoin₃.target (h₂.noReserved.grows h₃.leads.grows)).bind
    fun _ s₄ h₄ => ?_
  have hjoin₄ := h₄.reserved _ hjoin₃ h₂.other
  refine (yields_leaveBranch h₄.leads hjoin₄.target hjoin₄).mono fun _ s₅ h₅ => ?_
  refine ⟨h₁.toLeads.relined.trans h₅.leads, ?_, fun pt hpt S q hS hq => ?_⟩
  · rw [h₅.line, h₄.line, h₃.atLine]
    rfl
  -- The pieces of code, from the first to the last.
  have hq₄ := h₅.into.covers hq
  have hq₃ := h₄.into.covers hq₄
  have hq₂ := h₃.leads.grows.into.covers hq₃
  have hS₃ : s₃.session.Grows S := h₄.session ▸ h₅.session ▸ hS
  have hS₂ := h₃.leads.session.grows.trans hS₃
  have hS₁ := h₂.leads.session.grows.trans hS₂
  obtain ⟨pt₁, hpt₁, hcomment⟩ := h₁.code pt hpt
  obtain ⟨v, pt₂, yes, hpt₂, hyes, hbranch⟩ := h₂.code pt₁ hpt₁
  obtain ⟨hexpr, hends⟩ := hbranch S q hS₂ hq₂
  have hle : pt₂.temps ≤ s₃.builder.temps.length := by
    rw [show pt₂.temps = s₂.builder.temps.length from (hs₂.sound.here hpt₂).2.1]
    exact h₃.leads.grows.into.temps.length_le
  rw [h₅.here, ← show _ = s₄.builder.temps.length from (h₄.leads.grows.sound.here h₄.here).2.1]
  exact .ifThen (hcomment S q hS₁ (h₂.leads.grows.into.covers hq₂)) hexpr hends hyes
    h₂.noReserved.pos h₂.joinReserved.pos (h₃.code _ hpt₂ S q hS₃ hq₃) (h₄.jumps q hq₄)
    (h₅.jumps q hq _ h₄.here) hle

theorem LowersStmt.ifElse {cond : Expr} {yes no : Stmt} {inner inner' : Names}
    (hcond : ∀ line, LowersExpr p printName a names slots line cond (.written .bool))
    (hyes : LowersStmt p printName a names slots ret comments yes inner)
    (hno : LowersStmt p printName a names slots ret comments no inner') (pos : Option Pos) :
    LowersStmt p printName a names slots ret comments (.ifElse pos cond yes no) names := by
  intro line s hs hh
  refine (yields_enterStmt hs comments _).bind fun _ s₁ h₁ => ?_
  have hs₁ := h₁.holds (hs.relined _)
  refine (yields_branchIf (hcond _) hs₁).bind fun ⟨other, join⟩ s₂ h₂ => ?_
  have hs₂ := h₂.leads.holds hs₁
  rw [h₂.atLine, hs₁.line] at hs₂
  have h₁₂ := h₁.toLeads.relined.trans h₂.leads
  refine (hyes _ s₂ hs₂ ((h₁₂.hosts hh).mono (List.subset_append_left _ _))).bind
    fun _ s₃ h₃ => ?_
  have h₂₃ := h₂.leads.trans h₃.leads
  have hjoin₃ := h₂.joinReserved.grows h₃.leads.grows
  refine (yields_leaveBranch h₂₃ hjoin₃.target (h₂.noReserved.grows h₃.leads.grows)).bind
    fun _ s₄ h₄ => ?_
  have hs₄ := h₄.leads.holds hs₁
  rw [h₄.line, h₃.atLine] at hs₄
  have h₁₄ := h₁.toLeads.relined.trans h₄.leads
  refine (hno _ s₄ hs₄ ((h₁₄.hosts hh).mono (List.subset_append_right _ _))).bind
    fun _ s₅ h₅ => ?_
  have hjoin₅ := (h₄.reserved _ hjoin₃ h₂.other).grows h₅.leads.grows
  refine (yields_leaveBranch (h₄.leads.trans h₅.leads) hjoin₅.target hjoin₅).mono fun _ s₆ h₆ => ?_
  refine ⟨h₁.toLeads.relined.trans h₆.leads, ?_, fun pt hpt S q hS hq => ?_⟩
  · rw [h₆.line, h₅.atLine]
    rfl
  -- The pieces of code, from the first to the last.
  have hq₅ := h₆.into.covers hq
  have hq₄ := h₅.leads.grows.into.covers hq₅
  have hq₃ := h₄.into.covers hq₄
  have hq₂ := h₃.leads.grows.into.covers hq₃
  have hS₅ : s₅.session.Grows S := h₆.session ▸ hS
  have hS₃ : s₃.session.Grows S := h₄.session ▸ h₅.leads.session.grows.trans hS₅
  have hS₂ := h₃.leads.session.grows.trans hS₃
  have hS₁ := h₂.leads.session.grows.trans hS₂
  obtain ⟨pt₁, hpt₁, hcomment⟩ := h₁.code pt hpt
  obtain ⟨v, pt₂, first, hpt₂, hfirst, hbranch⟩ := h₂.code pt₁ hpt₁
  obtain ⟨hexpr, hends⟩ := hbranch S q hS₂ hq₂
  have hle : pt₂.temps ≤ s₃.builder.temps.length := by
    rw [show pt₂.temps = s₂.builder.temps.length from (hs₂.sound.here hpt₂).2.1]
    exact h₃.leads.grows.into.temps.length_le
  have hle' := Nat.le_trans hle (h₄.into.trans h₅.leads.grows.into).temps.length_le
  rw [h₆.here]
  exact .ifElse (hcomment S q hS₁ (h₂.leads.grows.into.covers hq₂)) hexpr hends hfirst
    h₂.noReserved.pos h₂.joinReserved.pos (h₃.code _ hpt₂ S q hS₃ hq₃) (h₄.jumps q hq₄) hle
    (h₅.code _ h₄.here S q hS₅ hq₅) (h₆.jumps q hq) hle'

theorem LowersStmt.loop {cond : Expr} {body : Stmt} {inner : Names}
    (hcond : ∀ line, LowersExpr p printName a names slots line cond (.written .bool))
    (hbody : LowersStmt p printName a names slots ret comments body inner) (pos : Option Pos) :
    LowersStmt p printName a names slots ret comments (.loop pos cond body) names := by
  intro line s hs hh
  refine (yields_enterStmt hs comments _).bind fun _ s₁ h₁ => ?_
  have hs₁ := h₁.holds (hs.relined _)
  refine (yields_loopHead hs₁).bind fun ⟨head, inside, exit⟩ s₂ h₂ => ?_
  have hs₂ := h₂.leads.holds hs₁
  rw [h₂.atLine, hs₁.line] at hs₂
  refine (hcond _ s₂ hs₂).bind fun v s₃ ⟨h₃, hv⟩ => ?_
  have h₂₃ := h₂.leads.trans h₃.toLeads
  refine (yields_loopBranch h₂₃ hv.bool (h₂.insideReserved.grows h₃.grows)
    (h₂.exitReserved.grows h₃.grows) h₂.other).bind fun _ s₄ h₄ => ?_
  have hs₄ := h₄.leads.holds hs₁
  rw [h₄.line, h₃.line, hs₂.line] at hs₄
  have h₁₄ := h₁.toLeads.relined.trans h₄.leads
  refine (hbody _ s₄ hs₄ (h₁₄.hosts hh)).bind fun _ s₅ h₅ => ?_
  have hhead := h₂.headTarget.mono
    ((h₃.grows.into.trans h₄.into).trans h₅.leads.grows.into)
  refine (yields_leaveBranch (h₄.leads.trans h₅.leads) hhead
    (h₄.exitReserved.grows h₅.leads.grows)).mono fun _ s₆ h₆ => ?_
  refine ⟨h₁.toLeads.relined.trans h₆.leads, ?_, fun pt hpt S q hS hq => ?_⟩
  · rw [h₆.line, h₅.atLine]
    rfl
  -- The pieces of code, from the first to the last.
  have hq₅ := h₆.into.covers hq
  have hq₄ := h₅.leads.grows.into.covers hq₅
  have hq₃ := h₄.into.covers hq₄
  have hq₂ := h₃.grows.into.covers hq₃
  have hS₅ : s₅.session.Grows S := h₆.session ▸ hS
  have hS₃ : s₃.session.Grows S := h₄.session ▸ h₅.leads.session.grows.trans hS₅
  have hS₁ := (h₂.leads.session.grows.trans h₃.session.grows).trans hS₃
  obtain ⟨pt₁, hpt₁, hcomment⟩ := h₁.code pt hpt
  obtain ⟨hpt₂, hjump⟩ := h₂.code pt₁ hpt₁
  obtain ⟨pt₃, hpt₃, hexpr⟩ := h₃.code _ hpt₂
  obtain ⟨hpt₄, hbranch⟩ := h₄.code pt₃ hpt₃
  have hle : pt₃.temps ≤ s₅.builder.temps.length := by
    rw [show pt₃.temps = s₃.builder.temps.length from (h₃.grows.sound.here hpt₃).2.1]
    exact (h₄.into.trans h₅.leads.grows.into).temps.length_le
  rw [h₆.here]
  exact .loop (hcomment S q hS₁ (h₂.leads.grows.into.covers hq₂)) (hjump q hq₂) h₂.headTarget.1
    h₂.insideReserved.pos h₂.exitReserved.pos (hexpr S q hS₃ hq₃) (hbranch q hq₄)
    (h₅.code _ hpt₄ S q hS₅ hq₅) (h₆.jumps q hq) hle

/-! ## Statements in turn -/

theorem LowersStmts.nil : LowersStmts p printName a names slots ret comments [] := by
  intro line s hs _
  refine .pure ⟨.refl hs, hs.line, fun pt hpt S q _ _ => ?_⟩
  rw [hpt]
  exact .nil

theorem LowersStmts.cons {stmt : Stmt} {rest : List Stmt} {behind : Names}
    (h : LowersStmt p printName a names slots ret comments stmt behind)
    (hrest : LowersStmts p printName a behind slots ret comments rest)
    (hbehind : ∀ {s : Body} {line : Nat}, s.Holds p a names slots line →
      (∀ var ∈ stmt.varDecls, s.HasSlotFor p a slots var) → s.Holds p a behind slots line) :
    LowersStmts p printName a names slots ret comments (stmt :: rest) := by
  intro line s hs hh
  have hfirst := hh.mono (List.subset_append_left stmt.varDecls _)
  refine (h line s hs hfirst).bind fun _ s₁ h₁ => ?_
  have hs₁ := hbehind (h₁.holds hs) (h₁.leads.hosts hfirst).slots
  have hsecond := (h₁.leads.hosts hh).mono (List.subset_append_right _ _)
  refine (hrest _ s₁ hs₁ hsecond).mono fun _ s₂ h₂ => ?_
  refine ⟨h₁.leads.trans h₂.leads, h₂.atLine, fun pt hpt S q hS hq => ?_⟩
  have hcode := h₁.code pt hpt S q (h₂.leads.session.grows.trans hS)
    (h₂.leads.grows.into.covers hq)
  cases hpt₁ : s₁.builder.here? with
  | none => exact .dead (hpt₁ ▸ hcode)
  | some pt₁ => exact .cons (hpt₁ ▸ hcode) (h₂.code pt₁ hpt₁ S q hS hq)

end Statements

/-! ## Every statement -/

section Trees

variable {p : Program} {printName : String} {a : Analysis} {slots : Table NodeId Operand}
variable {ret : TypeExpr} {comments : Bool}

/-- Behind a statement only the variable of a declaration is in scope
that was not before. -/
theorem StmtNoted.holds {names behind : Names} {stmt : Stmt}
    (h : StmtNoted p printName a.findings ret names stmt behind) {s : Body} {line : Nat}
    (hs : s.Holds p a names slots line)
    (hvars : ∀ var ∈ stmt.varDecls, s.HasSlotFor p a slots var) :
    s.Holds p a behind slots line := by
  cases h with
  | decl _ _ => exact hs.declare (hvars _ (List.mem_singleton_self _))
  | _ => exact hs

mutual

/-- **Every noted statement is lowered** to its code. -/
theorem lowersStmt (ha : Supports p printName a) : (stmt : Stmt) → {names behind : Names} →
    StmtNoted p printName a.findings ret names stmt behind →
    LowersStmt p printName a names slots ret comments stmt behind
  | .block pos (.mk stmts _), _, _, h => by
    cases h with
    | block h => exact .block (lowersStmts ha stmts h) pos
  | .decl pos var, _, _, h => by
    cases h with
    | decl hty hvar => exact .decl ha hty hvar pos
  | .assign pos target value, _, _, h => by
    cases h with
    | assign htarget hvalue hfits =>
      exact .assign ha (fun _ => lowersPlace ha target htarget) (fun _ => lowersExpr ha value hvalue)
        hfits pos
  | .expr pos value, _, _, h => by
    cases h with
    | expr h => exact .expr (fun _ => lowersExpr ha value h) pos
  | .ifThen pos cond body, _, _, h => by
    cases h with
    | ifThen hcond hbody =>
      exact .ifThen (fun _ => lowersExpr ha cond hcond) (lowersStmt ha body hbody) pos
  | .ifElse pos cond yes no, _, _, h => by
    cases h with
    | ifElse hcond hyes hno =>
      exact .ifElse (fun _ => lowersExpr ha cond hcond) (lowersStmt ha yes hyes)
        (lowersStmt ha no hno) pos
  | .loop pos cond body, _, _, h => by
    cases h with
    | loop hcond hbody =>
      exact .loop (fun _ => lowersExpr ha cond hcond) (lowersStmt ha body hbody) pos
  | .ret pos value, _, _, h => by
    cases h with
    | ret h hfits => exact .return_ ha (fun _ => lowersExpr ha value h) hfits pos

/-- **All noted statements in turn are lowered** to their code. -/
theorem lowersStmts (ha : Supports p printName a) : (stmts : List Stmt) → {names : Names} →
    StmtsNoted p printName a.findings ret names stmts →
    LowersStmts p printName a names slots ret comments stmts
  | [], _, _ => .nil
  | stmt :: rest, _, h => by
    cases h with
    | cons hstmt hrest =>
      exact .cons (lowersStmt ha stmt hstmt) (lowersStmts ha rest hrest) (StmtNoted.holds hstmt)

end

end Trees

end ClassLang.Lowering
