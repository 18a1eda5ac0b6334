import ClassLang.Proofs.Lowering.Statements
import ClassLang.Proofs.Source.Programs
/-!
# Lowering — functions and methods

The body of a function is lowered in a session that is ready, and leaves
one in which its procedure has the code of the function (`HasBody`,
`yields_lowerBody`). At its front every parameter and every local variable
gets a slot (`Prepared`).
-/


namespace ClassLang.Lowering

open Source (NodeId TypeExpr Stmt Program VarDecl FunctionDecl)
open Semantics (Fault lineOf)
open Typing (Analysis Names FunctionNoted Interned StmtNoted StmtsNoted)
open Ir (Operand Proc ProcId Point Builder)

section Functions

variable {p : Program} {printName : String} {a : Analysis} {s s' s'' : Body}

/-! ## Variables -/

mutual

/-- The types of the variables that a noted statement declares are interned. -/
theorem StmtNoted.interned {f : Typing.Findings} {ret : TypeExpr} : (stmt : Stmt) →
    {names behind : Names} → StmtNoted p printName f ret names stmt behind →
    ∀ var ∈ stmt.varDecls, Interned p f var.ty
  | .block _ (.mk stmts _), _, _, h => by
    cases h with
    | block h => exact StmtsNoted.interned stmts h
  | .decl _ var, _, _, h => by
    cases h with
    | decl hty _ => exact List.forall_mem_singleton.2 hty
  | .assign _ _ _, _, _, _ => List.forall_mem_nil _
  | .expr _ _, _, _, _ => List.forall_mem_nil _
  | .ifThen _ _ body, _, _, h => by
    cases h with
    | ifThen _ hbody => exact StmtNoted.interned body hbody
  | .ifElse _ _ yes no, _, _, h => by
    cases h with
    | ifElse _ hyes hno =>
      exact List.forall_mem_append.2 ⟨StmtNoted.interned yes hyes, StmtNoted.interned no hno⟩
  | .loop _ _ body, _, _, h => by
    cases h with
    | loop _ hbody => exact StmtNoted.interned body hbody
  | .ret _ _, _, _, _ => List.forall_mem_nil _

theorem StmtsNoted.interned {f : Typing.Findings} {ret : TypeExpr} : (stmts : List Stmt) →
    {names : Names} → StmtsNoted p printName f ret names stmts →
    ∀ var ∈ Source.listVarDecls stmts, Interned p f var.ty
  | [], _, _ => List.forall_mem_nil _
  | stmt :: rest, _, h => by
    cases h with
    | cons hstmt hrest =>
      exact List.forall_mem_append.2
        ⟨StmtNoted.interned stmt hstmt, StmtsNoted.interned rest hrest⟩

end

/-! ## Slots -/

variable (p a) in
/-- The variables get slots in the entry block; which code that is may depend
on the finished session and procedure, and on the slots of the finished
body. -/
structure Prepared (s : Body) (vars : List VarDecl) (s' : Body)
    (code : Session → Proc → Table NodeId Operand → Point → Point → Prop) : Prop where
  leads : Leads p a s { s' with locals := s.locals }
  line : s'.line = s.line
  entry : s'.builder.current = some 0
  others : ∀ id ∉ vars.map (·.id), s'.locals.get? id = s.locals.get? id
  slots : ∀ var ∈ vars, s'.HasSlotFor p a s'.locals var
  code : ∀ pt, s.builder.here? = some pt → ∃ pt', s'.builder.here? = some pt' ∧
    ∀ (S : Session) (q : Proc) (slots : Table NodeId Operand), s'.session.Grows S →
      q.Covers s'.builder → (∀ var ∈ vars, slots.get? var.id = s'.locals.get? var.id) →
        code S q slots pt pt'

namespace Prepared

variable {vars vars' : List VarDecl}
variable {code code' : Session → Proc → Table NodeId Operand → Point → Point → Prop}

theorem mono (h : Prepared p a s vars s' code)
    (hcode : ∀ S q slots pt pt', code S q slots pt pt' → code' S q slots pt pt') :
    Prepared p a s vars s' code' := by
  refine { h with code := fun pt hpt => ?_ }
  obtain ⟨pt', hpt', hall⟩ := h.code pt hpt
  exact ⟨pt', hpt', fun S q slots hS hq hslots => hcode _ _ _ _ _ (hall S q slots hS hq hslots)⟩

theorem refl (hready : s.session.Ready p a) (hsound : s.builder.Sound s.session.ir)
    (hentry : s.builder.current = some 0) :
    Prepared p a s [] s fun _ _ _ pt pt' => pt' = pt :=
  ⟨⟨.refl _, hready, .refl hsound, rfl, rfl⟩, rfl, hentry, fun _ _ => rfl, by simp,
    fun pt hpt => ⟨pt, hpt, fun _ _ _ _ _ _ => rfl⟩⟩

/-- **Slots stay**, as the variables have identities of their own. -/
theorem trans (h : Prepared p a s vars s' code) (h' : Prepared p a s' vars' s'' code')
    (hnodup : ((vars ++ vars').map (·.id)).Nodup) :
    Prepared p a s (vars ++ vars') s'' fun S q slots pt pt'' =>
      ∃ pt', code S q slots pt pt' ∧ code' S q slots pt' pt'' := by
  rw [List.map_append, List.nodup_append'] at hnodup
  have hkept : ∀ var ∈ vars, s''.locals.get? var.id = s'.locals.get? var.id := fun var hvar =>
    h'.others _ fun hmem => hnodup.2.2 (List.mem_map_of_mem hvar) hmem
  refine ⟨⟨h.leads.session.trans h'.leads.session, h'.leads.ready,
    (h.leads.grows.mono h'.leads.session.keeps).trans h'.leads.grows, rfl,
    h'.leads.inMethod.trans h.leads.inMethod⟩, h'.line.trans h.line, h'.entry, fun id hid => ?_,
    fun var hvar => ?_, fun pt hpt => ?_⟩
  · rw [List.map_append, List.mem_append, not_or] at hid
    rw [h'.others id hid.2, h.others id hid.1]
  · rcases List.mem_append.1 hvar with hvar | hvar
    · obtain ⟨slot, ty, hslot, hty, hr⟩ := h.slots var hvar
      exact ⟨slot, ty, by rw [hkept var hvar, hslot],
        hty.mono h'.leads.session h'.leads.grows.into, hr.mono h'.leads.session.grows⟩
    · exact h'.slots var hvar
  · obtain ⟨pt', hpt', hall⟩ := h.code pt hpt
    obtain ⟨pt'', hpt'', hall'⟩ := h'.code pt' hpt'
    refine ⟨pt'', hpt'', fun S q slots hS hq hslots => ⟨pt', hall S q slots
      (h'.leads.session.grows.trans hS) (h'.leads.grows.into.covers hq) fun var hvar => ?_,
      hall' S q slots hS hq fun var hvar => hslots var (List.mem_append_right _ hvar)⟩⟩
    rw [hslots var (List.mem_append_left _ hvar), hkept var hvar]

theorem ready (h : Prepared p a s vars s' code) : s'.session.Ready p a := h.leads.ready

theorem sound (h : Prepared p a s vars s' code) : s'.builder.Sound s'.session.ir :=
  h.leads.grows.sound

end Prepared

/-- **A variable gets a slot.** -/
theorem yields_makeSlot (ha : Supports p printName a) (hready : s.session.Ready p a)
    (hsound : s.builder.Sound s.session.ir) (hentry : s.builder.current = some 0) {var : VarDecl}
    (hvar : Interned p a.findings var.ty) : Yields (makeSlot a var) s fun slot s' =>
      Prepared p a s [var] s' (fun S q slots pt => VarCode p a S q slots var pt slot) ∧
        s'.locals.get? var.id = some slot := by
  refine (Lower.yields_session (P := fun target s' => s' = { s with session := s'.session } ∧
    s.session.Retyped p a s'.session ∧ Represents p a s'.session var.ty target)
    ((yields_irTyOf ha.covers.table ha.classes.lookup hready.typed hvar).mono
      fun _ _ ⟨h, hr⟩ => ⟨rfl, h, hr⟩)).bind fun target s₁ ⟨heq, h₁, hr⟩ => ?_
  have hsound₁ : s.builder.Sound s₁.session.ir := hsound.mono h₁.extends_.keeps
  generalize s₁.session = session at *
  subst heq
  refine (Lower.yields_emit (P := fun slot s' => s' = { s with
      session := session, builder := s'.builder } ∧
    (Ir.Builder.Emission session.ir s.builder s'.builder
      (fun q pt pt' => q.Defines (.alloca · target) pt slot pt') ∧
    s'.builder.HasTy session.ir slot (.ptr target)) ∧ s'.builder.current = some 0)
    ((yields_alloca hsound₁ hentry var.name (hr.within h₁.typed)).mono
      fun _ _ h => ⟨rfl, h⟩)).bind fun slot s₂ ⟨heq, ⟨h₂, hty⟩, hentry₂⟩ => ?_
  generalize s₂.builder = builder at *
  subst heq
  refine .modify_bind (.pure ⟨⟨⟨h₁.extends_, hready.retyped h₁, h₂.grows, rfl, rfl⟩, rfl,
    hentry₂, fun id hid => ?_, fun v hv => ?_, fun pt hpt => ?_⟩, Table.get?_insert_self _ _ _⟩)
  · exact Table.get?_insert_of_ne _ _ fun heq => hid (by simp [heq])
  · obtain rfl := List.mem_singleton.1 hv
    exact ⟨slot, target, Table.get?_insert_self _ _ _, hty, hr⟩
  · obtain ⟨pt', hpt', hall⟩ := h₂.code pt hpt
    refine ⟨pt', hpt', fun S q slots hS hq hslots => ⟨⟨target, hr.mono hS, hall q hq⟩, ?_⟩⟩
    rw [hslots var (List.mem_singleton_self _)]
    exact Table.get?_insert_self _ _ _

/-- A parameter is copied to a slot. -/
theorem yields_copyParam (ha : Supports p printName a) (hready : s.session.Ready p a)
    (hsound : s.builder.Sound s.session.ir) (hentry : s.builder.current = some 0)
    {param : VarDecl} {ty : Ir.Ty} (index : Nat)
    (hparam : Interned p a.findings param.ty) (hr : Represents p a s.session param.ty ty)
    (hty : s.HasTy (.param index) ty) {x : Lower Unit} {P : Unit → Body → Prop}
    (h : ∀ s', Prepared p a s [param] s' (fun S q slots pt pt' => ∃ slot pt₁,
      VarCode p a S q slots param pt slot pt₁ ∧ q.Stores slot (.param index) pt₁ pt') →
        Yields x s' P) :
    Yields (do
      let slot ← makeSlot a param
      Lower.emit fun _ => Emit.store slot (.param index)
      x) s P := by
  refine (yields_makeSlot ha hready hsound hentry hparam).bind fun slot s₁ ⟨h₁, hslot⟩ => ?_
  obtain ⟨slot', ty', hslot', hslotTy, hr'⟩ := h₁.slots param (List.mem_singleton_self _)
  obtain rfl := Option.some.inj (hslot.symm.trans hslot')
  obtain rfl := (hr.mono h₁.leads.session.grows).unique ha.covers.table hr'
  have hvalue : s₁.HasTy (.param index) ty := hty.mono h₁.leads.session h₁.leads.grows.into
  refine (Lower.yields_emit (P := fun _ s' => s' = { s₁ with builder := s'.builder } ∧
    (Ir.Builder.Emission s₁.session.ir s₁.builder s'.builder fun q =>
      q.Stores slot (.param index)) ∧ s'.builder.current = some 0)
    (((yields_store h₁.sound hslotTy hvalue).and
      (.modify_last (Ir.Builder.current_emit h₁.entry _))).mono fun _ _ h => ⟨rfl, h⟩)).bind
      fun _ s₂ ⟨heq, h₂, hentry₂⟩ => h s₂ ?_
  generalize s₂.builder = builder at *
  subst heq
  have hstore : Prepared p a s₁ [] { s₁ with builder := builder } fun _ q _ =>
      q.Stores slot (.param index) := by
    refine ⟨⟨.refl _, h₁.ready, h₂.grows, rfl, rfl⟩, rfl, hentry₂, fun _ _ => rfl, by simp, fun pt hpt => ?_⟩
    obtain ⟨pt', hpt', hall⟩ := h₂.code pt hpt
    exact ⟨pt', hpt', fun _ q _ _ hq _ => hall q hq⟩
  exact (h₁.trans hstore (by simp)).mono fun S q slots pt pt' ⟨pt₁, hvar, hcopy⟩ =>
    ⟨slot, pt₁, hvar, hcopy⟩

/-- **Every parameter is copied to a slot.** -/
theorem yields_copyParams (ha : Supports p printName a) (params : List VarDecl) (index : Nat)
    (hready : s.session.Ready p a) (hsound : s.builder.Sound s.session.ir)
    (hentry : s.builder.current = some 0)
    (hinterned : ∀ param ∈ params, Interned p a.findings param.ty)
    (htys : ∀ (i : Nat) param, params[i]? = some param →
      ∃ ty, Represents p a s.session param.ty ty ∧ s.HasTy (.param (index + i)) ty)
    (hnodup : (params.map (·.id)).Nodup) : Yields (copyParams a index params) s fun _ s' =>
      Prepared p a s params s' fun S q slots => ParamsCode p a S q slots index params := by
  induction params generalizing s index with
  | nil => exact .pure ((Prepared.refl hready hsound hentry).mono fun _ _ _ _ _ heq => heq ▸ .nil)
  | cons param rest ih =>
    rw [List.forall_mem_cons] at hinterned
    obtain ⟨ty, hr, hty⟩ := htys 0 param rfl
    refine yields_copyParam ha hready hsound hentry index hinterned.1 hr hty fun s₁ h₁ => ?_
    refine (ih (index + 1) h₁.ready h₁.sound h₁.entry hinterned.2 (fun i next hnext => ?_)
      (List.nodup_cons.1 hnodup).2).mono fun _ s₂ h₂ => ?_
    · obtain ⟨ty, hr, hty⟩ := htys (i + 1) next hnext
      rw [show index + 1 + i = index + (i + 1) by omega]
      exact ⟨ty, hr.mono h₁.leads.session.grows, hty.mono h₁.leads.session h₁.leads.grows.into⟩
    · refine (h₁.trans h₂ hnodup).mono fun S q slots pt pt' ⟨_, ⟨slot, _, hvar, hcopy⟩, hrest⟩ => ?_
      exact .cons hvar hcopy hrest

/-- **Every local variable gets a slot.** -/
theorem yields_makeSlots (ha : Supports p printName a) {vars : List VarDecl}
    (hready : s.session.Ready p a) (hsound : s.builder.Sound s.session.ir)
    (hentry : s.builder.current = some 0)
    (hinterned : ∀ var ∈ vars, Interned p a.findings var.ty) (hnodup : (vars.map (·.id)).Nodup) :
    Yields (makeSlots a vars) s fun _ s' =>
      Prepared p a s vars s' fun S q slots => LocalsCode p a S q slots vars := by
  induction vars generalizing s with
  | nil => exact .pure ((Prepared.refl hready hsound hentry).mono fun _ _ _ _ _ heq => heq ▸ .nil)
  | cons var rest ih =>
    rw [List.forall_mem_cons] at hinterned
    refine (yields_makeSlot ha hready hsound hentry hinterned.1).bind fun slot s₁ ⟨h₁, _⟩ => ?_
    refine (ih h₁.ready h₁.sound h₁.entry hinterned.2 (List.nodup_cons.1 hnodup).2).mono fun _ s₂ h₂ => ?_
    exact (h₁.trans h₂ hnodup).mono fun S q slots pt pt' ⟨_, hvar, hrest⟩ => .cons hvar hrest

/-! ## Bodies -/

variable (p) in
/-- How a function gets its receiver, if it is a method of a class: the
parameter. -/
inductive Receives : Option String → List Ir.Field → Prop
  | function : Receives none []
  | method {class_ id} : p.classId? class_ = some id → Receives (some class_) [thisParam id]

/-- The parameters of a procedure, behind that for the receiver. -/
theorem Receives.param {this? : Option String} {this fields : List Ir.Field}
    (h : Receives p this? this) (i : Nat) :
    (this ++ fields)[firstParam this? + i]? = fields[i]? := by
  cases h with
  | function => simp [firstParam]
  | method _ => simp [firstParam, Nat.add_comm 1]

/-- **The body of a function is lowered** to its code. -/
theorem yields_lowerFunction (ha : Supports p printName a) {session : Session}
    (hready : session.Ready p a) {this? : Option String} {this fields : List Ir.Field}
    (hthis : Receives p this? this) {f : FunctionDecl}
    (hnoted : FunctionNoted p printName a.findings this? f) (hsane : f.Sane) {ret : Ir.Ty}
    (hret : Represents p a session f.returnType ret)
    (hfields : List.Forall₂ (ParamFor p a session) f.params fields)
    (hwithin : ∀ field ∈ this ++ fields, field.ty.Within session.ir) (options : Options) :
    Yields (lowerFunction a options (firstParam this?) f)
      ⟨session, .start (this ++ fields) ret, [], this?.isSome, lineOf 0 f.pos⟩ fun _ s' =>
        session.Extends s'.session ∧ s'.session.Ready p a ∧
          (Builder.start (this ++ fields) ret).Grows s'.session.ir s'.builder ∧
          ∀ (S : Session) (q : Proc) (name : String), s'.session.Grows S → q.Covers s'.builder →
            (∀ pt, s'.builder.here? = some pt →
              q.Ends pt (.halt (Fault.missingReturn name).message)) →
            FunctionCode p printName a S q this? name f := by
  have hsound := Ir.Builder.sound_start session.ir (this ++ fields) ret
  have hnodup := hsane.vars
  rw [List.map_append, List.nodup_append'] at hnodup
  generalize hs₀ : (⟨session, .start (this ++ fields) ret, [], this?.isSome, lineOf 0 f.pos⟩ : Body) = s₀
  have hsession : s₀.session = session := by rw [← hs₀]
  have hstart : s₀.builder = .start (this ++ fields) ret := by rw [← hs₀]
  have hparam {i : Nat} {field : Ir.Field} (h : (this ++ fields)[i]? = some field) :
      s₀.HasTy (.param i) field.ty := by
    subst hs₀
    exact Ir.hasTy_param.2 ⟨⟨field, h, rfl⟩, hwithin _ (List.mem_of_getElem? h)⟩
  -- First the parameters are copied into slots, then the variables of the body get theirs.
  refine (yields_copyParams ha f.params _ (hs₀ ▸ hready) (hs₀ ▸ hsound) (hs₀ ▸ rfl)
    hnoted.paramTypes (fun i param hi => ?_) hnodup.1).bind fun _ s₁ h₁ => ?_
  · obtain ⟨field, hfield, hfor⟩ := getElem?_of_forall₂ hfields hi
    exact ⟨field.ty, hs₀ ▸ hfor.ty, hparam (by rw [hthis.param, hfield])⟩
  refine (yields_makeSlots ha h₁.ready h₁.sound h₁.entry (StmtsNoted.interned _ hnoted.body) hnodup.2.1).bind
    fun _ s₂ h₂ => ?_
  have h := h₁.trans h₂ hsane.vars
  have hline : s₂.line = lineOf 0 f.pos := by rw [h.line, ← hs₀]
  have hbuilder : s₂.builder.ret = ret := by rw [h.leads.grows.into.ret, ← hs₀]; rfl
  -- Now all names of the body have slots, and its statements can be lowered.
  have hs₂ : s₂.Holds p a ⟨this?, f.params.reverse⟩ s₂.locals (lineOf 0 f.pos) := by
    refine ⟨h.ready, h.sound, rfl, hline, fun var hvar => ?_, fun class_ hclass => ?_⟩
    · exact h.slots var (List.mem_append_left _ (List.mem_reverse.1 hvar))
    · have hin : s₂.inMethod = s₀.inMethod := h.leads.inMethod
      cases hthis with
      | function => cases hclass
      | @method _ id hid =>
        obtain rfl := Option.some.inj hclass
        refine ⟨by rw [hin, ← hs₀]; rfl, id, hid, ?_⟩
        exact (hparam (i := 0) rfl).mono h.leads.session h.leads.grows.into
  have hh₂ : s₂.Hosts p a s₂.locals f.returnType (Source.listVarDecls f.body.stmts) := by
    refine ⟨?_, fun var hvar => h.slots var (List.mem_append_right _ hvar)⟩
    rw [hbuilder]
    exact hret.mono (hsession ▸ h.leads.session.grows)
  have hblock : lowerBlock a options.comments f.body = lowerStmts a options.comments f.body.stmts := by
    cases f.body
    rw [lowerBlock, Source.Block.stmts]
  rw [hblock]
  refine (lowersStmts ha f.body.stmts hnoted.body _ s₂ hs₂ hh₂).mono fun _ s₃ h₃ => ?_
  refine ⟨hsession ▸ h.leads.session.trans h₃.leads.session, h₃.leads.ready, ?_,
    fun S q name hS hq hmissing => ?_⟩
  · exact hstart ▸ (h.leads.grows.mono h₃.leads.session.keeps).trans h₃.leads.grows
  -- The pieces of code stand one behind the other, from the start of the procedure.
  · obtain ⟨pt₂, hpt₂, hcode⟩ := h.code ⟨0, 0, 0⟩ (by rw [← hs₀]; rfl)
    obtain ⟨pt₁, hparams, hlocals⟩ := hcode S q s₂.locals (h₃.leads.session.grows.trans hS)
      (h₃.leads.grows.into.covers hq) fun _ _ => rfl
    exact .mk hparams hlocals (h₃.code pt₂ hpt₂ S q hS hq) hmissing

end Functions

end ClassLang.Lowering
