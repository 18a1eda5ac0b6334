import ClassLang.Lowering.Stmt
import ClassLang.Proofs.Lowering.Allocators
/-!
# Lowering — bodies

A body is lowered in a session that is ready, with a slot for every
variable in scope (`Body.Holds`). `Lowered` says of two bodies that the
second is the first with a piece of code added; the session may grow
meanwhile. Here are the pieces that several forms of expressions have in
common: the checks, and the addresses of members and elements.
-/


namespace ClassLang.Lowering

open Source (NodeId TypeExpr Program VarDecl)
open Semantics (Fault lineOf)
open Typing (Analysis ExprTy Names)
open Ir (Operand Proc Point Builder)
open Ir.Builder (Emission)

/-- The operand has the type in the body. -/
def Body.HasTy (s : Body) (v : Operand) (ty : Ir.Ty) : Prop := s.builder.HasTy s.session.ir v ty

/-- The variable has a slot of its type. -/
def Body.HasSlotFor (p : Program) (a : Analysis) (slots : Table NodeId Operand) (s : Body)
    (var : VarDecl) : Prop :=
  ∃ slot ty, slots.get? var.id = some slot ∧ s.HasTy slot (.ptr ty) ∧
    Represents p a s.session var.ty ty

/-- **What lowering relies on**: the session is ready, every variable has a
slot of its type, and a method its receiver. -/
structure Body.Holds (p : Program) (a : Analysis) (names : Names) (slots : Table NodeId Operand)
    (line : Nat) (s : Body) : Prop where
  ready : s.session.Ready p a
  sound : s.builder.Sound s.session.ir
  locals : s.locals = slots
  line : s.line = line
  slots : ∀ var ∈ names.vars, s.HasSlotFor p a slots var
  this : ∀ class_, names.this? = some class_ → s.inMethod = true ∧
    ∃ id, p.classId? class_ = some id ∧ s.HasTy (.param 0) (.ptr (.struct (2 * id)))

/-- **Lowering goes on** from the first body to the second. -/
structure Leads (p : Program) (a : Analysis) (s s' : Body) : Prop where
  session : s.session.Extends s'.session
  ready : s'.session.Ready p a
  grows : s.builder.Grows s'.session.ir s'.builder
  locals : s'.locals = s.locals
  inMethod : s'.inMethod = s.inMethod

/-- **A piece of code is added**: which code it is may depend on the
finished session and procedure. -/
structure Lowered (p : Program) (a : Analysis) (s s' : Body)
    (code : Session → Proc → Point → Point → Prop) : Prop extends Leads p a s s' where
  line : s'.line = s.line
  code : ∀ pt, s.builder.here? = some pt → ∃ pt', s'.builder.here? = some pt' ∧
    ∀ (S : Session) (q : Proc), s'.session.Grows S → q.Covers s'.builder → code S q pt pt'

section Framework

variable {p : Program} {a : Analysis} {names : Names} {slots : Table NodeId Operand} {line : Nat}
variable {s s' s'' : Body} {code code' : Session → Proc → Point → Point → Prop}

theorem Body.HasTy.mono {v : Operand} {ty : Ir.Ty} (h : s.HasTy v ty)
    (hsession : s.session.Extends s'.session) (hgrows : s.builder.Into s'.builder) :
    s'.HasTy v ty :=
  Builder.HasTy.mono h hsession.keeps hgrows

theorem Leads.refl (hs : s.Holds p a names slots line) : Leads p a s s :=
  ⟨.refl _, hs.ready, .refl hs.sound, rfl, rfl⟩

theorem Leads.trans (h : Leads p a s s') (h' : Leads p a s' s'') : Leads p a s s'' :=
  ⟨h.session.trans h'.session, h'.ready, (h.grows.mono h'.session.keeps).trans h'.grows,
    h'.locals.trans h.locals, h'.inMethod.trans h.inMethod⟩

theorem Leads.hasTy {v : Operand} {ty : Ir.Ty} (h : Leads p a s s') (hv : s.HasTy v ty) :
    s'.HasTy v ty :=
  hv.mono h.session h.grows.into

theorem Leads.represents {written : TypeExpr} {ty : Ir.Ty} (h : Leads p a s s')
    (hr : Represents p a s.session written ty) : Represents p a s'.session written ty :=
  hr.mono h.session.grows

theorem Leads.stores {var : VarDecl} (h : Leads p a s s') (hs : s.HasSlotFor p a slots var) :
    s'.HasSlotFor p a slots var := by
  obtain ⟨slot, ty, hslot, hty, hr⟩ := hs
  exact ⟨slot, ty, hslot, h.hasTy hty, h.represents hr⟩

theorem Leads.holds (h : Leads p a s s') (hs : s.Holds p a names slots line) :
    s'.Holds p a names slots s'.line := by
  refine ⟨h.ready, h.grows.sound, h.locals.trans hs.locals, rfl,
    fun var hvar => h.stores (hs.slots var hvar), fun class_ hclass => ?_⟩
  · obtain ⟨hin, id, hid, hty⟩ := hs.this class_ hclass
    exact ⟨h.inMethod.trans hin, id, hid, h.hasTy hty⟩

theorem Lowered.holds (h : Lowered p a s s' code) (hs : s.Holds p a names slots line) :
    s'.Holds p a names slots line :=
  hs.line ▸ h.line ▸ h.toLeads.holds hs

/-- Nothing is added. -/
theorem Lowered.refl (hs : s.Holds p a names slots line) : Lowered p a s s fun _ _ pt pt' => pt' = pt :=
  ⟨.refl hs, rfl, fun pt hpt => ⟨pt, hpt, fun _ _ _ _ => rfl⟩⟩

theorem Lowered.mono (h : Lowered p a s s' code)
    (hcode : ∀ S q pt pt', code S q pt pt' → code' S q pt pt') : Lowered p a s s' code' := by
  refine { h with code := fun pt hpt => ?_ }
  obtain ⟨pt', hpt', hall⟩ := h.code pt hpt
  exact ⟨pt', hpt', fun S q hS hq => hcode S q pt pt' (hall S q hS hq)⟩

/-- **Pieces in turn.** -/
theorem Lowered.trans (h : Lowered p a s s' code) (h' : Lowered p a s' s'' code') :
    Lowered p a s s'' fun S q pt pt'' => ∃ pt', code S q pt pt' ∧ code' S q pt' pt'' := by
  refine ⟨h.toLeads.trans h'.toLeads, h'.line.trans h.line, fun pt hpt => ?_⟩
  obtain ⟨pt', hpt', hall⟩ := h.code pt hpt
  obtain ⟨pt'', hpt'', hall'⟩ := h'.code pt' hpt'
  exact ⟨pt'', hpt'', fun S q hS hq => ⟨pt', hall S q (h'.session.grows.trans hS)
    (h'.grows.into.covers hq), hall' S q hS hq⟩⟩

/-- Code that does not depend on the session. -/
theorem Lowered.of_emission (hs : s.Holds p a names slots line) {b : Builder}
    {code : Proc → Point → Point → Prop} (h : Emission s.session.ir s.builder b code) :
    Lowered p a s { s with builder := b } fun _ => code := by
  refine ⟨⟨.refl _, hs.ready, h.grows, rfl, rfl⟩, rfl, fun pt hpt => ?_⟩
  obtain ⟨pt', hpt', hall⟩ := h.code pt hpt
  exact ⟨pt', hpt', fun S q _ hq => hall q hq⟩

/-- The session grows, and no code is added. -/
theorem Lowered.of_session (hs : s.Holds p a names slots line) {session : Session}
    (hsession : s.session.Extends session) (hready : session.Ready p a) :
    Lowered p a s { s with session := session } fun _ _ pt pt' => pt' = pt :=
  ⟨⟨hsession, hready, .refl (hs.sound.mono hsession.keeps), rfl, rfl⟩, rfl,
    fun pt hpt => ⟨pt, hpt, fun _ _ _ _ => rfl⟩⟩

end Framework

/-- Values of one type, or references both of them. -/
def Comparable (ty ty' : Ir.Ty) : Prop := ty = ty' ∨ (Reference ty ∧ Reference ty')

/-- The procedure in the slot of a method, of the nearest one in the class. -/
structure SlotProc (p : Program) (s : Session) (id : ClassId) (method : String) (ref : MemberRef)
    (proc : Proc) : Prop where
  nearest : p.methodRef? id method = some ref
  found : ∃ index, s.methodProcs.get? ref = some index ∧ s.ir.procs[index]? = some proc

namespace Lower

variable {p : Program} {a : Analysis} {names : Names} {slots : Table NodeId Operand} {line : Nat}
variable {s : Body}

/-- Code with a result. -/
theorem yields_code {α : Type} (hs : s.Holds p a names slots line) {x : Ir.Program → Emit α}
    {code : α → Proc → Point → Point → Prop} {P : α → Builder → Prop}
    (h : Yields (x s.session.ir) s.builder fun v b =>
      Emission s.session.ir s.builder b (code v) ∧ P v b) :
    Yields (emit x) s fun v s' => Lowered p a s s' (fun _ => code v) ∧ s'.session = s.session ∧
      P v s'.builder :=
  yields_emit (h.mono fun _ _ ⟨hcode, hP⟩ => ⟨.of_emission hs hcode, rfl, hP⟩)

/-- An instruction with a result that has a type. -/
theorem yields_operand (hs : s.Holds p a names slots line) {x : Ir.Program → Emit Operand}
    {c : Operand → Proc → Point → Point → Prop} {ty : Ir.Ty}
    (h : Yields (x s.session.ir) s.builder fun v b =>
      Emission s.session.ir s.builder b (c v) ∧ b.HasTy s.session.ir v ty) :
    Yields (emit x) s fun v s' => Lowered p a s s' (fun _ => c v) ∧ s'.HasTy v ty :=
  yields_emit (h.mono fun _ _ ⟨hcode, hty⟩ => ⟨.of_emission hs hcode, hty⟩)

theorem yields_lineOf (hs : s.Holds p a names slots line) {pos : Option Pos}
    {P : Nat → Body → Prop} (h : P (Semantics.lineOf line pos) s) : Yields (lineOf pos) s P := by
  refine .get_bind (.pure ?_)
  rw [hs.line]
  exact h

/-- What the session has, without changing it. -/
theorem yields_read {α : Type} {x : Build α} {P : α → Prop}
    (h : Yields x s.session fun v session => session = s.session ∧ P v) :
    Yields (session x) s fun v s' => s' = s ∧ P v :=
  yields_session (h.mono fun _ _ ⟨hs', hv⟩ => ⟨by rw [hs'], hv⟩)

/-! ## Pieces -/

/-- An operation on integers. -/
theorem yields_ints (hs : s.Holds p a names slots line) (name : String) {op : Ir.BinOp}
    {left right : Operand} (hop : op = .add ∨ op = .sub ∨ op = .mul ∨ op = .div ∨ op = .lt)
    (hl : s.HasTy left .int) (hr : s.HasTy right .int) :
    Yields (emit fun _ => Emit.binary name op left right) s fun v s' =>
      Lowered p a s s' (fun _ q pt pt' => q.Defines (.binary · op left right) pt v pt') ∧
        s'.HasTy v op.resultTy :=
  yields_operand hs (x := fun _ => Emit.binary name op left right)
    (Lowering.yields_ints hs.sound name hop hl hr)

theorem yields_nullCheck (hs : s.Holds p a names slots line) {value : Operand} {ty : Ir.Ty}
    (h : s.HasTy value (.ptr ty)) (pos : Option Pos) : Yields (nullCheck value pos) s fun _ s' => Lowered p a s s' fun _ q =>
      q.HaltsIfNull value (Fault.nullPointer (Semantics.lineOf line pos)).message := by
  refine (yields_lineOf hs (P := fun n s' => n = Semantics.lineOf line pos ∧ s' = s)
    ⟨rfl, rfl⟩).bind fun n s₁ hn => ?_
  obtain ⟨rfl, rfl⟩ := hn
  exact yields_emit ((yields_haltIfNull hs.sound h _).mono fun _ b h => .of_emission hs h)

theorem yields_cast (hs : s.Holds p a names slots line) {value : Operand} {found : Ir.Ty}
    (h : s.HasTy value found) {ty : Ir.Ty} (hcast : Castable found ty)
    (hw : ty.Within s.session.ir) : Yields (cast value ty) s fun v s' =>
      Lowered p a s s' (fun _ q pt pt' => q.Casts value pt v pt') ∧ s'.HasTy v ty :=
  yields_operand hs (Lowering.yields_cast hs.sound h hcast hw)

/-- The address of a field. -/
theorem yields_fieldAddr (hs : s.Holds p a names slots line) {object : Operand} {id : ClassId}
    (hobject : s.HasTy object (.ptr (.struct (2 * id)))) (hid : id < p.classes.length) {ref : MemberRef}
    {i : Nat} (href : (p.fieldRefs id)[i]? = some ref) (hi : i + 1 < 2 ^ 31) :
    Yields (fieldAddr object ref) s fun v s' =>
      Lowered p a s s' (fun _ q pt pt' => q.Member object (i + 1) pt v pt') ∧
        ∃ field ty, fieldDecl? p ref = some field ∧ Represents p a s'.session field.ty ty ∧
          s'.HasTy v (.ptr ty) := by
  obtain ⟨entries, fields, slots, hlaid⟩ := hs.ready.laid id hid
  obtain ⟨name, hinstance⟩ := hlaid.instance_
  obtain ⟨target, hfield, hfor⟩ := getElem?_of_forall₂ hlaid.fields href
  obtain ⟨field, hdecl, hr⟩ := hfor.decl
  have hslot : Yields (fieldSlot ref) s.session fun slot session =>
      session = s.session ∧ slot = i + 1 :=
    .get_bind (.lift (orFault_ok (hlaid.fieldSlots i ref href)) ⟨rfl, rfl⟩)
  refine (yields_read hslot).bind fun slot s₁ h => ?_
  obtain ⟨rfl, rfl⟩ := h
  refine (yields_code hs (yields_member hs.ready.typed.ir hs.sound "field" hobject hinstance hfield hi)).mono
    fun v s' ⟨hcode, hsession, hty⟩ => ⟨hcode, field, target.ty, hdecl, ?_, ?_⟩
  · rw [hsession]
    exact hr
  · rw [Body.HasTy, hsession]
    exact hty

/-- The length of an array. -/
theorem yields_arrayLength (hs : s.Holds p a names slots line) {array : Operand} {elem : TypeExpr}
    {target : Ir.Ty} (hr : Represents p a s.session (.array elem) target)
    (h : s.HasTy array target) : Yields (arrayLength array) s fun v s' =>
      Lowered p a s s' (fun _ q pt pt' => q.Length array pt v pt') ∧ s'.HasTy v .int := by
  obtain ⟨struct, rfl, inner, name, -, hdecl⟩ := hr.array_inv hs.ready.typed
  have hlength : (arrayFields inner)[0]? = some ⟨"length", .int⟩ := rfl
  refine yields_operand hs ?_
  refine (yields_member hs.ready.typed.ir hs.sound "length_addr" h hdecl hlength
    (by decide)).bind fun addr b₁ ⟨h₁, hty₁⟩ => ?_
  refine (yields_load h₁.grows.sound "length" hty₁).mono fun v b₂ ⟨h₂, hty₂⟩ => ⟨?_, hty₂⟩
  exact (h₁.trans h₂).mono fun q pt pt' ⟨_, hmember, hload⟩ => .mk hmember hload

/-- The address of an element. -/
theorem yields_elementAddr (hs : s.Holds p a names slots line) {array index : Operand}
    {elem : TypeExpr} {target : Ir.Ty} (hr : Represents p a s.session (.array elem) target)
    (h : s.HasTy array target) (hindex : s.HasTy index .int) (pos : Option Pos) :
    Yields (elementAddr array index pos) s fun v s' =>
      Lowered p a s s' (fun _ q pt pt' => q.Element array index
        (Fault.outOfBounds (Semantics.lineOf line pos)).message pt v pt') ∧
        ∃ ty, Represents p a s'.session elem ty ∧ s'.HasTy v (.ptr ty) := by
  refine (yields_arrayLength hs hr h).bind fun length s₁ ⟨h₁, hlength⟩ => ?_
  have hs₁ := h₁.holds hs
  obtain ⟨struct, rfl, inner, name, hinner, hdecl⟩ :=
    (hr.mono h₁.session.grows).array_inv hs₁.ready.typed
  refine (yields_lineOf hs₁ (P := fun n s' => n = Semantics.lineOf line pos ∧ s' = s₁)
    ⟨rfl, rfl⟩).bind fun n s₂ hn => ?_
  obtain ⟨rfl, rfl⟩ := hn
  have harray₀ : s₂.HasTy array _ := h₁.hasTy h
  have hindex₀ : s₂.HasTy index _ := h₁.hasTy hindex
  refine (yields_operand hs₁ (c := fun v q pt pt' => ∃ below pt₁ last pt₂ above pt₃ outside pt₄ pt₅,
    q.Defines (.binary · .lt index (.int 0)) pt below pt₁ ∧
    q.Defines (.binary · .sub length (.int 1)) pt₁ last pt₂ ∧
    q.Defines (.binary · .lt last index) pt₂ above pt₃ ∧
    q.Defines (.binary · .or below above) pt₃ outside pt₄ ∧
    q.HaltsIf outside (Fault.outOfBounds (Semantics.lineOf line pos)).message pt₄ pt₅ ∧
    q.Defines (.elementPtr · array [.int 0, .int 1, index]) pt₅ v pt') (?_)).mono
      fun v s₃ ⟨h₃, hty⟩ => ⟨(h₁.trans h₃).mono ?_, inner, hinner.mono h₃.session.grows, hty⟩
  · refine (Lowering.yields_ints hs₁.sound "below" (by simp) hindex₀ (Ir.hasTy_int _)).bind
      fun below b₁ ⟨c₁, hbelow⟩ => ?_
    refine (Lowering.yields_ints c₁.grows.sound "last" (by simp)
      (Builder.HasTy.mono hlength (.refl _) c₁.grows.into) (Ir.hasTy_int _)).bind
        fun last b₂ ⟨c₂, hlast⟩ => ?_
    refine (Lowering.yields_ints c₂.grows.sound "above" (by simp) hlast
      (Builder.HasTy.mono hindex₀ (.refl _) (c₁.trans c₂).grows.into)).bind
        fun above b₃ ⟨c₃, habove⟩ => ?_
    refine (yields_bools c₃.grows.sound "out_of_bounds" (by simp)
      (hbelow.mono (.refl _) (c₂.trans c₃).grows.into) habove).bind
        fun outside b₄ ⟨c₄, houtside⟩ => ?_
    refine (yields_haltIf c₄.grows.sound houtside "out_of_bounds" "in_bounds" _).bind
      fun _ b₅ c₅ => ?_
    have hc := (((c₁.trans c₂).trans c₃).trans c₄).trans c₅
    refine (yields_elementPtr hs₁.ready.typed.ir c₅.grows.sound "elem"
      (Builder.HasTy.mono harray₀ (.refl _) hc.grows.into) hdecl rfl
      (Builder.HasTy.mono hindex₀ (.refl _) hc.grows.into)).mono
        fun v b₆ ⟨c₆, hty⟩ => ⟨(hc.trans c₆).mono ?_, hty⟩
    rintro q pt pt' ⟨_, ⟨_, ⟨_, ⟨_, ⟨_, k₁, k₂⟩, k₃⟩, k₄⟩, k₅⟩, k₆⟩
    exact ⟨_, _, _, _, _, _, _, _, _, k₁, k₂, k₃, k₄, k₅, k₆⟩
  · rintro S q pt pt' ⟨_, k, _, _, _, _, _, _, _, _, _, k₁, k₂, k₃, k₄, k₅, k₆⟩
    exact .mk k k₁ k₂ k₃ k₄ k₅ k₆

/-- A quotient. -/
theorem yields_divide (hs : s.Holds p a names slots line) {left right : Operand}
    (hl : s.HasTy left .int) (hr : s.HasTy right .int) (pos : Option Pos) :
    Yields (divide left right pos) s fun v s' =>
      Lowered p a s s' (fun _ q pt pt' => q.Quotient left right
        (Fault.divisionByZero (Semantics.lineOf line pos)).message pt v pt') ∧ s'.HasTy v .int := by
  refine (yields_lineOf hs (P := fun n s' => n = Semantics.lineOf line pos ∧ s' = s)
    ⟨rfl, rfl⟩).bind fun n s₁ hn => ?_
  obtain ⟨rfl, rfl⟩ := hn
  refine yields_operand hs ?_
  refine (yields_eq hs.sound "is_zero" hr (Ir.hasTy_int _)).bind fun isZero b₁ ⟨h₁, hzero⟩ => ?_
  refine (yields_haltIf h₁.grows.sound hzero _ _ _).bind fun _ b₂ h₂ => ?_
  refine (yields_entryAlloca h₂.grows.sound "quotient" Ir.Ty.within_int).bind
    fun result b₃ ⟨h₃, hresult⟩ => ?_
  refine (yields_store h₃.grows.sound hresult (Ir.hasTy_int _)).bind fun _ b₄ h₄ => ?_
  have hE₄ := ((h₁.trans h₂).trans h₃).trans h₄
  refine (yields_eq h₄.grows.sound "is_minus_one" (Builder.HasTy.mono hr (.refl _) hE₄.grows.into)
    (Ir.hasTy_int _)).bind fun isMinusOne b₅ ⟨h₅, hminusOne⟩ => ?_
  refine (yields_eq h₅.grows.sound "is_min"
    (Builder.HasTy.mono hl (.refl _) (hE₄.trans h₅).grows.into) (Ir.hasTy_int _)).bind
      fun isMin b₆ ⟨h₆, hmin⟩ => ?_
  refine (yields_bools h₆.grows.sound "overflow" (by simp) hmin
    (hminusOne.mono (.refl _) h₆.grows.into)).bind fun overflow b₇ ⟨h₇, hoverflow⟩ => ?_
  have h₁ := ((hE₄.trans h₅).trans h₆).trans h₇
  refine yields_newBlock_bind h₇.grows.sound _ fun division c₁ hdivision => ?_
  refine yields_newBlock_bind hdivision.grows.sound _ fun done c₂ hdone => ?_
  have hE := hdivision.grows.trans hdone.grows
  have hdivision₂ := hdivision.reserved.grows hdone.grows
  have hdone₂ := hdone.reserved.weaken hdivision.grows.into.length_le
  have hne : division ≠ done := hdone.other hdivision.reserved
  refine yields_moveTo_bind hE (Nat.le_refl _) hdivision₂
    (.branch (hoverflow.mono (.refl _) hE.into) hdone₂.target hdivision₂.target) fun b₈ hm₈ => ?_
  have hdone₈ := hm₈.reserved hdone₂ hne
  have hE₈ := h₁.grows.into.trans hm₈.extends_.into
  refine (Lowering.yields_ints hm₈.extends_.sound "quotient" (by simp)
    (Builder.HasTy.mono hl (.refl _) hE₈) (Builder.HasTy.mono hr (.refl _) hE₈)).bind
      fun quotient b₉ ⟨h₉, hquotient⟩ => ?_
  have hresult₉ := hresult.mono (.refl _) ((((h₄.trans h₅).trans h₆).trans h₇).grows.into.trans
    (hm₈.extends_.into.trans h₉.grows.into))
  refine (yields_store h₉.grows.sound hresult₉ hquotient).bind fun _ b₁₀ h₁₀ => ?_
  have hresult₁₀ := hresult₉.mono (.refl _) h₁₀.grows.into
  have h₉ := h₉.trans h₁₀
  have hdone₁₀ := hdone₈.grows h₉.grows
  refine yields_moveTo_bind (hm₈.extends_.grows h₉.grows (Nat.le_refl _)) (Nat.le_refl _)
    hdone₁₀ (.jump hdone₁₀.target) fun b₁₁ hm₁₁ => ?_
  refine (yields_load hm₁₁.extends_.sound "quotient"
    (hresult₁₀.mono (.refl _) hm₁₁.into)).mono fun v b₁₂ ⟨h₁₂, hty⟩ =>
    ⟨⟨?_, fun pt hpt => ?_⟩, hty⟩
  · exact h₁.grows.trans (hm₁₁.extends_.grows h₁₂.grows (Nat.le_refl _))
  -- The pieces of code, from the last to the first.
  obtain ⟨pt₇, hpt₇, hfirst⟩ := h₁.code pt hpt
  obtain ⟨pt₁₀, hpt₁₀, hmiddle⟩ := h₉.code _ hm₈.here
  obtain ⟨pt₁₂, hpt₁₂, hlast⟩ := h₁₂.code _ hm₁₁.here
  refine ⟨pt₁₂, hpt₁₂, fun q hq => ?_⟩
  have hq₁₁ := h₁₂.grows.into.covers hq
  have hq₁₀ := hm₁₁.into.covers hq₁₁
  have hq₈ := h₉.grows.into.covers hq₁₀
  have hq₇ := (hE.into.trans hm₈.into).covers hq₈
  obtain ⟨_, ⟨_, ⟨_, ⟨_, ⟨_, ⟨_, c₁, c₂⟩, c₃, rfl⟩, c₄⟩, c₅⟩, c₆⟩, c₇⟩ := hfirst q hq₇
  obtain ⟨_, c₈, c₉⟩ := hmiddle q hq₁₀
  have hpt₇' := hdone.here _ (hdivision.here _ hpt₇)
  have c₁₀ := hlast q hq
  rw [← (hE.sound.here hpt₇').2.1] at c₈
  rw [← (h₉.grows.sound.here hpt₁₀).2.1] at c₁₀
  exact .mk c₁ c₂ c₃ c₄ c₅ c₆ c₇ (hm₈.ends hpt₇' hq₈) hdivision.reserved.pos hdone.reserved.pos c₈ c₉
    (hm₁₁.ends hpt₁₀ hq₁₁) c₁₀

/-- A comparison. -/
theorem yields_equals (hs : s.Holds p a names slots line) {left right : Operand}
    {leftTy rightTy : Ir.Ty} (hl : s.HasTy left leftTy) (hr : s.HasTy right rightTy)
    (h : Comparable leftTy rightTy) : Yields (equals left right) s fun v s' =>
      Lowered p a s s' (fun _ q pt pt' => q.Equality left right pt v pt') ∧ s'.HasTy v .bool := by
  refine yields_operand hs ?_
  refine (yields_typeOf hl).bind fun ty b h => ?_
  obtain ⟨rfl, rfl⟩ := h
  refine (yields_typeOf hr).bind fun ty' b h => ?_
  obtain ⟨rfl, rfl⟩ := h
  split
  next heq =>
    subst heq
    refine (yields_eq hs.sound "eq" hl hr).mono fun v b ⟨hcode, hty⟩ => ⟨?_, hty⟩
    exact hcode.mono fun q pt pt' hdef => .castLeft (.inl ⟨rfl, rfl⟩) hdef
  next hne =>
    obtain ⟨hleft, hright⟩ := h.resolve_left hne
    split
    next hnull =>
      have hptr := hright.resolve_left fun heq => hne (hnull.trans heq.symm)
      refine (Lowering.yields_cast hs.sound hl (.inr ⟨hleft, hptr⟩) hr.within).bind
        fun l b₁ ⟨h₁, hl₁⟩ => ?_
      refine (yields_eq h₁.grows.sound "eq" hl₁
        (Builder.HasTy.mono hr (.refl _) h₁.grows.into)).mono fun v b ⟨h₂, hty⟩ => ⟨?_, hty⟩
      exact (h₁.trans h₂).mono fun q pt pt' ⟨_, hcast, hdef⟩ => .castLeft hcast hdef
    next hnull =>
      have hptr := hleft.resolve_left hnull
      refine (Lowering.yields_cast hs.sound hr (.inr ⟨hright, hptr⟩) hl.within).bind
        fun r b₁ ⟨h₁, hr₁⟩ => ?_
      refine (yields_eq h₁.grows.sound "eq" (Builder.HasTy.mono hl (.refl _) h₁.grows.into)
        hr₁).mono fun v b ⟨h₂, hty⟩ => ⟨?_, hty⟩
      exact (h₁.trans h₂).mono fun q pt pt' ⟨_, hcast, hdef⟩ => .castRight hcast hdef

/-- A call through the slot of a vtable. -/
theorem yields_dispatch (hs : s.Holds p a names slots line) {object : Operand} {id : ClassId}
    (hobject : s.HasTy object (.ptr (.struct (2 * id)))) (hid : id < p.classes.length)
    {method : String} {slot : Nat} (hslot : (p.slotNames id)[slot]? = some method)
    (hlt : slot < 2 ^ 31) {ref : MemberRef} {proc : Proc}
    (hproc : SlotProc p s.session id method ref proc) {args : List Operand}
    (hargs : List.Forall₂ s.HasTy args (proc.params.map (·.ty))) :
    Yields (dispatch method object slot args) s fun v s' =>
      Lowered p a s s' (fun _ q pt pt' => q.Dispatch object slot args pt v pt') ∧
        s'.HasTy v proc.ret := by
  obtain ⟨entries, fields, slots, hlaid⟩ := hs.ready.laid id hid
  obtain ⟨name, hinstance⟩ := hlaid.instance_
  obtain ⟨vname, hvtable⟩ := hlaid.vtable
  obtain ⟨index, hindex, hget⟩ := hproc.found
  -- The entry of the slot, and its field in the struct of the vtable.
  rw [← hlaid.names, List.getElem?_map, Option.map_eq_some_iff] at hslot
  obtain ⟨⟨method, index'⟩, hentry, rfl⟩ := hslot
  obtain ⟨ref', href', hindex'⟩ := hlaid.procs _ (List.mem_of_getElem? hentry)
  obtain rfl := Option.some.inj (hproc.nearest.symm.trans href')
  obtain rfl := Option.some.inj (hindex.symm.trans hindex')
  obtain ⟨field, hfield, hfor⟩ := getElem?_of_forall₂ hlaid.slots hentry
  obtain ⟨proc', hget', hty⟩ := hfor.ty
  obtain rfl := Option.some.inj (hget.symm.trans hget')
  have hheader : (headerField id :: fields)[0]? = some (headerField id) := rfl
  have hp := hs.ready.typed.ir
  refine yields_operand hs ?_
  refine (yields_member hp hs.sound "vtable_addr" hobject hinstance hheader (by decide)).bind
    fun header b₁ ⟨h₁, hheader⟩ => ?_
  refine (yields_load h₁.grows.sound "vtable" hheader).bind fun vtable b₂ ⟨h₂, hty₂⟩ => ?_
  refine (yields_member hp h₂.grows.sound "method_addr" hty₂ hvtable hfield hlt).bind
    fun entry b₃ ⟨h₃, hty₃⟩ => ?_
  rw [hty] at hty₃
  refine (yields_load h₃.grows.sound "method" hty₃).bind fun target b₄ ⟨h₄, hty₄⟩ => ?_
  have hargs₄ := hargs.imp fun _ _ h => Builder.HasTy.mono h (.refl _)
    (((h₁.trans h₂).trans h₃).trans h₄).grows.into
  refine (yields_call h₄.grows.sound _ hty₄ hargs₄).mono fun v b₅ ⟨h₅, hv⟩ => ⟨?_, hv⟩
  refine ((((h₁.trans h₂).trans h₃).trans h₄).trans h₅).mono ?_
  rintro q pt pt' ⟨_, ⟨_, ⟨_, ⟨_, k₁, k₂⟩, k₃⟩, k₄⟩, k₅⟩
  exact .mk k₁ k₂ k₃ k₄ k₅

end Lower

end ClassLang.Lowering
