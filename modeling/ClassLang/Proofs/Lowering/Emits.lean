import ClassLang.Proofs.Lowering.Code
/-!
# Lowering — emitted code

What `Emit` computations add to a body: the pieces of code of
`Lowering.Code`, and temporaries with types. Emitting fails only where an
operand has no type or not the right one.
-/


namespace ClassLang

namespace Lowering

open Ir (Builder Operand Proc Point BlockId)
open Ir.Builder

variable {b : Builder} {p : Ir.Program} {ty : Ir.Ty}

/-! ## Instructions -/

/-- **An instruction with a result** of a type. -/
theorem yields_define (hs : b.Sound p) (name : String) {ty : Ir.Ty} {i : Ir.TempId → Ir.Instr}
    (hdst : ∀ d, (i d).dst? = some d) (hw : ty.Within p) (hi : b.Gives p ty i)
    (hslot : ∀ d d' ty', i d = .alloca d' ty' → b.current = some 0) {x : Emit Operand}
    (hx : x.run b = .ok (b.define name ty i)) :
    Yields x b fun v b' =>
      Emission p b b' (fun q pt pt' => q.Defines i pt v pt') ∧ b'.HasTy p v ty := by
  refine ⟨.temp b.temps.length, (b.define name ty i).2, hx, ?_, ?_⟩
  · have h := emission_define hs name hdst hw hi hslot
    refine ⟨h.grows, fun pt hpt => ?_⟩
    obtain ⟨pt', hpt', hall⟩ := h.code pt hpt
    exact ⟨pt', hpt', fun q hq => ⟨(hall q hq).1, by rw [(hs.here hpt).2.1], (hall q hq).2⟩⟩
  · have htemps : (b.insertion.2.temps) = b.temps :=
      (insertion_open hs b.inside_self (Nat.le_refl _)).2.1
    refine Ir.hasTy_temp.2 ⟨⟨⟨name, ty⟩, ?_, rfl⟩, hw⟩
    rw [define_eq, Builder.add, htemps]
    simp

theorem within_resultTy (op : Ir.BinOp) : op.resultTy.Within p := by
  cases op <;> simp [Ir.BinOp.resultTy, Ir.Ty.Within, Ir.Ty.structs]

/-- An operation on integers. -/
theorem yields_ints (hs : b.Sound p) (name : String) {op : Ir.BinOp} {lhs rhs : Operand}
    (hop : op = .add ∨ op = .sub ∨ op = .mul ∨ op = .div ∨ op = .lt) (hl : b.HasTy p lhs .int)
    (hr : b.HasTy p rhs .int) : Yields (Emit.binary name op lhs rhs) b fun v b' =>
      Emission p b b' (fun q pt pt' => q.Defines (.binary · op lhs rhs) pt v pt') ∧
        b'.HasTy p v op.resultTy :=
  yields_define hs name (fun _ => rfl) (within_resultTy op)
    (fun _ hT hdst => .ints hop (hT _ _ hl) (hT _ _ hr) hdst) (by simp) rfl

/-- An operation on booleans. -/
theorem yields_bools (hs : b.Sound p) (name : String) {op : Ir.BinOp} {lhs rhs : Operand}
    (hop : op = .and ∨ op = .or) (hl : b.HasTy p lhs .bool) (hr : b.HasTy p rhs .bool) :
    Yields (Emit.binary name op lhs rhs) b fun v b' =>
      Emission p b b' (fun q pt pt' => q.Defines (.binary · op lhs rhs) pt v pt') ∧
        b'.HasTy p v .bool := by
  have hty : op.resultTy = .bool := by rcases hop with rfl | rfl <;> rfl
  refine hty ▸ yields_define hs name (fun _ => rfl) (within_resultTy op)
    (fun _ hT hdst => .bools hop (hT _ _ hl) (hT _ _ hr) (hty ▸ hdst)) (by simp) rfl

/-- A comparison of values of one type. -/
theorem yields_eq (hs : b.Sound p) (name : String) {lhs rhs : Operand} {ty : Ir.Ty}
    (hl : b.HasTy p lhs ty) (hr : b.HasTy p rhs ty) :
    Yields (Emit.binary name .eq lhs rhs) b fun v b' =>
      Emission p b b' (fun q pt pt' => q.Defines (.binary · .eq lhs rhs) pt v pt') ∧
        b'.HasTy p v .bool :=
  yields_define hs name (fun _ => rfl) Ir.Ty.within_bool
    (fun _ hT hdst => .eq (hT _ _ hl) (hT _ _ hr) hdst) (by simp) rfl

/-- A comparison with null. -/
theorem yields_eqNull (hs : b.Sound p) (name : String) {value : Operand} {ty : Ir.Ty}
    (h : b.HasTy p value (.ptr ty)) : Yields (Emit.binary name .eq value .null) b fun v b' =>
      Emission p b b' (fun q pt pt' => q.Defines (.binary · .eq value .null) pt v pt') ∧
        b'.HasTy p v .bool :=
  yields_define hs name (fun _ => rfl) Ir.Ty.within_bool
    (fun _ hT hdst => .eqNull (hT _ _ h) hdst) (by simp) rfl

/-- The type is that of null or of a pointer. -/
def Reference (ty : Ir.Ty) : Prop := ty = .null ∨ ∃ target, ty = .ptr target

theorem yields_bitcast (hs : b.Sound p) (name : String) {value : Operand} {source target : Ir.Ty}
    (h : b.HasTy p value source) (hsource : Reference source) (hw : target.Within p) :
    Yields (Emit.bitcast name value (.ptr target)) b fun v b' =>
      Emission p b b' (fun q pt pt' => q.Defines (.bitcast · value) pt v pt') ∧
        b'.HasTy p v (.ptr target) :=
  yields_define hs name (fun _ => rfl) (Ir.Ty.within_ptr.2 hw)
    (fun _ hT hdst => .bitcast (hT _ _ h) hsource hdst) (by simp) rfl

theorem yields_alloc (hs : b.Sound p) (name : String) {size : Operand}
    (h : b.HasTy p size .int) : Yields (Emit.alloc name size) b fun v b' =>
      Emission p b b' (fun q pt pt' => q.Defines (.alloc · size) pt v pt') ∧
        b'.HasTy p v (.ptr .byte) :=
  yields_define hs name (fun _ => rfl) (Ir.Ty.within_ptr.2 Ir.Ty.within_byte)
    (fun _ hT hdst => .alloc (hT _ _ h) hdst) (by simp) rfl

/-- A slot, in the entry block. -/
theorem yields_alloca (hs : b.Sound p) (hentry : b.current = some 0) (name : String)
    (hw : ty.Within p) : Yields (Emit.alloca name ty) b fun v b' =>
      (Emission p b b' (fun q pt pt' => q.Defines (.alloca · ty) pt v pt') ∧
        b'.HasTy p v (.ptr ty)) ∧ b'.current = some 0 :=
  (yields_define hs name (fun _ => rfl) (Ir.Ty.within_ptr.2 hw) (fun _ _ hdst => .alloca hdst)
    (fun _ _ _ _ => hentry) rfl).and
      ⟨_, _, rfl, current_emit (b := { b with temps := b.temps ++ [⟨name, .ptr ty⟩] }) hentry _⟩

theorem pointee_ok {addr : Operand} (h : b.HasTy p addr (.ptr ty)) : b.pointee p addr = .ok ty := by
  rw [pointee, typeOf, h.found]
  rfl

theorem yields_load (hs : b.Sound p) (name : String) {addr : Operand}
    (h : b.HasTy p addr (.ptr ty)) : Yields (Emit.load p name addr) b fun v b' =>
      Emission p b b' (fun q pt pt' => q.Defines (.load · addr) pt v pt') ∧ b'.HasTy p v ty := by
  refine yields_define hs name (fun _ => rfl) (Ir.Ty.within_ptr.1 h.within)
    (fun _ hT hdst => .load (hT _ _ h) hdst) (by simp) ?_
  show b.load p name addr = _
  rw [load, pointee_ok h]
  rfl

theorem yields_store (hs : b.Sound p) {addr value : Operand} (ha : b.HasTy p addr (.ptr ty))
    (hv : b.HasTy p value ty) : Yields (Emit.store addr value) b fun _ b' =>
      Emission p b b' fun q pt pt' => q.Stores addr value pt pt' :=
  .modify_last (emission_emit hs rfl (.store ha hv))

/-- The type of a variable, a field or an element. -/
def Storable (ty : Ir.Ty) : Prop := ty = .int ∨ ty = .bool ∨ ∃ target, ty = .ptr target

/-- The first value of a variable of a type is written to its slot. -/
theorem yields_storeDefault (hs : b.Sound p) {addr : Operand}
    (h : b.HasTy p addr (.ptr ty)) (hty : Storable ty) :
    Yields (Emit.store addr (defaultValue ty)) b fun _ b' =>
      Emission p b b' fun q pt pt' => q.Stores addr (defaultValue ty) pt pt' := by
  rcases hty with rfl | rfl | ⟨target, rfl⟩
  · exact yields_store hs h (Ir.hasTy_int _)
  · exact yields_store hs h (Ir.hasTy_bool _)
  · exact .modify_last (emission_emit hs rfl (.storeNull h))

theorem yields_print (hs : b.Sound p) {value : Operand} (h : b.HasTy p value .int) :
    Yields (Emit.print value) b fun _ b' =>
      Emission p b b' fun q pt pt' => q.At pt (.print value) ∧ pt' = pt.next :=
  .modify_last (emission_emit hs rfl (.print h))

theorem yields_entryAlloca (hs : b.Sound p) (name : String) (hw : ty.Within p) :
    Yields (Emit.entryAlloca name ty) b fun v b' =>
      Emission p b b' (fun q pt pt' => q.HasSlot ty pt pt' ∧ v = .temp pt.temps) ∧
        b'.HasTy p v (.ptr ty) := by
  refine ⟨_, _, rfl, ?_, Ir.hasTy_temp.2 ⟨⟨⟨name, .ptr ty⟩, ?_, rfl⟩, Ir.Ty.within_ptr.2 hw⟩⟩
  · have h := emission_entryAlloca hs name hw
    refine ⟨h.grows, fun pt hpt => ?_⟩
    obtain ⟨pt', hpt', hall⟩ := h.code pt hpt
    exact ⟨pt', hpt', fun q hq => ⟨hall q hq, by rw [(hs.here hpt).2.1]⟩⟩
  · simp [Builder.append]

/-- A procedure that an operand is gets called. -/
theorem yields_call (hs : b.Sound p) (name : String) {callee : Operand} {ret : Ir.Ty}
    {params : List Ir.Ty} (h : b.HasTy p callee (.proc ret params)) {args : List Operand}
    (hargs : List.Forall₂ (b.HasTy p) args params) :
    Yields (Emit.call p name callee args) b fun v b' =>
      Emission p b b' (fun q pt pt' => q.Defines (.call · callee args) pt v pt') ∧
        b'.HasTy p v ret := by
  refine yields_define hs name (fun _ => rfl) (Ir.Ty.within_proc.1 h.within).1
    (fun _ hT hdst => .call (hT _ _ h) (hargs.imp hT) hdst) (by simp) ?_
  show b.call p name callee args = _
  rw [call, typeOf, h.found]
  rfl

theorem selectTy_ok {struct : Ir.StructId} {decl : Ir.StructDef} {index : Nat} {field : Ir.Field}
    (hdecl : p.structs[struct]? = some decl) (hfield : decl.fields[index]? = some field)
    (hindex : index < 2 ^ 31) :
    selectTy p (.struct struct) (.int (.ofNat index)) = .ok field.ty := by
  have hint : (Int32.ofNat index).toInt = index := Int32.toInt_ofNat_of_lt hindex
  have hnonneg : ¬ Int32.ofNat index < 0 := by
    rw [Int32.lt_iff_toInt_lt, hint]
    simp
  unfold selectTy Ir.Program.struct
  simp only [find_ok hdecl, bind, Except.bind, if_neg hnonneg, hint, Int.toNat_natCast, hfield]
  rfl

/-- The address that indices select. -/
theorem yields_select (hs : b.Sound p) (name : String) {base : Operand} {rest : List Operand}
    {source target : Ir.Ty} (h : b.HasTy p base (.ptr source)) (hw : target.Within p)
    (hindices : ∀ index ∈ rest, b.HasTy p index .int)
    (hselect : rest.foldlM (selectTy p) source = .ok target) :
    Yields (Emit.elementPtr p name base (.int 0 :: rest)) b fun v b' =>
      Emission p b b' (fun q pt pt' =>
        q.Defines (.elementPtr · base (.int 0 :: rest)) pt v pt') ∧
        b'.HasTy p v (.ptr target) := by
  have hwithin : (Ir.Ty.ptr target).Within p := Ir.Ty.within_ptr.2 hw
  refine yields_define hs name (i := fun dst => .elementPtr dst base (.int 0 :: rest)) (fun _ => rfl)
    hwithin (fun _ hT hdst => .elementPtr (hT _ _ h) (hT _ _ (Ir.hasTy_int 0))
      (fun index hi => hT _ _ (hindices index hi)) hselect hdst) (by simp) ?_
  show b.elementPtr p name base (.int 0 :: rest) = _
  rw [elementPtr, pointee_ok h]
  show (List.foldlM (selectTy p) source rest >>= _) = _
  rw [hselect]
  rfl

/-- The address of a member. -/
theorem yields_member (hp : p.Typed) (hs : b.Sound p) (name : String) {base : Operand} {struct : Ir.StructId}
    {decl : Ir.StructDef} {index : Nat} {field : Ir.Field}
    (h : b.HasTy p base (.ptr (.struct struct))) (hdecl : p.structs[struct]? = some decl)
    (hfield : decl.fields[index]? = some field) (hindex : index < 2 ^ 31) :
    Yields (Emit.member p name base index) b fun v b' =>
      Emission p b b' (fun q pt pt' => q.Member base index pt v pt') ∧
        b'.HasTy p v (.ptr field.ty) := by
  have hw := hp.structs decl (List.mem_of_getElem? hdecl) field (List.mem_of_getElem? hfield)
  refine yields_select hs name h hw (fun index hi => ?_) ?_
  · exact List.mem_singleton.1 hi ▸ Ir.hasTy_int _
  · rw [List.foldlM_cons, selectTy_ok hdecl hfield hindex]
    rfl

/-- The address of an element. -/
theorem yields_elementPtr (hp : p.Typed) (hs : b.Sound p) (name : String) {base index : Operand}
    {struct : Ir.StructId} {decl : Ir.StructDef} {elem : Ir.Ty}
    (h : b.HasTy p base (.ptr (.struct struct))) (hdecl : p.structs[struct]? = some decl)
    (hfields : decl.fields = arrayFields elem) (hindex : b.HasTy p index .int) :
    Yields (Emit.elementPtr p name base [.int 0, .int 1, index]) b fun v b' =>
      Emission p b b' (fun q pt pt' =>
        q.Defines (.elementPtr · base [.int 0, .int 1, index]) pt v pt') ∧
        b'.HasTy p v (.ptr elem) := by
  have hdata : decl.fields[1]? = some ⟨"data", .array elem 0⟩ := by rw [hfields]; rfl
  have hw : elem.Within p := Ir.Ty.within_array.1
    (hp.structs decl (List.mem_of_getElem? hdecl) _ (List.mem_of_getElem? hdata))
  have hselect : selectTy p (.struct struct) (.int 1) = .ok (.array elem 0) :=
    selectTy_ok hdecl hdata (by decide)
  refine yields_select hs name h hw (List.forall_mem_cons.2 ⟨Ir.hasTy_int _, fun i hi => ?_⟩) ?_
  · exact List.mem_singleton.1 hi ▸ hindex
  · rw [List.foldlM_cons, hselect]
    rfl

theorem yields_typeOf {v : Operand} (h : b.HasTy p v ty) :
    Yields (Emit.typeOf p v) b fun found b' => found = ty ∧ b' = b := by
  refine ⟨ty, b, ?_, rfl, rfl⟩
  show (b.typeOf p v >>= _) = _
  rw [typeOf, h.found]
  rfl

theorem yields_pointee {addr : Operand} (h : b.HasTy p addr (.ptr ty)) :
    Yields (Emit.pointee p addr) b fun found b' => found = ty ∧ b' = b := by
  refine ⟨ty, b, ?_, rfl, rfl⟩
  show (b.pointee p addr >>= _) = _
  rw [pointee_ok h]
  rfl

/-- The value may be read as the type. -/
def Castable (found ty : Ir.Ty) : Prop :=
  found = ty ∨ (Reference found ∧ ∃ target, ty = .ptr target)

/-- A value is read as the type unless it has it. -/
theorem yields_cast (hs : b.Sound p) {value : Operand} {found : Ir.Ty} (h : b.HasTy p value found)
    (hcast : Castable found ty) (hw : ty.Within p) : Yields (Emit.cast p value ty) b fun v b' =>
      Emission p b b' (fun q pt pt' => q.Casts value pt v pt') ∧ b'.HasTy p v ty := by
  refine (yields_typeOf h).bind fun ty' b' hb' => ?_
  obtain ⟨rfl, rfl⟩ := hb'
  split
  next heq =>
    subst heq
    exact .pure ⟨(Emission.refl hs).mono fun q pt pt' hpt => .inl ⟨rfl, hpt⟩, h⟩
  next hne =>
    obtain ⟨href, target, rfl⟩ := hcast.resolve_left hne
    exact (yields_bitcast hs "cast" h href (Ir.Ty.within_ptr.1 hw)).mono fun v b' ⟨hcode, hty⟩ =>
      ⟨hcode.mono fun q pt pt' => .inr, hty⟩

/-! ## Blocks -/

theorem yields_terminate {t : Ir.Terminator} {P : PUnit → Builder → Prop}
    (h : P ⟨⟩ (b.terminate t)) : Yields (Emit.terminate t) b P := .modify_last h

/-- The second body has another block. -/
structure NewBlock (p : Ir.Program) (b b' : Builder) (k : BlockId) : Prop where
  grows : b.Grows p b'
  reserved : Reserved b.blocks.length b' k
  here : ∀ pt, b.here? = some pt → b'.here? = some pt
  other : ∀ {N other}, Reserved N b other → other ≠ k

theorem yields_newBlock_bind {α : Type} (hs : b.Sound p) (name : String) {k : BlockId → Emit α}
    {P : α → Builder → Prop} (h : ∀ x b', NewBlock p b b' x → Yields (k x) b' P) :
    Yields (Emit.newBlock name >>= k) b P := by
  refine h b.blocks.length (b.newBlock name).2 ⟨grows_newBlock hs name,
    reserved_newBlock hs (Nat.le_refl _) name, fun _ hpt => here?_newBlock hs hpt name,
    fun {N other} hother heq => ?_⟩
  obtain ⟨label, hlabel⟩ := hother.blank
  exact Nat.lt_irrefl _ (heq ▸ (List.getElem?_eq_some_iff.1 hlabel).1)

/-- A body ends its current block and goes on in a reserved one, while it
builds on `b₀`. -/
structure MovesTo (p : Ir.Program) (N : Nat) (c : Option BlockId) (b₀ b b' : Builder)
    (t : Ir.Terminator) (k : BlockId) : Prop where
  extends_ : b₀.Extends p N c b'
  into : b.Into b'
  here : b'.here? = some ⟨b.temps.length, k, 0⟩
  ends : ∀ {pt} {q : Proc}, b.here? = some pt → q.Covers b' → q.Ends pt t
  reserved : ∀ {other}, Reserved N b other → k ≠ other → Reserved N b' other

theorem movesTo {b₀ : Builder} {N : Nat} {c : Option BlockId} {k : BlockId} {t : Ir.Terminator}
    (hE : b₀.Extends p N c b) (hN : N ≤ b₀.blocks.length) (hk : Reserved N b k)
    (ht : b.Admits p t) : MovesTo p N c b₀ b (b.moveTo t k) t k :=
  ⟨hE.moveTo hN hk ht, into_moveTo hE.sound hk ht, here?_moveTo hE.sound hk ht,
    fun hpt hq => ends_moveTo hE.sound hpt hq, fun hother hne => hother.moveTo hE.sound hne ht⟩

theorem yields_moveTo_bind {α : Type} {b₀ : Builder} {N : Nat} {c : Option BlockId}
    {t : Ir.Terminator} {k : BlockId} {x : Emit α} {P : α → Builder → Prop}
    (hE : b₀.Extends p N c b) (hN : N ≤ b₀.blocks.length) (hk : Reserved N b k)
    (ht : b.Admits p t) (h : ∀ b', MovesTo p N c b₀ b b' t k → Yields x b' P) :
    Yields (Emit.terminate t >>= fun _ => Emit.switchTo k >>= fun _ => x) b P :=
  h (b.moveTo t k) (movesTo hE hN hk ht)

/-! ## Checks -/

/-- **A branch to a halt.** -/
theorem yields_haltIf (hs : b.Sound p) {cond : Operand} (hcond : b.HasTy p cond .bool)
    (fail ok message : String) : Yields (Emit.haltIf cond fail ok message) b fun _ b' =>
      Emission p b b' fun q => q.HaltsIf cond message := by
  refine yields_newBlock_bind hs _ fun failBlock b₁ hfail => ?_
  refine yields_newBlock_bind hfail.grows.sound _ fun okBlock b₂ hok => ?_
  have hE := hfail.grows.trans hok.grows
  have hok₂ := hok.reserved.weaken hfail.grows.into.length_le
  have hfail₂ := hfail.reserved.grows hok.grows
  refine yields_moveTo_bind hE (Nat.le_refl _) hfail₂
    (.branch (hcond.mono (.refl p) hE.into) hfail₂.target hok₂.target) fun b₃ h₃ => ?_
  refine yields_moveTo_bind (x := pure ()) h₃.extends_ (Nat.le_refl _)
    (h₃.reserved hok₂ (hok.other hfail.reserved)) .halt fun b₄ h₄ => .pure ?_
  refine ⟨h₄.extends_, fun pt hpt => ?_⟩
  have hpt₂ := hok.here _ (hfail.here _ hpt)
  have htemps := (hE.sound.here hpt₂).2.1
  refine ⟨pt.enter okBlock, ?_, fun q hq => ?_⟩
  · rw [h₄.here, (h₃.extends_.sound.here h₃.here).2.1.symm, ← htemps]
    rfl
  · have hhalt := h₄.ends h₃.here hq
    rw [← htemps] at hhalt
    exact .mk (h₃.ends hpt₂ (h₄.into.covers hq)) hhalt hfail.reserved.pos
      hok.reserved.pos

theorem yields_haltIfNull (hs : b.Sound p) {value : Operand} (h : b.HasTy p value (.ptr ty))
    (message : String) : Yields (Emit.haltIfNull value message) b fun _ b' =>
      Emission p b b' fun q => q.HaltsIfNull value message := by
  refine (yields_eqNull hs "is_null" h).bind fun isNull b₁ ⟨h₁, hnull⟩ => ?_
  refine (yields_haltIf h₁.grows.sound hnull "when_null" "not_null" message).mono fun _ b' h₂ => ?_
  exact (h₁.trans h₂).mono fun q pt pt' ⟨_, hdef, hhalt⟩ => .mk hdef hhalt

end Lowering

end ClassLang
