import ClassLang.Proofs.Lowering.Bodies
/-!
# Lowering — expressions

Every expression and every place that the analysis has noted is lowered,
and its code is that of `Lowering.Code` (`yields_rvalue`,
`yields_placeAddr`, `yields_castArgs`). Of the forms, one lemma each says
what is to be done once the parts are lowered; the recursion over the tree
puts them together.
-/


namespace ClassLang.Lowering

open Source (NodeId TypeExpr Expr Place Mark BinaryOp Program VarDecl FunctionDecl)
open Semantics (Fault staticType? placeType? fieldIn? accessed?)
open Typing (Analysis Denotes ExprTy Names Fits ExprNoted PlaceNoted ArgsNoted)
open Ir (Operand Proc Point)

/-! ## Static types -/

section StaticTypes

variable {p : Program} {printName : String} {f : Typing.Findings} {names : Names}

mutual

/-- The noted type is the one that tells hidden fields apart. -/
theorem staticType?_of_noted : (e : Expr) → {τ : ExprTy} → ExprNoted p printName f names e τ →
    staticType? p printName names e = some τ
  | .int _ _, _, h => by cases h; rfl
  | .bool _ _, _, h => by cases h; rfl
  | .null _, _, h => by cases h; rfl
  | .this _, _, h => by
    cases h with
    | this hthis => rw [staticType?, hthis, Option.map_some]
  | .read _ place, _, h => by
    cases h with
    | read h => rw [staticType?, placeType?_of_noted place h, Option.map_some]
  | .arrayLength _ _, _, h => by cases h; rfl
  | .unary _ _ _, _, h => by cases h <;> rfl
  | .binary _ _ _ _, _, h => by
    cases h with
    | arithmetic hop _ _ => rcases hop with rfl | rfl | rfl | rfl <;> rfl
    | less _ _ => rfl
    | and _ _ => rfl
    | equals _ _ _ => rfl
  | .call _ name _, _, h => by
    cases h with
    | print _ _ => simp [staticType?]
    | call hname _ hindex hg _ =>
      rw [staticType?, if_neg hname, Source.Program.function?_eq, hindex, Option.bind_some, hg,
        Option.map_some]
  | .methodCall _ receiver method _, _, h => by
    cases h with
    | methodCall hreceiver _ _ hid href hg _ =>
      rw [staticType?, staticType?_of_noted receiver hreceiver]
      dsimp only
      rw [Source.Program.visibleMethod?, hid, Option.bind_some, href, Option.bind_some, hg,
        Option.map_some]
  | .newObject _ _, _, h => by cases h; rfl
  | .newArray _ _ _, _, h => by cases h; rfl

theorem placeType?_of_noted : (place : Place) → {ty : TypeExpr} →
    PlaceNoted p printName f names place ty → placeType? p printName names place = some ty
  | .var _ _, _, h => by
    cases h with
    | variable_ hvar _ => rw [placeType?, hvar]
    | ownField hvar hthis hid href hfield _ =>
      rw [placeType?, hvar]
      dsimp only
      rw [hthis, Option.bind_some, fieldIn?, hid, Option.bind_some, href, Option.bind_some, hfield,
        Option.map_some]
  | .field _ receiver _, _, h => by
    cases h with
    | field hreceiver hid href hfield _ =>
      rw [placeType?, staticType?_of_noted receiver hreceiver]
      dsimp only
      rw [fieldIn?, hid, Option.bind_some, href, Option.bind_some, hfield, Option.map_some]
  | .index _ array _, _, h => by
    cases h with
    | index harray _ => rw [placeType?, staticType?_of_noted array harray]

end

theorem accessed?_of_noted {receiver : Expr} {name class_ : String} {id : ClassId} {ref : MemberRef}
    (h : ExprNoted p printName f names receiver (.written (.class_ class_)))
    (hid : p.classId? class_ = some id) (href : p.fieldRef? id name = some ref) :
    accessed? p printName names receiver name = some ref := by
  rw [accessed?, staticType?_of_noted receiver h]
  dsimp only
  rw [fieldIn?, hid, Option.bind_some, href]

end StaticTypes

/-! ## Types of objects -/

section Types

variable {p : Program} {printName : String} {a : Analysis} {s : Session}

/-- Objects are pointers to the struct of their class. -/
theorem Session.Ready.represents_class (hs : s.Ready p a) {name : String} {target : Ir.Ty} :
    Represents p a s (.class_ name) target ↔
      ∃ id, p.classId? name = some id ∧ target = .ptr (.struct (2 * id)) := by
  have hlayout {id : ClassId} (hid : p.classId? name = some id) :
      ∃ layout, s.classes[id]? = some layout ∧ layout.instance_ = 2 * id := by
    obtain ⟨_, _, _, hlaid⟩ := hs.laid id (Source.Program.classId?_lt hid)
    obtain ⟨c, -, hlayout⟩ := hlaid.layout
    exact ⟨_, hlayout, rfl⟩
  constructor
  · intro h
    cases h with
    | class_ hid hfound =>
      obtain ⟨layout, hlayout, hinstance⟩ := hlayout hid
      obtain rfl := Option.some.inj (hfound.symm.trans hlayout)
      exact ⟨_, hid, by rw [hinstance]⟩
  · rintro ⟨id, hid, rfl⟩
    obtain ⟨layout, hlayout, hinstance⟩ := hlayout hid
    rw [← hinstance]
    exact .class_ hid hlayout

theorem RepresentsExpr.class_inv (hs : s.Ready p a) {name : String} {target : Ir.Ty}
    (h : RepresentsExpr p a s (.written (.class_ name)) target) {id : ClassId}
    (hid : p.classId? name = some id) : target = .ptr (.struct (2 * id)) := by
  cases h with
  | written h =>
    obtain ⟨id', hid', rfl⟩ := hs.represents_class.1 h
    rw [Option.some.inj (hid.symm.trans hid')]

/-- Values of subtypes may be read as values of the type. -/
theorem castable_of_fits (ha : Supports p printName a) {τ : ExprTy} {ty : TypeExpr}
    {found target : Ir.Ty} (hfound : RepresentsExpr p a s τ found)
    (htarget : Represents p a s ty target) (h : Fits p τ (.written ty)) :
    Castable found target := by
  cases h with
  | refl =>
    cases hfound with
    | written hfound => exact .inl (hfound.unique ha.covers.table htarget)
  | class_ _ _ _ =>
    cases hfound with
    | written hfound =>
      cases hfound
      cases htarget
      exact .inr ⟨.inr ⟨_, rfl⟩, _, rfl⟩
  | nullClass =>
    cases hfound
    cases htarget
    exact .inr ⟨.inl rfl, _, rfl⟩
  | nullArray =>
    cases hfound
    cases htarget
    exact .inr ⟨.inl rfl, _, rfl⟩

/-- Values may be compared if one of their types is a subtype of the other. -/
theorem comparable_of_fits (ha : Supports p printName a) {τ τ' : ExprTy} {found found' : Ir.Ty}
    (hfound : RepresentsExpr p a s τ found) (hfound' : RepresentsExpr p a s τ' found')
    (h : Fits p τ τ') : Comparable found found' := by
  cases hfound' with
  | null =>
    cases h
    cases hfound
    exact .inl rfl
  | written hfound' =>
    refine (castable_of_fits ha hfound hfound' h).imp_right fun ⟨href, hptr⟩ => ⟨href, .inr hptr⟩

theorem Comparable.symm {ty ty' : Ir.Ty} (h : Comparable ty ty') :
    Comparable ty' ty :=
  h.imp Eq.symm And.symm

/-- The types of parameters are those of the parameters of the procedure. -/
theorem represents_params {params : List VarDecl} {fields : List Ir.Field}
    (h : List.Forall₂ (ParamFor p a s) params fields) :
    List.Forall₂ (Represents p a s) (params.map (·.ty)) (fields.map (·.ty)) := by
  rw [List.forall₂_map_left_iff, List.forall₂_map_right_iff]
  exact h.imp fun _ _ h => h.ty

/-- A procedure has the type of its signature. -/
theorem Session.Ready.hasTy_proc (hs : s.Ready p a) {id : Ir.ProcId} {decl : Proc}
    (h : s.ir.procs[id]? = some decl) {params temps : List Ir.Field} :
    Ir.HasTy s.ir params temps (.proc id) decl.signature :=
  Ir.hasTy_proc.2 ⟨⟨decl, h, rfl⟩, (hs.typed.ir.procs decl (List.mem_of_getElem? h)).signature⟩

/-- A declared method has its procedure. -/
theorem Session.Ready.method (hs : s.Ready p a) {ref : MemberRef} {g : FunctionDecl}
    (hg : methodDecl? p ref = some g) : ∃ proc, s.methodProcs.get? ref = some proc ∧
      ∃ decl, s.ir.procs[proc]? = some decl ∧
        ∃ name, ProcFor p a s name [thisParam ref.class_] g decl := by
  obtain ⟨c, hc, hm⟩ := Option.bind_eq_some_iff.1 hg
  obtain ⟨proc, hproc, decl, hdecl, hfor⟩ := hs.methods ref.class_ c hc ref.index g hm
  exact ⟨proc, hproc, decl, hdecl, _, hfor⟩

/-- A visible field has a place in the struct. -/
theorem Supports.place_of_fieldRef? (ha : Supports p printName a) {id : ClassId} {name : String}
    {ref : MemberRef} (hid : id < p.classes.length) (href : p.fieldRef? id name = some ref) :
    ∃ i, (p.fieldRefs id)[i]? = some ref ∧ i + 1 < 2 ^ 31 := by
  obtain ⟨field, hfield, -⟩ := Source.Program.exists_fieldDecl href
  have hmem := (Source.Program.mem_fieldRefs ha.sound.hierarchy.acyclic hid).2
    ⟨(Source.Program.memberRef?_eq_some href).1, field, hfield⟩
  obtain ⟨i, hi⟩ := List.mem_iff_getElem?.1 hmem
  have hlt := (List.getElem?_eq_some_iff.1 hi).1
  exact ⟨i, hi, Nat.lt_trans (Nat.succ_lt_succ hlt) (ha.fields id)⟩

/-- A visible method has a slot in the vtable. -/
theorem Supports.slot_of_methodRef? (ha : Supports p printName a) {id : ClassId} {name : String}
    {ref : MemberRef} (href : p.methodRef? id name = some ref) :
    ∃ slot, (p.slotNames id)[slot]? = some name ∧ slot < 2 ^ 31 := by
  obtain ⟨slot, hslot⟩ := List.mem_iff_getElem?.1
    (Source.Program.mem_slotNames.2 (Option.isSome_iff_exists.2 ⟨_, href⟩))
  exact ⟨slot, hslot, Nat.lt_trans (List.getElem?_eq_some_iff.1 hslot).1 (ha.slots id)⟩

end Types

/-! ## The forms -/

variable (p : Program) (a : Analysis) in
/-- The operand has a value of the type. -/
def Body.Values (s : Body) (v : Operand) (τ : ExprTy) : Prop :=
  ∃ target, RepresentsExpr p a s.session τ target ∧ s.HasTy v target

section Values

variable {p : Program} {printName : String} {a : Analysis} {s s' : Body} {v : Operand}

theorem Body.Values.mono {τ : ExprTy} (h : s.Values p a v τ) (hs : Leads p a s s') :
    s'.Values p a v τ := by
  obtain ⟨target, hr, hv⟩ := h
  exact ⟨target, hr.mono hs.session.grows, hs.hasTy hv⟩

theorem Body.Values.written {ty : TypeExpr} (h : s.Values p a v (.written ty)) :
    ∃ target, Represents p a s.session ty target ∧ s.HasTy v target := by
  obtain ⟨target, hr, hv⟩ := h
  cases hr with
  | written hr => exact ⟨target, hr, hv⟩

theorem Body.Values.int (h : s.Values p a v (.written .int)) : s.HasTy v .int := by
  obtain ⟨target, hr, hv⟩ := h.written
  cases hr
  exact hv

theorem Body.Values.bool (h : s.Values p a v (.written .bool)) : s.HasTy v .bool := by
  obtain ⟨target, hr, hv⟩ := h.written
  cases hr
  exact hv

theorem Body.Values.object (hs : s.session.Ready p a) {class_ : String} {id : ClassId}
    (hid : p.classId? class_ = some id) (h : s.Values p a v (.written (.class_ class_))) :
    s.HasTy v (.ptr (.struct (2 * id))) := by
  obtain ⟨target, hr, hv⟩ := h
  exact hr.class_inv hs hid ▸ hv

/-- Arrays and objects are pointers. -/
theorem Body.Values.array {elem : TypeExpr} (hs : s.session.Ready p a)
    (h : s.Values p a v (.written (.array elem))) : ∃ target, Represents p a s.session (.array elem)
      (.ptr target) ∧ s.HasTy v (.ptr target) := by
  obtain ⟨target, hr, hv⟩ := h.written
  obtain ⟨struct, rfl, -⟩ := hr.array_inv hs.typed
  exact ⟨_, hr, hv⟩

end Values

section Forms

variable {p : Program} {printName : String} {a : Analysis} {names : Names}
variable {slots : Table NodeId Operand} {line : Nat} {s s' : Body}

variable (p printName a names slots line) in
/-- An expression is lowered, and the operand has its value. -/
structure LoweredExpr (s : Body) (e : Expr) (τ : ExprTy) (v : Operand) (s' : Body) : Prop where
  lowered : Lowered p a s s' fun S q pt => ExprCode p printName a S q slots names line e τ pt v
  value : s'.Values p a v τ

variable (p printName a names slots line) in
/-- A place is lowered, and the operand has its address. -/
structure LoweredPlace (s : Body) (place : Place) (ty : TypeExpr) (v : Operand) (s' : Body) :
    Prop where
  lowered : Lowered p a s s' fun S q pt => PlaceCode p printName a S q slots names line place ty pt v
  address : ∃ target, Represents p a s'.session ty target ∧ s'.HasTy v (.ptr target)

variable (p printName a names slots line) in
/-- Wherever the expression is lowered, it gets its code. -/
def LowersExpr (e : Expr) (τ : ExprTy) : Prop :=
  ∀ s : Body, s.Holds p a names slots line →
    Yields (rvalue a e) s fun v s' => LoweredExpr p printName a names slots line s e τ v s'

variable (p printName a names slots line) in
/-- Wherever the place is lowered, it gets its code. -/
def LowersPlace (place : Place) (ty : TypeExpr) : Prop :=
  ∀ s : Body, s.Holds p a names slots line →
    Yields (placeAddr a place) s fun v s' =>
      LoweredPlace p printName a names slots line s place ty v s'

variable (p printName a names slots line) in
/-- Wherever arguments are lowered, they get their code, and the types of
the parameters. -/
def LowersArgs (args : List Expr) (tys : List TypeExpr) : Prop :=
  ∀ (s : Body) (targets : List Ir.Ty), s.Holds p a names slots line →
    List.Forall₂ (Represents p a s.session) tys targets →
    Yields (castArgs a args targets) s fun vs s' =>
      Lowered p a s s' (fun S q pt => ArgsCode p printName a S q slots names line args tys pt vs) ∧
        List.Forall₂ s'.HasTy vs targets

/-- An expression without code. -/
theorem LoweredExpr.const (hs : s.Holds p a names slots line) {e : Expr} {τ : ExprTy} {v : Operand}
    (hv : s.Values p a v τ)
    (hcode : ∀ S q pt, ExprCode p printName a S q slots names line e τ pt v pt) :
    LoweredExpr p printName a names slots line s e τ v s :=
  ⟨(Lowered.refl hs).mono fun S q pt _ heq => heq ▸ hcode S q pt, hv⟩

/-- A value is read as one of a type that it fits. -/
theorem yields_castTo (ha : Supports p printName a) (hs : s.Holds p a names slots line)
    {v : Operand} {τ : ExprTy} {ty : TypeExpr} {target : Ir.Ty} (hv : s.Values p a v τ)
    (hr : Represents p a s.session ty target) (hfits : Fits p τ (.written ty)) :
    Yields (Lower.cast v target) s fun v' s' =>
      Lowered p a s s' (fun _ q pt pt' => q.Casts v pt v' pt') ∧ s'.HasTy v' target := by
  obtain ⟨found, hfound, hty⟩ := hv
  exact Lower.yields_cast hs hty (castable_of_fits ha hfound hr hfits) (hr.within hs.ready.typed)

/-! ### Constants, places and operators -/

theorem LowersExpr.this {class_ : String} (hthis : names.this? = some class_) (m : Mark) :
    LowersExpr p printName a names slots line (.this m) (.written (.class_ class_)) := by
  intro s hs
  obtain ⟨hin, id, hid, hty⟩ := hs.this class_ hthis
  refine .get_bind ?_
  rw [if_pos hin]
  refine .pure (.const hs ⟨_, .written ?_, hty⟩ fun _ _ _ => .this hthis)
  exact hs.ready.represents_class.2 ⟨id, hid, rfl⟩

theorem LowersPlace.read {place : Place} {ty : TypeExpr}
    (h : LowersPlace p printName a names slots line place ty) (m : Mark) :
    LowersExpr p printName a names slots line (.read m place) (.written ty) := by
  intro s hs
  refine (h s hs).bind fun addr s₁ hplace => ?_
  obtain ⟨h₁, target, hr, hty⟩ := hplace
  have hs₁ := h₁.holds hs
  refine (Lower.yields_operand hs₁ (yields_load hs₁.sound "t" hty)).mono fun v s₂ hload => ?_
  obtain ⟨h₂, hv⟩ := hload
  refine ⟨(h₁.trans h₂).mono ?_, target, .written (h₂.represents hr), hv⟩
  rintro S q pt pt' ⟨_, hplace, hload⟩
  exact .read hplace hload

theorem LowersExpr.arrayLength {array : Expr} {elem : TypeExpr}
    (h : LowersExpr p printName a names slots line array (.written (.array elem)))
    (m : Mark) :
    LowersExpr p printName a names slots line (.arrayLength m array) (.written .int) := by
  intro s hs
  refine (h s hs).bind fun value s₁ harray => ?_
  obtain ⟨h₁, hvalue⟩ := harray
  have hs₁ := h₁.holds hs
  obtain ⟨target, hr, hty⟩ := hvalue.array hs₁.ready
  refine (Lower.yields_nullCheck hs₁ hty m.pos).bind fun _ s₂ h₂ => ?_
  have hs₂ := h₂.holds hs₁
  refine (Lower.yields_arrayLength hs₂ (h₂.represents hr) (h₂.hasTy hty)).mono fun v s₃ hlength => ?_
  obtain ⟨h₃, hv⟩ := hlength
  refine ⟨((h₁.trans h₂).trans h₃).mono ?_, _, .written .int, hv⟩
  rintro S q pt pt' ⟨_, ⟨_, hbase, hnull⟩, hlength⟩
  exact .arrayLength hbase hnull hlength

theorem LowersExpr.minus {operand : Expr}
    (h : LowersExpr p printName a names slots line operand (.written .int)) (m : Mark) :
    LowersExpr p printName a names slots line (.unary m .minus operand) (.written .int) := by
  intro s hs
  refine (h s hs).bind fun value s₁ hoperand => ?_
  obtain ⟨h₁, hvalue⟩ := hoperand
  have hs₁ := h₁.holds hs
  refine (Lower.yields_ints hs₁ "neg" (by simp) (Ir.hasTy_int _) hvalue.int).mono fun v s₂ hneg => ?_
  obtain ⟨h₂, hv⟩ := hneg
  refine ⟨(h₁.trans h₂).mono ?_, _, .written .int, hv⟩
  rintro S q pt pt' ⟨_, hoperand, hdef⟩
  exact .minus hoperand hdef

theorem LowersExpr.negate {operand : Expr}
    (h : LowersExpr p printName a names slots line operand (.written .bool)) (m : Mark) :
    LowersExpr p printName a names slots line (.unary m .negate operand) (.written .bool) := by
  intro s hs
  refine (h s hs).bind fun value s₁ hoperand => ?_
  obtain ⟨h₁, hvalue⟩ := hoperand
  have hs₁ := h₁.holds hs
  refine (Lower.yields_operand hs₁ (x := fun _ => Emit.binary "not" .eq (.bool false) value)
    (yields_eq hs₁.sound "not" (Ir.hasTy_bool _) hvalue.bool)).mono fun v s₂ hnot => ?_
  obtain ⟨h₂, hv⟩ := hnot
  refine ⟨(h₁.trans h₂).mono ?_, _, .written .bool, hv⟩
  rintro S q pt pt' ⟨_, hoperand, hdef⟩
  exact .negate hoperand hdef

/-- Both operands are computed. -/
theorem yields_operands {op : BinaryOp} (hop : op ≠ .and) {m : Mark} {lhs rhs : Expr}
    {left right : ExprTy} (hs : s.Holds p a names slots line)
    (hl : LowersExpr p printName a names slots line lhs left)
    (hr : LowersExpr p printName a names slots line rhs right) {P : Operand → Body → Prop}
    (h : ∀ l r s', s'.Holds p a names slots line → Lowered p a s s' (fun S q pt pt' => ∃ pt₁,
        ExprCode p printName a S q slots names line lhs left pt l pt₁ ∧
          ExprCode p printName a S q slots names line rhs right pt₁ r pt') →
      s'.Values p a l left → s'.Values p a r right → Yields (Lower.binary op l r m.pos) s' P) :
    Yields (rvalue a (.binary m op lhs rhs)) s P := by
  rw [rvalue, if_neg hop]
  refine (hl s hs).bind fun l s₁ hlhs => ?_
  obtain ⟨h₁, hl₁⟩ := hlhs
  have hs₁ := h₁.holds hs
  refine (hr s₁ hs₁).bind fun r s₂ hrhs => ?_
  obtain ⟨h₂, hr₂⟩ := hrhs
  exact h l r s₂ (h₂.holds hs₁) (h₁.trans h₂) (hl₁.mono h₂.toLeads) hr₂

theorem LowersExpr.plain {op : BinaryOp} {op' : Ir.BinOp} (hop : plainOp? op = some op')
    {lhs rhs : Expr} (hl : LowersExpr p printName a names slots line lhs (.written .int))
    (hr : LowersExpr p printName a names slots line rhs (.written .int)) (m : Mark) :
    LowersExpr p printName a names slots line (.binary m op lhs rhs)
      (.written (if op = .less then .bool else .int)) := by
  intro s hs
  have hne : op ≠ .and := by rintro rfl; cases hop
  have hemit : ∃ name, ∀ l r pos, Lower.binary op l r pos =
      Lower.emit fun _ => Emit.binary name op' l r := by
    cases op <;> cases hop <;> exact ⟨_, fun _ _ _ => rfl⟩
  obtain ⟨name, hemit⟩ := hemit
  refine yields_operands hne hs hl hr fun l r s₁ hs₁ h₁ hl₁ hr₁ => ?_
  rw [hemit]
  refine (Lower.yields_ints hs₁ name ?_ hl₁.int hr₁.int).mono
    fun v s₂ ⟨h₂, hv⟩ => ⟨(h₁.trans h₂).mono ?_, op'.resultTy, ?_, hv⟩
  · cases op <;> cases hop <;> simp
  · rintro S q pt pt' ⟨_, ⟨_, hleft, hright⟩, hdef⟩
    exact .plain hop rfl hleft hright hdef
  · cases op <;> cases hop <;> first | exact .written .int | exact .written .bool

theorem LowersExpr.div {lhs rhs : Expr}
    (hl : LowersExpr p printName a names slots line lhs (.written .int))
    (hr : LowersExpr p printName a names slots line rhs (.written .int)) (m : Mark) :
    LowersExpr p printName a names slots line (.binary m .div lhs rhs) (.written .int) := by
  intro s hs
  refine yields_operands (by decide) hs hl hr fun l r s₁ hs₁ h₁ hl₁ hr₁ => ?_
  refine (Lower.yields_divide hs₁ hl₁.int hr₁.int m.pos).mono fun v s₂ ⟨h₂, hv⟩ =>
    ⟨(h₁.trans h₂).mono ?_, _, .written .int, hv⟩
  rintro S q pt pt' ⟨_, ⟨_, hleft, hright⟩, hcode⟩
  exact .div hleft hright hcode

theorem LowersExpr.equals (ha : Supports p printName a) {lhs rhs : Expr} {left right : ExprTy}
    (hl : LowersExpr p printName a names slots line lhs left)
    (hr : LowersExpr p printName a names slots line rhs right)
    (hfits : Fits p left right ∨ Fits p right left) (m : Mark) :
    LowersExpr p printName a names slots line (.binary m .equals lhs rhs) (.written .bool) := by
  intro s hs
  refine yields_operands (by decide) hs hl hr fun l r s₁ hs₁ h₁ ⟨lty, hlr, hlty⟩ ⟨rty, hrr, hrty⟩ => ?_
  have hcmp : Comparable lty rty := hfits.elim (comparable_of_fits ha hlr hrr)
    fun h => (comparable_of_fits ha hrr hlr h).symm
  refine (Lower.yields_equals hs₁ hlty hrty hcmp).mono fun v s₂ ⟨h₂, hv⟩ =>
    ⟨(h₁.trans h₂).mono ?_, _, .written .bool, hv⟩
  rintro S q pt pt' ⟨_, ⟨_, hleft, hright⟩, hcode⟩
  exact .equals hleft hright hcode

/-! ### Conjunctions -/

variable (p a) in
/-- Behind the left operand of a conjunction: it is stored, and lowering
goes on where the right one is to be computed. -/
structure Shortcut (s : Body) (result left : Operand) (done : Ir.BlockId) (s' : Body) : Prop where
  leads : Leads p a s s'
  line : s'.line = s.line
  reserved : Ir.Builder.Reserved s.builder.blocks.length s'.builder done
  code : ∀ pt, s.builder.here? = some pt → ∃ pt₁ more, s'.builder.here? = some (pt₁.enter more) ∧
    more ≠ 0 ∧ ∀ q : Proc, q.Covers s'.builder →
      q.Stores result left pt pt₁ ∧ q.Ends pt₁ (.branch left more done)

theorem yields_shortcut (hs : s.Holds p a names slots line) {result left : Operand}
    (hresult : s.HasTy result (.ptr .bool)) (hleft : s.HasTy left .bool) :
    Yields (Lower.emit fun _ => do
      Emit.store result left
      let more ← Emit.newBlock "and_rhs"
      let done ← Emit.newBlock "and_end"
      Emit.terminate (.branch left more done)
      Emit.switchTo more
      return done) s (Shortcut p a s result left) := by
  refine Lower.yields_emit ?_
  refine (yields_store hs.sound hresult hleft).bind fun _ b₁ h₁ => ?_
  refine yields_newBlock_bind h₁.grows.sound _ fun more b₂ hmore => ?_
  refine yields_newBlock_bind hmore.grows.sound _ fun done b₃ hdone => ?_
  have hE := (h₁.grows.trans hmore.grows).trans hdone.grows
  have hmore₃ := (hmore.reserved.weaken h₁.grows.into.length_le).grows hdone.grows
  have hdone₃ := hdone.reserved.weaken (h₁.grows.trans hmore.grows).into.length_le
  have hleft₃ := Ir.Builder.HasTy.mono hleft (.refl _) hE.into
  refine yields_moveTo_bind (x := pure done) hE (Nat.le_refl _) hmore₃
    (.branch hleft₃ hmore₃.target hdone₃.target) fun b₄ hm => .pure ?_
  refine ⟨⟨.refl _, hs.ready, hm.extends_, rfl, rfl⟩, rfl,
    hm.reserved hdone₃ (hdone.other hmore.reserved), fun pt hpt => ?_⟩
  obtain ⟨pt₁, hpt₁, hcode⟩ := h₁.code pt hpt
  have hpt₃ := hdone.here _ (hmore.here _ hpt₁)
  refine ⟨pt₁, more, ?_, hmore.reserved.pos, fun q hq => ⟨hcode q ?_, hm.ends hpt₃ hq⟩⟩
  · rw [hm.here, ← (hdone.grows.sound.here hpt₃).2.1]
    rfl
  · exact ((hmore.grows.trans hdone.grows).into.trans hm.into).covers hq

variable (p a) in
/-- Behind the right operand: it is stored, and the result is what was stored
last. -/
structure Rejoin (s₀ s : Body) (result right : Operand) (done : Ir.BlockId) (v : Operand)
    (s' : Body) : Prop where
  leads : Leads p a s₀ s'
  line : s'.line = s.line
  session : s'.session = s.session
  into : s.builder.Into s'.builder
  value : s'.HasTy v .bool
  code : ∀ pt, s.builder.here? = some pt → ∃ pt₁ pt₂, s'.builder.here? = some pt₂ ∧
    ∀ q : Proc, q.Covers s'.builder → q.Stores result right pt pt₁ ∧ q.Ends pt₁ (.jump done) ∧
      q.Defines (.load · result) (pt₁.enter done) v pt₂

theorem yields_rejoin {s₀ : Body} (h : Leads p a s₀ s) {result right : Operand} {done : Ir.BlockId}
    (hdone : Ir.Builder.Reserved s₀.builder.blocks.length s.builder done)
    (hresult : s.HasTy result (.ptr .bool)) (hright : s.HasTy right .bool) :
    Yields (Lower.emit fun p => do
      Emit.store result right
      Emit.terminate (.jump done)
      Emit.switchTo done
      Emit.load p "and" result) s (Rejoin p a s₀ s result right done) := by
  refine Lower.yields_emit ?_
  refine (yields_store h.grows.sound hresult hright).bind fun _ b₁ h₁ => ?_
  have hdone₁ := hdone.grows h₁.grows
  refine yields_moveTo_bind (h.grows.trans h₁.grows) (Nat.le_refl _) hdone₁ (.jump hdone₁.target)
    fun b₂ hm => ?_
  have hinto := h₁.grows.into.trans hm.into
  refine (yields_load hm.extends_.sound "and" (Ir.Builder.HasTy.mono hresult (.refl _) hinto)).mono
    fun v b₃ ⟨h₃, hv⟩ => ?_
  refine ⟨⟨h.session, h.ready, hm.extends_.grows h₃.grows (Nat.le_refl _), h.locals, h.inMethod⟩,
    rfl, rfl, hinto.trans h₃.grows.into, hv, fun pt hpt => ?_⟩
  obtain ⟨pt₁, hpt₁, hstore⟩ := h₁.code pt hpt
  obtain ⟨pt₂, hpt₂, hload⟩ := h₃.code _ hm.here
  refine ⟨pt₁, pt₂, hpt₂, fun q hq => ?_⟩
  have hq₂ := h₃.grows.into.covers hq
  refine ⟨hstore q (hm.into.covers hq₂), hm.ends hpt₁ hq₂, ?_⟩
  have hcode := hload q hq
  rwa [← (h₁.grows.sound.here hpt₁).2.1] at hcode

theorem LowersExpr.and {lhs rhs : Expr}
    (hl : LowersExpr p printName a names slots line lhs (.written .bool))
    (hr : LowersExpr p printName a names slots line rhs (.written .bool)) (m : Mark) :
    LowersExpr p printName a names slots line (.binary m .and lhs rhs) (.written .bool) := by
  intro s hs
  rw [rvalue, if_pos rfl]
  refine (Lower.yields_operand hs (x := fun _ => Emit.entryAlloca "and" .bool)
    (yields_entryAlloca hs.sound "and" Ir.Ty.within_bool)).bind fun result s₁ halloca => ?_
  obtain ⟨h₁, hresult⟩ := halloca
  have hs₁ := h₁.holds hs
  refine (hl s₁ hs₁).bind fun left s₂ hlhs => ?_
  obtain ⟨h₂, hleft⟩ := hlhs
  have hs₂ := h₂.holds hs₁
  refine (yields_shortcut hs₂ (h₂.hasTy hresult) hleft.bool).bind fun done s₃ h₃ => ?_
  have hs₃ := h₃.leads.holds hs₂
  rw [h₃.line, hs₂.line] at hs₃
  refine (hr s₃ hs₃).bind fun right s₄ hrhs => ?_
  obtain ⟨h₄, hright⟩ := hrhs
  -- The block behind the operator is reserved while the right operand is lowered.
  have hleads := h₃.leads.trans h₄.toLeads
  refine (yields_rejoin hleads (h₃.reserved.grows h₄.grows) (hleads.hasTy (h₂.hasTy hresult))
    hright.bool).mono fun v s₅ h₅ => ⟨⟨?_, ?_, fun pt hpt => ?_⟩, _, .written .bool, h₅.value⟩
  · exact (h₁.toLeads.trans h₂.toLeads).trans h₅.leads
  · rw [h₅.line, h₄.line, h₃.line, h₂.line, h₁.line]
  obtain ⟨pt₁, hpt₁, hslot⟩ := h₁.code pt hpt
  obtain ⟨pt₂, hpt₂, hlhs⟩ := h₂.code pt₁ hpt₁
  obtain ⟨pt₃, more, hpt₃, hmore, hbranch⟩ := h₃.code pt₂ hpt₂
  obtain ⟨pt₄, hpt₄, hrhs⟩ := h₄.code _ hpt₃
  obtain ⟨pt₅, pt₆, hpt₆, hjoin⟩ := h₅.code pt₄ hpt₄
  refine ⟨pt₆, hpt₆, fun S q hS hq => ?_⟩
  have hq₄ := h₅.into.covers hq
  have hq₃ := h₄.grows.into.covers hq₄
  have hq₂ := h₃.leads.grows.into.covers hq₃
  have hS₄ : s₄.session.Grows S := h₅.session ▸ hS
  have hS₂ : s₂.session.Grows S := hleads.session.grows.trans hS₄
  obtain ⟨hmade, rfl⟩ := hslot S q ((h₂.session.grows).trans hS₂) (h₂.grows.into.covers hq₂)
  obtain ⟨hstore, hend⟩ := hbranch q hq₃
  obtain ⟨hstore', hend', hload⟩ := hjoin q hq
  have hle : pt₃.temps ≤ pt₄.temps := by
    rw [show pt₃.temps = _ from (hs₃.sound.here hpt₃).2.1, (h₄.grows.sound.here hpt₄).2.1]
    exact h₄.grows.into.temps.length_le
  exact .and hmade (hlhs S q hS₂ hq₂) hstore hend hmore h₃.reserved.pos (hrhs S q hS₄ hq₄) hle
    hstore' hend' hload

/-! ### Places -/

theorem LowersPlace.variable_ {name : String} {var : VarDecl} (hvar : names.var? name = some var)
    {m : Mark} (hnoted : a.findings.vars.get? m.id = some (.local_ var.id)) :
    LowersPlace p printName a names slots line (.var m name) var.ty := by
  intro s hs
  obtain ⟨slot, ty, hslot, hty, hr⟩ := hs.slots var (List.mem_of_find?_eq_some hvar)
  refine .lift_bind (orFault_ok hnoted) ?_
  refine .get_bind (.lift (orFault_ok ?_) ⟨(Lowered.refl hs).mono fun S q pt _ heq => ?_, ty, hr, hty⟩)
  · rw [hs.locals]
    exact hslot
  · subst heq
    exact .variable_ hvar hslot

theorem LowersPlace.ownField (ha : Supports p printName a) {name class_ : String} {id : ClassId}
    {ref : MemberRef} {field : VarDecl} (hvar : names.var? name = none)
    (hthis : names.this? = some class_) (hid : p.classId? class_ = some id)
    (href : p.fieldRef? id name = some ref) (hfield : fieldDecl? p ref = some field) {m : Mark}
    (hnoted : a.findings.vars.get? m.id = some (.field ref)) :
    LowersPlace p printName a names slots line (.var m name) field.ty := by
  intro s hs
  obtain ⟨hin, id', hid', hthisTy⟩ := hs.this class_ hthis
  obtain rfl := Option.some.inj (hid.symm.trans hid')
  obtain ⟨i, hi, hlt⟩ := ha.place_of_fieldRef? (Source.Program.classId?_lt hid) href
  refine .lift_bind (orFault_ok hnoted) ?_
  refine Yields.bind (P := fun v s' => v = .param 0 ∧ s' = s) (.get_bind ?_) fun v s' h => ?_
  · rw [if_pos hin]
    exact .pure ⟨rfl, rfl⟩
  obtain ⟨rfl, rfl⟩ := h
  refine (Lower.yields_fieldAddr hs hthisTy (Source.Program.classId?_lt hid) hi hlt).mono
    fun v s₁ haddr => ?_
  obtain ⟨h₁, field', ty, hfield', hr, hv⟩ := haddr
  obtain rfl := Option.some.inj (hfield.symm.trans hfield')
  exact ⟨h₁.mono fun S q pt pt' => .ownField hvar hthis hid href hfield hi hlt, ty, hr, hv⟩

theorem LowersPlace.field (ha : Supports p printName a) {receiver : Expr} {name class_ : String}
    {id : ClassId} {ref : MemberRef} {field : VarDecl}
    (h : LowersExpr p printName a names slots line receiver (.written (.class_ class_)))
    (haccessed : accessed? p printName names receiver name = some ref)
    (hid : p.classId? class_ = some id) (href : p.fieldRef? id name = some ref)
    (hfield : fieldDecl? p ref = some field) {m : Mark}
    (hnoted : a.findings.fields.get? m.id = some ref) :
    LowersPlace p printName a names slots line (.field m receiver name) field.ty := by
  intro s hs
  obtain ⟨i, hi, hlt⟩ := ha.place_of_fieldRef? (Source.Program.classId?_lt hid) href
  refine .lift_bind (orFault_ok hnoted) ?_
  refine (h s hs).bind fun object s₁ hreceiver => ?_
  obtain ⟨h₁, hobject⟩ := hreceiver
  have hs₁ := h₁.holds hs
  have hty := hobject.object hs₁.ready hid
  refine (Lower.yields_nullCheck hs₁ hty m.pos).bind fun _ s₂ h₂ => ?_
  have hs₂ := h₂.holds hs₁
  refine (Lower.yields_fieldAddr hs₂ (h₂.hasTy hty) (Source.Program.classId?_lt hid) hi hlt).mono
    fun v s₃ haddr => ?_
  obtain ⟨h₃, field', ty, hfield', hr, hv⟩ := haddr
  obtain rfl := Option.some.inj (hfield.symm.trans hfield')
  refine ⟨((h₁.trans h₂).trans h₃).mono ?_, ty, hr, hv⟩
  rintro S q pt pt' ⟨_, ⟨_, hreceiver, hnull⟩, hmember⟩
  exact .field hreceiver hnull haccessed hid hfield hi hlt hmember

theorem LowersPlace.index {array index : Expr} {elem : TypeExpr}
    (harray : LowersExpr p printName a names slots line array (.written (.array elem)))
    (hindex : LowersExpr p printName a names slots line index (.written .int)) (m : Mark) :
    LowersPlace p printName a names slots line (.index m array index) elem := by
  intro s hs
  refine (harray s hs).bind fun base s₁ hlowered => ?_
  obtain ⟨h₁, hbase⟩ := hlowered
  have hs₁ := h₁.holds hs
  obtain ⟨target, hr, hty⟩ := hbase.array hs₁.ready
  refine (Lower.yields_nullCheck hs₁ hty m.pos).bind fun _ s₂ h₂ => ?_
  have hs₂ := h₂.holds hs₁
  refine (hindex s₂ hs₂).bind fun i s₃ hlowered => ?_
  obtain ⟨h₃, hi⟩ := hlowered
  have h₂₃ := h₂.toLeads.trans h₃.toLeads
  refine (Lower.yields_elementAddr (h₃.holds hs₂) (h₂₃.represents hr) (h₂₃.hasTy hty) hi.int
    m.pos).mono fun v s₄ haddr => ?_
  obtain ⟨h₄, ty, helem, hv⟩ := haddr
  refine ⟨(((h₁.trans h₂).trans h₃).trans h₄).mono ?_, ty, helem, hv⟩
  rintro S q pt pt' ⟨_, ⟨_, ⟨_, harray, hnull⟩, hindex⟩, helement⟩
  exact .index harray hnull hindex helement

end Forms

end ClassLang.Lowering
