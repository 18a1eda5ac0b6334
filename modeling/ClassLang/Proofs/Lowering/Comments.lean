import ClassLang.Proofs.Ir.Comments
import ClassLang.Proofs.Lowering.Acceptance
/-!
# Lowering — comments change nothing

`Mirrors f x y` says that `y` does to what `f` leaves of a state what `x` does
to the state. Every part of lowering that writes no comment mirrors itself
under what leaves the comments out (`mirrors_rvalue`, `mirrors_buildProgram`):
it looks at names, types and numbers, and none of them is found among the
comments. The one step that writes them mirrors the step that does not
(`mirrors_enterStmt`). So the comments are all that is between the two programs
that come of a program (`comments_erased`).
-/


namespace ClassLang

/-- What `x` does to a state, `y` does to what `f` leaves of it: their values
are the same, and so are their errors. -/
def Mirrors {σ ε α : Type} (f : σ → σ) (x y : StateT σ (Except ε) α) : Prop :=
  ∀ s, y.run (f s) = (x.run s).map fun r => (r.1, f r.2)

namespace Mirrors

variable {σ ε α β : Type} {f : σ → σ} {x y : StateT σ (Except ε) α}
variable {k k' : α → StateT σ (Except ε) β}

/-- What reads and changes nothing mirrors itself. -/
theorem pure (v : α) : Mirrors f (Pure.pure v : StateT σ (Except ε) α) (Pure.pure v) :=
  fun _ => rfl

theorem throw (e : ε) : Mirrors f (throw e : StateT σ (Except ε) α) (throw e) := fun _ => rfl

/-- A computation that yields on one side what `g` leaves of the other. -/
theorem bind_of {g : α → α} (h : ∀ s, y.run (f s) = (x.run s).map fun r => (g r.1, f r.2))
    (hk : ∀ v, Mirrors f (k v) (k' (g v))) : Mirrors f (x >>= k) (y >>= k') := fun s => by
  rw [StateT.run_bind, StateT.run_bind, h s]
  cases x.run s with
  | error e => rfl
  | ok r => exact hk r.1 r.2

/-- **Computations in turn.** -/
theorem bind (h : Mirrors f x y) (hk : ∀ v, Mirrors f (k v) (k' v)) :
    Mirrors f (x >>= k) (y >>= k') := bind_of (g := id) h hk

/-- A computation that reads the state. -/
theorem get_bind {k k' : σ → StateT σ (Except ε) β} (hk : ∀ s, Mirrors f (k s) (k' (f s))) :
    Mirrors f (MonadState.get >>= k) (MonadState.get >>= k') := fun s => hk s s

/-- A look-up in what both sides share. -/
theorem lift (r : Except ε α) : Mirrors f (liftM r : StateT σ (Except ε) α) (liftM r) := fun _ => by
  cases r <;> rfl

/-- A look-up that yields on one side what `g` leaves of the other. -/
theorem lift_bind {g : α → α} {r r' : Except ε α} (hr : r' = r.map g)
    (hk : ∀ v, Mirrors f (k v) (k' (g v))) : Mirrors f (liftM r >>= k) (liftM r' >>= k') :=
  bind_of (fun _ => by subst hr; cases r <;> rfl) hk

/-- A change that may be made before or after the comments are left out. -/
theorem modify {g g' : σ → σ} (h : ∀ s, g' (f s) = f (g s)) :
    Mirrors f (modify g : StateT σ (Except ε) PUnit) (modify g') := fun s =>
  congrArg (fun s' => Except.ok (PUnit.unit, s')) (h s)

theorem modifyGet {g g' : σ → α × σ} (h : ∀ s, g' (f s) = ((g s).1, f (g s).2)) :
    Mirrors f (modifyGet g : StateT σ (Except ε) α) (modifyGet g') := fun s =>
  congrArg Except.ok (h s)

/-- A test of what both sides share. -/
theorem ite {c : Prop} [Decidable c] {x' y' : StateT σ (Except ε) α} (h : Mirrors f x y)
    (h' : Mirrors f x' y') : Mirrors f (if c then x else x') (if c then y else y') := by
  split
  · exact h
  · exact h'

end Mirrors

namespace Lowering

open Ir (Operand BinOp BlockId Terminator Builder)

variable {α : Type}

/-! ## Code -/

namespace Emit

/-- Code that is added to what has no comments just as it is added otherwise. -/
def Mirrored (x y : Emit α) : Prop := Mirrors Builder.uncommented x y

/-- A step of the builder that cannot fail. -/
theorem mirrored_ok {g : Builder → α × Builder}
    (h : ∀ b, g b.uncommented = ((g b).1, (g b).2.uncommented)) :
    Mirrored (fun b => .ok (g b)) fun b => .ok (g b) := fun b => congrArg Except.ok (h b)

/-- A new block has the same number: comments open none. -/
theorem mirrored_newBlock (name : String) : Mirrored (newBlock name) (newBlock name) :=
  mirrored_ok fun b => b.uncommented_newBlock name

theorem mirrored_switchTo (block : BlockId) : Mirrored (switchTo block) (switchTo block) :=
  .modify fun b => b.uncommented_switchTo block

theorem mirrored_terminate (t : Terminator) : Mirrored (terminate t) (terminate t) :=
  .modify fun b => b.uncommented_terminate t

/-- A block is open or closed whatever comments are in it. -/
theorem mirrored_jumpIfOpen (target : BlockId) : Mirrored (jumpIfOpen target) (jumpIfOpen target) :=
  .get_bind fun _ => .ite (mirrored_terminate _) (.pure _)

/-- **Writing a comment is doing nothing.** -/
theorem mirrored_comment (text : String) : Mirrored (comment text) (Pure.pure ⟨⟩) := fun b =>
  congrArg (fun c => Except.ok (PUnit.unit, c)) (b.uncommented_comment text).symm

/-- **An instruction that is no comment** defines the same temporary. -/
theorem mirrored_define (name : String) (ty : Ir.Ty) {i : Ir.TempId → Ir.Instr}
    (hi : ∀ dst, (i dst).isComment = false) :
    Mirrored (fun b => .ok (b.define name ty i)) fun b => .ok (b.define name ty i) :=
  mirrored_ok fun b => b.uncommented_define name ty hi

theorem mirrored_alloca (name : String) (ty : Ir.Ty) : Mirrored (alloca name ty) (alloca name ty) :=
  mirrored_define _ _ fun _ => rfl

/-- A slot comes into the entry block, between whatever comments are there. -/
theorem mirrored_entryAlloca (name : String) (ty : Ir.Ty) :
    Mirrored (entryAlloca name ty) (entryAlloca name ty) :=
  mirrored_ok fun b => b.uncommented_entryAlloca name ty

theorem mirrored_store (addr value : Operand) : Mirrored (store addr value) (store addr value) :=
  .modify fun b => b.uncommented_emit rfl

theorem mirrored_print (value : Operand) : Mirrored (print value) (print value) :=
  .modify fun b => b.uncommented_emit rfl

theorem mirrored_binary (name : String) (op : BinOp) (lhs rhs : Operand) :
    Mirrored (binary name op lhs rhs) (binary name op lhs rhs) :=
  mirrored_define _ _ fun _ => rfl

theorem mirrored_bitcast (name : String) (value : Operand) (ty : Ir.Ty) :
    Mirrored (bitcast name value ty) (bitcast name value ty) :=
  mirrored_define _ _ fun _ => rfl

theorem mirrored_alloc (name : String) (size : Operand) :
    Mirrored (alloc name size) (alloc name size) :=
  mirrored_define _ _ fun _ => rfl

/-- **A check at run time** branches to blocks of the same numbers. -/
theorem mirrored_haltIf (cond : Operand) (fail ok message : String) :
    Mirrored (haltIf cond fail ok message) (haltIf cond fail ok message) :=
  .bind (mirrored_newBlock _) fun _ => .bind (mirrored_newBlock _) fun _ =>
    .bind (mirrored_terminate _) fun _ => .bind (mirrored_switchTo _) fun _ =>
    .bind (mirrored_terminate _) fun _ => mirrored_switchTo _

theorem mirrored_haltIfNull (value : Operand) (message : String) :
    Mirrored (haltIfNull value message) (haltIfNull value message) :=
  .bind (mirrored_binary _ _ _ _) fun _ => mirrored_haltIf _ _ _ _

variable (p : Ir.Program)

/-- **Types are found** among parameters, temporaries and declarations, where no
comments are. -/
theorem mirrored_typeOf (operand : Operand) :
    Mirrored (typeOf p operand) (typeOf p.uncommented operand) := fun b => by
  change (b.uncommented.typeOf p.uncommented operand >>= fun ty => .ok (ty, b.uncommented)) =
    (b.typeOf p operand >>= fun ty => .ok (ty, b)).map _
  rw [b.uncommented_typeOf]
  cases b.typeOf p operand <;> rfl

theorem mirrored_pointee (addr : Operand) :
    Mirrored (pointee p addr) (pointee p.uncommented addr) := fun b => by
  change (b.uncommented.pointee p.uncommented addr >>= fun ty => .ok (ty, b.uncommented)) =
    (b.pointee p addr >>= fun ty => .ok (ty, b)).map _
  rw [b.uncommented_pointee]
  cases b.pointee p addr <;> rfl

/-- What is loaded is of the type that the address points to. -/
theorem mirrored_load (name : String) (addr : Operand) :
    Mirrored (load p name addr) (load p.uncommented name addr) :=
  fun b => b.uncommented_load p name addr

/-- A pointer into a struct or an array follows the types. -/
theorem mirrored_elementPtr (name : String) (base : Operand) (indices : List Operand) :
    Mirrored (elementPtr p name base indices) (elementPtr p.uncommented name base indices) :=
  fun b => b.uncommented_elementPtr p name base indices

theorem mirrored_member (name : String) (base : Operand) (index : Nat) :
    Mirrored (member p name base index) (member p.uncommented name base index) :=
  mirrored_elementPtr p _ _ _

/-- The result of a call is of the type that the callee returns. -/
theorem mirrored_call (name : String) (callee : Operand) (args : List Operand) :
    Mirrored (call p name callee args) (call p.uncommented name callee args) :=
  fun b => b.uncommented_call p name callee args

/-- Whether a value has to be cast goes by its type. -/
theorem mirrored_cast (value : Operand) (ty : Ir.Ty) :
    Mirrored (cast p value ty) (cast p.uncommented value ty) :=
  .bind (mirrored_typeOf p _) fun _ => .ite (.pure _) (mirrored_bitcast _ _ _)

end Emit

/-! ## Sessions -/

/-- A session whose program has no comments. -/
def Session.uncommented (s : Session) : Session := { s with ir := s.ir.uncommented }

/-- What is done to a session is done all the same where there are no
comments. -/
def Build.Overlooks (x : Build α) : Prop := Mirrors Session.uncommented x x

open Build (Overlooks)

/-- The tables of a session are apart from its program. -/
theorem overlooks_classLayout (id : ClassId) : Overlooks (classLayout id) :=
  .get_bind fun _ => .lift _

theorem overlooks_fieldSlot (ref : MemberRef) : Overlooks (fieldSlot ref) :=
  .get_bind fun _ => .lift _

theorem overlooks_methodProc (ref : MemberRef) : Overlooks (methodProc ref) :=
  .get_bind fun _ => .lift _

theorem overlooks_functionProc (index : Nat) : Overlooks (functionProc index) :=
  .get_bind fun _ => .lift _

/-- A value is passed on where an error is wrapped. -/
theorem ofIr_map {β : Type} (g : α → β) (r : Except Ir.Error α) :
    ofIr (r.map g) = (ofIr r).map g := by
  cases r <;> rfl

/-- Structs have no comments. -/
theorem overlooks_struct {β : Type} (id : Ir.StructId) {k : Ir.StructDef → Build β}
    (hk : ∀ decl, Overlooks (k decl)) :
    Overlooks (do let s ← get; let decl ← ofIr (s.ir.struct id); k decl) :=
  .get_bind fun s => .bind (.lift (ofIr (s.ir.struct id))) hk

/-- What is found of a procedure has no comments either. -/
theorem procDecl_uncommented (id : Ir.ProcId) (s : Session) : (procDecl id).run s.uncommented =
    ((procDecl id).run s).map fun r => (r.1.uncommented, r.2.uncommented) := by
  change (ofIr (s.ir.uncommented.proc id) >>= _) = (ofIr (s.ir.proc id) >>= _).map _
  rw [s.ir.proc_uncommented, ofIr_map]
  cases ofIr (s.ir.proc id) <;> rfl

/-- **A change of the program**, on one side with what is left of it on the other. -/
theorem mirrors_modifyIr {change : Ir.Program → Except Ir.Error Ir.Program}
    {change' : Ir.Program → Except Ir.Error Ir.Program}
    (h : ∀ p, change' p.uncommented = (change p).map Ir.Program.uncommented) :
    Mirrors Session.uncommented (modifyIr change) (modifyIr change') :=
  .get_bind fun s => .lift_bind (g := Ir.Program.uncommented)
    (by
      change ofIr (change' s.ir.uncommented) = _
      rw [h, ofIr_map])
    fun _ _ => rfl

theorem overlooks_setFields (id : Ir.StructId) (fields : List Ir.Field) :
    Overlooks (modifyIr (·.setFields id fields)) :=
  mirrors_modifyIr fun p => p.uncommented_setFields id fields

theorem overlooks_addStruct (name : String) : Overlooks (addStruct name) :=
  .modifyGet fun _ => rfl

theorem overlooks_addGlobal (g : Ir.Global) : Overlooks (addGlobal g) := .modifyGet fun _ => rfl

/-- A procedure gets the same number, and starts without code. -/
theorem overlooks_declareProc (name : String) (ret : Ir.Ty) (params : List Ir.Field) :
    Overlooks (declareProc name ret params) := .modifyGet fun s =>
  congrArg (fun r : Ir.ProcId × Ir.Program => (r.1, ({ s with ir := r.2 } : Session)))
    (s.ir.uncommented_declareProc name ret params)

/-- **A procedure gets the body that was built**, with its comments or without
them. -/
theorem mirrors_defineProc (id : Ir.ProcId) (b : Builder) :
    Mirrors Session.uncommented (defineProc id b) (defineProc id b.uncommented) :=
  Mirrors.bind_of (procDecl_uncommented id) fun decl => mirrors_modifyIr fun p => by
    have hfinish := b.uncommented_finish ("Missing return statement in " ++ decl.name)
    change p.uncommented.setBody id (b.uncommented.finish _).1 (b.uncommented.finish _).2 = _
    refine Eq.trans ?_ (p.uncommented_setBody id _ _)
    exact congrArg (fun body => p.uncommented.setBody id body.1 body.2) hfinish

variable (a : Typing.Analysis)

/-- A struct for arrays is found on both sides or made on both. -/
theorem overlooks_arrayStructOf {irTy : Ty → Build Ir.Ty} (h : ∀ ty, Overlooks (irTy ty))
    (elem : Ty) : Overlooks (arrayStructOf a irTy elem) := .get_bind fun s => by
  rw [show s.uncommented.arrayStructs = s.arrayStructs from rfl]
  cases s.arrayStructs.get? elem with
  | some id => exact .pure id
  | none =>
    exact .bind (h elem) fun _ => .bind (overlooks_addStruct _) fun _ =>
      .bind (overlooks_setFields _ _) fun _ => .bind (.modify fun _ => rfl) fun _ => .pure _

/-- **Types are made alike**, from the inside out. -/
theorem overlooks_irTyWithin (depth : Nat) (ty : Ty) : Overlooks (irTyWithin a depth ty) := by
  induction depth generalizing ty with
  | zero =>
    cases ty with
    | int | bool => exact .pure _
    | class_ id => exact .bind (overlooks_classLayout id) fun _ => .pure _
    | _ => exact .throw _
  | succ depth ih =>
    cases ty with
    | int | bool => exact .pure _
    | class_ id => exact .bind (overlooks_classLayout id) fun _ => .pure _
    | array id => exact .bind (overlooks_arrayStructOf a ih _) fun _ => .pure _
    | _ => exact .throw _

theorem overlooks_irTy (ty : Ty) : Overlooks (irTy a ty) := overlooks_irTyWithin a _ ty

theorem overlooks_arrayStruct (elem : Ty) : Overlooks (arrayStruct a elem) :=
  overlooks_arrayStructOf a (overlooks_irTy a) elem

theorem overlooks_irTyOf (ty : Source.TypeExpr) : Overlooks (irTyOf a ty) :=
  .bind (.lift _) fun _ => overlooks_irTy a _

theorem overlooks_irParams (params : List Source.VarDecl) : Overlooks (irParams a params) := by
  induction params with
  | nil => exact .pure _
  | cons param rest ih =>
    exact .bind (overlooks_irTyOf a _) fun _ => .bind ih fun _ => .pure _

/-! ## Allocators -/

/-- Defaults are stored field by field. -/
theorem Emit.mirrored_storeDefaults (p : Ir.Program) (object : Operand) (index : Nat)
    (fields : List Ir.Field) : Mirrored (storeDefaults p object index fields)
      (storeDefaults p.uncommented object index fields) := by
  induction fields generalizing index with
  | nil => exact .pure _
  | cons field rest ih =>
    exact .bind (mirrored_member p _ _ _) fun _ => .bind (mirrored_store _ _) fun _ => ih _

/-- **The allocator of a class** asks for as many bytes: sizes are those of structs. -/
theorem Emit.mirrored_objectBody (p : Ir.Program) (struct : Ir.StructId) (vtable : Ir.GlobalId)
    (fields : List Ir.Field) : Mirrored (objectBody p struct vtable fields)
      (objectBody p.uncommented struct vtable fields) := by
  unfold objectBody
  rw [p.sizeOf_uncommented]
  exact .bind (mirrored_alloc _ _) fun _ => .bind (mirrored_haltIfNull _ _) fun _ =>
    .bind (mirrored_bitcast _ _ _) fun _ => .bind (mirrored_member p _ _ _) fun _ =>
    .bind (mirrored_store _ _) fun _ => .bind (mirrored_storeDefaults p _ _ _) fun _ =>
    mirrored_terminate _

/-- **The allocator of arrays** checks the length, asks for memory and fills it alike. -/
theorem Emit.mirrored_arrayBody (p : Ir.Program) (struct : Ir.StructId) (elemTy : Ir.Ty) :
    Mirrored (arrayBody p struct elemTy) (arrayBody p.uncommented struct elemTy) := by
  unfold arrayBody
  rw [p.sizeOf_uncommented, p.fieldOffset_uncommented]
  exact .bind (mirrored_binary _ _ _ _) fun _ => .bind (mirrored_haltIf _ _ _ _) fun _ =>
    .bind (mirrored_binary _ _ _ _) fun _ => .bind (mirrored_haltIf _ _ _ _) fun _ =>
    .bind (mirrored_binary _ _ _ _) fun _ => .bind (mirrored_binary _ _ _ _) fun _ =>
    .bind (mirrored_alloc _ _) fun _ => .bind (mirrored_haltIfNull _ _) fun _ =>
    .bind (mirrored_bitcast _ _ _) fun _ => .bind (mirrored_member p _ _ _) fun _ =>
    .bind (mirrored_store _ _) fun _ => .bind (mirrored_entryAlloca _ _) fun _ =>
    .bind (mirrored_store _ _) fun _ => .bind (mirrored_newBlock _) fun _ =>
    .bind (mirrored_newBlock _) fun _ => .bind (mirrored_newBlock _) fun _ =>
    .bind (mirrored_terminate _) fun _ => .bind (mirrored_switchTo _) fun _ =>
    .bind (mirrored_load p _ _) fun _ => .bind (mirrored_binary _ _ _ _) fun _ =>
    .bind (mirrored_terminate _) fun _ => .bind (mirrored_switchTo _) fun _ =>
    .bind (mirrored_elementPtr p _ _ _) fun _ => .bind (mirrored_store _ _) fun _ =>
    .bind (mirrored_binary _ _ _ _) fun _ => .bind (mirrored_store _ _) fun _ =>
    .bind (mirrored_terminate _) fun _ => .bind (mirrored_switchTo _) fun _ =>
    mirrored_terminate _

/-- A body that was built at once, for an allocator. -/
theorem overlooks_defineWith (id : Ir.ProcId) {body : Ir.Program → Emit Unit}
    (h : ∀ p, Emit.Mirrored (body p) (body p.uncommented)) : Overlooks (defineWith id body) :=
  Mirrors.bind_of (procDecl_uncommented id) fun decl => .get_bind fun s => by
  have hrun : ofIr ((body s.uncommented.ir).run (.start decl.params decl.ret)) =
      (ofIr ((body s.ir).run (.start decl.params decl.ret))).map fun r => (r.1, r.2.uncommented) := by
    rw [← ofIr_map, ← h s.ir (.start decl.params decl.ret)]
    rfl
  exact .lift_bind hrun fun ⟨(), built⟩ => mirrors_defineProc id built

/-- **An allocator** is found on both sides or made on both. -/
theorem overlooks_classAllocator (id : ClassId) : Overlooks (classAllocator id) :=
  .get_bind fun s => by
  rw [show s.uncommented.classAllocators = s.classAllocators from rfl]
  cases s.classAllocators.get? id with
  | some proc => exact .pure proc
  | none =>
    exact .bind (overlooks_classLayout id) fun layout =>
      .bind (overlooks_declareProc _ _ _) fun _ => .bind (.modify fun _ => rfl) fun _ =>
      overlooks_struct _ fun decl => .bind
        (overlooks_defineWith _ fun p => Emit.mirrored_objectBody p _ _ _) fun _ => .pure _

theorem overlooks_arrayAllocator (elem : Ty) : Overlooks (arrayAllocator a elem) :=
  .get_bind fun s => by
  rw [show s.uncommented.arrayAllocators = s.arrayAllocators from rfl]
  cases s.arrayAllocators.get? elem with
  | some proc => exact .pure proc
  | none =>
    exact .bind (overlooks_arrayStruct a elem) fun _ => .bind (overlooks_irTy a elem) fun _ =>
      .bind (overlooks_declareProc _ _ _) fun _ => .bind (.modify fun _ => rfl) fun _ =>
      .bind (overlooks_defineWith _ fun p => Emit.mirrored_arrayBody p _ _) fun _ => .pure _

/-! ## Classes -/

/-- Structs and globals of classes get the same numbers. -/
theorem overlooks_declareClasses (cs : List Source.ClassDecl) : Overlooks (declareClasses cs) := by
  induction cs with
  | nil => exact .pure _
  | cons c rest ih =>
    exact .bind (overlooks_addStruct _) fun _ => .bind (overlooks_addStruct _) fun _ =>
      .bind (overlooks_addGlobal _) fun _ => .bind (.modify fun _ => rfl) fun _ => ih

theorem overlooks_declareFunctions (fs : List Source.FunctionDecl) :
    Overlooks (declareFunctions a fs) := by
  induction fs with
  | nil => exact .pure _
  | cons f rest ih =>
    exact .bind (overlooks_irParams a _) fun _ => .bind (overlooks_irTyOf a _) fun _ =>
      .bind (overlooks_declareProc _ _ _) fun _ => .bind (.modify fun _ => rfl) fun _ => ih

/-- A method has the receiver in front of its parameters. -/
theorem overlooks_declareMethodsOf (id : ClassId) (c : Source.ClassDecl) (this : Ir.Ty)
    (methods : List (Source.FunctionDecl × Nat)) :
    Overlooks (declareMethodsOf a id c this methods) := by
  induction methods with
  | nil => exact .pure _
  | cons m rest ih =>
    exact .bind (overlooks_irParams a _) fun _ => .bind (overlooks_irTyOf a _) fun _ =>
      .bind (overlooks_declareProc _ _ _) fun _ => .bind (.modify fun _ => rfl) fun _ => ih

theorem overlooks_declareMethods (cs : List (Source.ClassDecl × Nat)) :
    Overlooks (declareMethods a cs) := by
  induction cs with
  | nil => exact .pure _
  | cons c rest ih =>
    exact .bind (overlooks_classLayout _) fun _ =>
      .bind (overlooks_declareMethodsOf a _ _ _ _) fun _ => ih

theorem overlooks_layOutFields (id : ClassId) (first : Nat) (fields : List (Source.VarDecl × Nat)) :
    Overlooks (layOutFields a id first fields) := by
  induction fields with
  | nil => exact .pure _
  | cons field rest ih =>
    exact .bind (overlooks_irTyOf a _) fun _ => .bind (.modify fun _ => rfl) fun _ =>
      .bind ih fun _ => .pure _

theorem overlooks_layOutMethods (id : ClassId) (methods : List (Source.FunctionDecl × Nat))
    (entries : List (String × Ir.ProcId)) : Overlooks (layOutMethods id methods entries) := by
  induction methods generalizing entries with
  | nil => exact .pure _
  | cons m rest ih => exact .bind (overlooks_methodProc _) fun _ => ih _

/-- A slot is of the type of its procedure, which is its signature. -/
theorem overlooks_vtableFields (entries : List (String × Ir.ProcId)) :
    Overlooks (vtableFields entries) := by
  induction entries with
  | nil => exact .pure _
  | cons entry rest ih => exact .bind_of (procDecl_uncommented _) fun _ => .bind ih fun _ => .pure _

theorem overlooks_inheritedLayout (id : ClassId) : Overlooks (inheritedLayout a id) := by
  unfold inheritedLayout
  split
  · exact .bind (overlooks_classLayout _) fun _ => overlooks_struct _ fun _ => .pure _
  · exact .pure _

/-- **A class is laid out alike**: its struct, its vtable and the constant for it. -/
theorem overlooks_layOutClass (id : ClassId) (c : Source.ClassDecl) :
    Overlooks (layOutClass a id c) :=
  .bind (overlooks_inheritedLayout a id) fun _ => .bind (overlooks_layOutFields a _ _ _) fun _ =>
    .bind (overlooks_layOutMethods _ _ _) fun _ => .bind (overlooks_vtableFields _) fun _ =>
    .bind (overlooks_classLayout id) fun _ => .bind (overlooks_setFields _ _) fun _ =>
    .bind (overlooks_setFields _ _) fun _ =>
    .bind (mirrors_modifyIr fun p => p.uncommented_setInit _ _) fun _ => .modify fun _ => rfl

theorem overlooks_layOutEach (p : Source.Program) (ids : List ClassId) :
    Overlooks (layOutEach a p ids) := by
  induction ids with
  | nil => exact .pure _
  | cons id rest ih =>
    unfold layOutEach
    split
    · exact .bind (overlooks_layOutClass a id _) fun _ => ih
    · exact .bind (.throw _) fun _ => ih

theorem overlooks_layOutClasses (p : Source.Program) : Overlooks (layOutClasses a p) :=
  .bind (.lift _) fun _ => overlooks_layOutEach a p _

/-! ## Expressions -/

/-- The state of lowering a body that has no comments. -/
def Body.uncommented (s : Body) : Body :=
  { s with session := s.session.uncommented, builder := s.builder.uncommented }

namespace Lower

/-- What is done to a body is done all the same where there are no comments. -/
def Overlooks (x : Lower α) : Prop := Mirrors Body.uncommented x x

/-- What is done to the session of a body. -/
theorem overlooks_session {x : Build α} (h : Build.Overlooks x) : Overlooks (session x) := fun s => by
  change (x.run s.session.uncommented >>= _) = (x.run s.session >>= _).map _
  rw [h s.session]
  cases x.run s.session <;> rfl

/-- **Code that is added to a body**, on one side with what is left of it on the other. -/
theorem mirrors_emit {x y : Ir.Program → Emit α}
    (h : ∀ p, Emit.Mirrored (x p) (y p.uncommented)) :
    Mirrors Body.uncommented (emit x) (emit y) := fun s => by
  change (ofIr ((y s.session.ir.uncommented).run s.builder.uncommented) >>= _) =
    (ofIr ((x s.session.ir).run s.builder) >>= _).map _
  rw [h s.session.ir s.builder, ofIr_map]
  cases ofIr ((x s.session.ir).run s.builder) <;> rfl

theorem overlooks_emit {x : Ir.Program → Emit α}
    (h : ∀ p, Emit.Mirrored (x p) (x p.uncommented)) : Overlooks (emit x) := mirrors_emit h

/-- It is so also from within a body. -/
theorem procDecl_uncommented (id : Ir.ProcId) (s : Body) :
    (session (procDecl id)).run s.uncommented =
      ((session (procDecl id)).run s).map fun r => (r.1.uncommented, r.2.uncommented) := by
  change ((procDecl id).run s.session.uncommented >>= _) = ((procDecl id).run s.session >>= _).map _
  rw [Lowering.procDecl_uncommented id s.session]
  cases (procDecl id).run s.session <;> rfl

theorem overlooks_localSlot (id : Source.NodeId) : Overlooks (localSlot id) :=
  .get_bind fun _ => .lift _

theorem overlooks_this : Overlooks this := .get_bind fun _ => .ite (.pure _) (.throw _)

theorem overlooks_lineOf (pos : Option Pos) : Overlooks (lineOf pos) := .get_bind fun _ => .pure _

/-- The line in a message is kept beside the code. -/
theorem overlooks_nullCheck (value : Operand) (pos : Option Pos) : Overlooks (nullCheck value pos) :=
  .bind (overlooks_lineOf pos) fun _ => overlooks_emit fun _ => Emit.mirrored_haltIfNull _ _

theorem overlooks_cast (value : Operand) (ty : Ir.Ty) : Overlooks (cast value ty) :=
  overlooks_emit fun p => Emit.mirrored_cast p _ _

theorem overlooks_fieldAddr (object : Operand) (ref : MemberRef) :
    Overlooks (fieldAddr object ref) :=
  .bind (overlooks_session (overlooks_fieldSlot ref)) fun _ =>
    overlooks_emit fun p => Emit.mirrored_member p _ _ _

theorem overlooks_arrayLength (array : Operand) : Overlooks (arrayLength array) :=
  overlooks_emit fun p => .bind (Emit.mirrored_member p _ _ _) fun _ => Emit.mirrored_load p _ _

/-- **An element** is reached behind the check of its index. -/
theorem overlooks_elementAddr (array index : Operand) (pos : Option Pos) :
    Overlooks (elementAddr array index pos) :=
  .bind (overlooks_arrayLength array) fun _ => .bind (overlooks_lineOf pos) fun _ =>
    overlooks_emit fun p => .bind (Emit.mirrored_binary _ _ _ _) fun _ =>
    .bind (Emit.mirrored_binary _ _ _ _) fun _ => .bind (Emit.mirrored_binary _ _ _ _) fun _ =>
    .bind (Emit.mirrored_binary _ _ _ _) fun _ => .bind (Emit.mirrored_haltIf _ _ _ _) fun _ =>
    Emit.mirrored_elementPtr p _ _ _

/-- **A division** is guarded alike. -/
theorem overlooks_divide (left right : Operand) (pos : Option Pos) :
    Overlooks (divide left right pos) :=
  .bind (overlooks_lineOf pos) fun _ => overlooks_emit fun p =>
    .bind (Emit.mirrored_binary _ _ _ _) fun _ => .bind (Emit.mirrored_haltIf _ _ _ _) fun _ =>
    .bind (Emit.mirrored_entryAlloca _ _) fun _ => .bind (Emit.mirrored_store _ _) fun _ =>
    .bind (Emit.mirrored_binary _ _ _ _) fun _ => .bind (Emit.mirrored_binary _ _ _ _) fun _ =>
    .bind (Emit.mirrored_binary _ _ _ _) fun _ => .bind (Emit.mirrored_newBlock _) fun _ =>
    .bind (Emit.mirrored_newBlock _) fun _ => .bind (Emit.mirrored_terminate _) fun _ =>
    .bind (Emit.mirrored_switchTo _) fun _ => .bind (Emit.mirrored_binary _ _ _ _) fun _ =>
    .bind (Emit.mirrored_store _ _) fun _ => .bind (Emit.mirrored_terminate _) fun _ =>
    .bind (Emit.mirrored_switchTo _) fun _ => Emit.mirrored_load p _ _

/-- Which side of a comparison is cast goes by the types of both. -/
theorem overlooks_equals (left right : Operand) : Overlooks (equals left right) :=
  overlooks_emit fun p => .bind (Emit.mirrored_typeOf p _) fun _ =>
    .bind (Emit.mirrored_typeOf p _) fun _ => .ite (Emit.mirrored_binary _ _ _ _) <|
    .ite (.bind (Emit.mirrored_cast p _ _) fun _ => Emit.mirrored_binary _ _ _ _)
      (.bind (Emit.mirrored_cast p _ _) fun _ => Emit.mirrored_binary _ _ _ _)

theorem overlooks_binary (op : Source.BinaryOp) (left right : Operand) (pos : Option Pos) :
    Overlooks (binary op left right pos) := by
  cases op with
  | div => exact overlooks_divide left right pos
  | equals => exact overlooks_equals left right
  | _ => exact overlooks_emit fun _ => Emit.mirrored_binary _ _ _ _

theorem overlooks_unary (op : Source.UnaryOp) (value : Operand) : Overlooks (unary op value) := by
  cases op <;> exact overlooks_emit fun _ => Emit.mirrored_binary _ _ _ _

/-- **A method is called** through the vtable of the object. -/
theorem overlooks_dispatch (method : String) (object : Operand) (slot : Nat) (args : List Operand) :
    Overlooks (dispatch method object slot args) :=
  overlooks_emit fun p => .bind (Emit.mirrored_member p _ _ _) fun _ =>
    .bind (Emit.mirrored_load p _ _) fun _ => .bind (Emit.mirrored_member p _ _ _) fun _ =>
    .bind (Emit.mirrored_load p _ _) fun _ => Emit.mirrored_call p _ _ _

end Lower

open Lower

/-- The slot and the signature of a method are found in the tables. -/
theorem overlooks_callTarget (receiver : Source.NodeId) (method : String) (ref : MemberRef) :
    Build.Overlooks (callTarget a receiver method ref) := by
  refine .bind (.lift _) fun ty => ?_
  cases ty
  case class_ id =>
    refine .bind (.pure id) fun id => .bind (overlooks_classLayout id) fun _ =>
      .bind (.lift _) fun _ => .bind (overlooks_methodProc ref) fun _ =>
        .bind_of (procDecl_uncommented _) fun decl => ?_
    rw [show decl.uncommented.params = decl.params from rfl]
    cases decl.params with
    | nil => exact .throw _
    | cons this params => exact .pure _
  -- A receiver of any other type stops it at once.
  all_goals exact fun _ => rfl

mutual

/-- **The code of an expression** does not depend on comments. -/
theorem overlooks_rvalue : ∀ e : Source.Expr, Lower.Overlooks (rvalue a e)
  | .int _ _ | .bool _ _ | .null _ => .pure _
  | .this _ => overlooks_this
  | .read _ place => .bind (overlooks_placeAddr place) fun _ =>
    overlooks_emit fun p => Emit.mirrored_load p _ _
  | .arrayLength m array => .bind (overlooks_rvalue array) fun _ =>
    .bind (overlooks_nullCheck _ _) fun _ => overlooks_arrayLength _
  | .unary _ op operand => .bind (overlooks_rvalue operand) fun _ => overlooks_unary op _
  | .binary m op lhs rhs => by
    unfold rvalue
    refine .ite ?_ (.bind (overlooks_rvalue lhs) fun _ => .bind (overlooks_rvalue rhs) fun _ =>
      overlooks_binary op _ _ _)
    refine .bind (overlooks_emit fun _ => Emit.mirrored_entryAlloca _ _) fun _ =>
      .bind (overlooks_rvalue lhs) fun _ => .bind (overlooks_emit fun _ => ?_) fun _ =>
      .bind (overlooks_rvalue rhs) fun _ => overlooks_emit fun p => ?_
    · exact .bind (Emit.mirrored_store _ _) fun _ => .bind (Emit.mirrored_newBlock _) fun _ =>
        .bind (Emit.mirrored_newBlock _) fun _ => .bind (Emit.mirrored_terminate _) fun _ =>
        .bind (Emit.mirrored_switchTo _) fun _ => .pure _
    · exact .bind (Emit.mirrored_store _ _) fun _ => .bind (Emit.mirrored_terminate _) fun _ =>
        .bind (Emit.mirrored_switchTo _) fun _ => Emit.mirrored_load p _ _
  | .call m name args => by
    unfold rvalue
    refine .bind (.lift _) fun callee => ?_
    cases callee with
    | builtin b =>
      match args with
      | [arg] =>
        exact .bind (overlooks_rvalue arg) fun _ =>
          .bind (overlooks_emit fun _ => Emit.mirrored_print _) fun _ => .pure _
      | [] | _ :: _ :: _ => exact .throw _
    | function index =>
      exact .bind (overlooks_session (overlooks_functionProc index)) fun _ =>
        .bind_of (Lower.procDecl_uncommented _) fun _ => .bind (overlooks_castArgs args _) fun _ => overlooks_emit fun p => Emit.mirrored_call p _ _ _
    | method ref => exact .throw _
  | .methodCall m receiver method args => by
    unfold rvalue
    split
    · exact .bind (overlooks_rvalue receiver) fun _ => .bind (overlooks_nullCheck _ _) fun _ =>
        .bind (overlooks_session (overlooks_callTarget a _ _ _)) fun _ =>
        .bind (overlooks_cast _ _) fun _ => .bind (overlooks_castArgs args _) fun _ =>
        overlooks_dispatch _ _ _ _
    · exact .throw _
  | .newObject _ name => .bind (.lift _) fun id =>
    .bind (overlooks_session (overlooks_classAllocator id)) fun _ =>
    overlooks_emit fun p => Emit.mirrored_call p _ _ _
  | .newArray m _ size => .bind (.lift _) fun elem => .bind (overlooks_rvalue size) fun _ =>
    .bind (overlooks_session (overlooks_arrayAllocator a elem)) fun _ =>
    overlooks_emit fun p => Emit.mirrored_call p _ _ _

/-- **The address of a place** does not depend on comments. -/
theorem overlooks_placeAddr : ∀ place : Source.Place, Lower.Overlooks (placeAddr a place)
  | .var m _ => by
    unfold placeAddr
    refine .bind (.lift _) fun decl => ?_
    cases decl with
    | local_ id => exact overlooks_localSlot id
    | field ref => exact .bind overlooks_this fun _ => overlooks_fieldAddr _ ref
  | .field m receiver _ => .bind (.lift _) fun ref => .bind (overlooks_rvalue receiver) fun _ =>
    .bind (overlooks_nullCheck _ _) fun _ => overlooks_fieldAddr _ ref
  | .index m array index => .bind (overlooks_rvalue array) fun _ =>
    .bind (overlooks_nullCheck _ _) fun _ => .bind (overlooks_rvalue index) fun _ =>
    overlooks_elementAddr _ _ _

theorem overlooks_castArgs : ∀ (args : List Source.Expr) (tys : List Ir.Ty),
    Lower.Overlooks (castArgs a args tys)
  | arg :: args, ty :: tys => .bind (overlooks_rvalue arg) fun _ => .bind (overlooks_cast _ _) fun _ =>
    .bind (overlooks_castArgs args tys) fun _ => .pure _
  | [], _ => by unfold castArgs; exact .pure _
  | _ :: _, [] => by unfold castArgs; exact .pure _

end

/-! ## Statements -/

/-- A comment on what is known when it is written. -/
theorem mirrors_comment (text : Body → String) :
    Mirrors Body.uncommented (do let b ← get; emit fun _ => Emit.comment (text b))
      (pure ⟨⟩ : Lower Unit) := fun b =>
  mirrors_emit (x := fun _ => Emit.comment (text b)) (y := fun _ => Pure.pure PUnit.unit)
    (fun _ => Emit.mirrored_comment _) b

/-- **Where comments are written, nothing else is done** than where they are
not. -/
theorem mirrors_enterStmt (s : Source.Stmt) :
    Mirrors Body.uncommented (enterStmt true s) (enterStmt false s) := by
  have hcomment := mirrors_comment fun b => "line " ++ toString b.line ++ ": " ++ describe s
  unfold enterStmt
  cases s.pos with
  | some pos => exact .bind (.modify fun _ => rfl) fun _ => hcomment
  | none => exact hcomment

/-- A branch opens its blocks before it closes the one it is in. -/
theorem overlooks_branchIf (cond : Source.Expr) : Lower.Overlooks (branchIf a cond) :=
  .bind (overlooks_rvalue a cond) fun _ => overlooks_emit fun _ =>
    .bind (Emit.mirrored_newBlock _) fun _ => .bind (Emit.mirrored_newBlock _) fun _ =>
    .bind (Emit.mirrored_newBlock _) fun _ => .bind (Emit.mirrored_terminate _) fun _ =>
    .bind (Emit.mirrored_switchTo _) fun _ => .pure _

theorem overlooks_leaveBranch (join next : BlockId) : Lower.Overlooks (leaveBranch join next) :=
  overlooks_emit fun _ => .bind (Emit.mirrored_jumpIfOpen _) fun _ => Emit.mirrored_switchTo _

mutual

/-- **The code of a statement** has comments on one side only. -/
theorem mirrors_lowerStmt : ∀ s : Source.Stmt,
    Mirrors Body.uncommented (lowerStmt a true s) (lowerStmt a false s)
  | .block _ (.mk stmts _) => .bind (mirrors_enterStmt _) fun _ => mirrors_lowerStmts stmts
  | .decl _ _ => .bind (mirrors_enterStmt _) fun _ => .bind (overlooks_localSlot _) fun _ =>
    .bind (overlooks_session (overlooks_irTyOf a _)) fun _ =>
    overlooks_emit fun _ => Emit.mirrored_store _ _
  | .assign _ target value => .bind (mirrors_enterStmt _) fun _ =>
    .bind (overlooks_placeAddr a target) fun _ => .bind (overlooks_rvalue a value) fun _ =>
    .bind (overlooks_emit fun p => Emit.mirrored_pointee p _) fun _ =>
    .bind (overlooks_cast _ _) fun _ => overlooks_emit fun _ => Emit.mirrored_store _ _
  | .expr _ value => .bind (mirrors_enterStmt _) fun _ => .bind (overlooks_rvalue a value) fun _ =>
    .pure _
  | .ifThen _ cond body => .bind (mirrors_enterStmt _) fun _ =>
    .bind (overlooks_branchIf a cond) fun _ => .bind (mirrors_lowerStmt body) fun _ =>
    .bind (overlooks_leaveBranch _ _) fun _ => overlooks_leaveBranch _ _
  | .ifElse _ cond yes no => .bind (mirrors_enterStmt _) fun _ =>
    .bind (overlooks_branchIf a cond) fun _ => .bind (mirrors_lowerStmt yes) fun _ =>
    .bind (overlooks_leaveBranch _ _) fun _ => .bind (mirrors_lowerStmt no) fun _ =>
    overlooks_leaveBranch _ _
  | .loop _ cond body => .bind (mirrors_enterStmt _) fun _ =>
    .bind (overlooks_emit fun _ => .bind (Emit.mirrored_newBlock _) fun _ =>
      .bind (Emit.mirrored_newBlock _) fun _ => .bind (Emit.mirrored_newBlock _) fun _ =>
      .bind (Emit.mirrored_terminate _) fun _ => .bind (Emit.mirrored_switchTo _) fun _ =>
      .pure _) fun _ =>
    .bind (overlooks_rvalue a cond) fun _ =>
    .bind (overlooks_emit fun _ => .bind (Emit.mirrored_terminate _) fun _ =>
      Emit.mirrored_switchTo _) fun _ =>
    .bind (mirrors_lowerStmt body) fun _ => overlooks_leaveBranch _ _
  | .ret _ value => .bind (mirrors_enterStmt _) fun _ => .bind (overlooks_rvalue a value) fun _ =>
    .get_bind fun _ => .bind (overlooks_cast _ _) fun _ =>
    overlooks_emit fun _ => Emit.mirrored_terminate _

/-- Statements in turn, each with its own comment. -/
theorem mirrors_lowerStmts : ∀ stmts : List Source.Stmt,
    Mirrors Body.uncommented (lowerStmts a true stmts) (lowerStmts a false stmts)
  | [] => .pure _
  | s :: rest => .bind (mirrors_lowerStmt s) fun _ => mirrors_lowerStmts rest

end

/-! ## Programs -/

/-- A slot is noted for the variable when it is made. -/
theorem overlooks_makeSlot (var : Source.VarDecl) : Lower.Overlooks (makeSlot a var) :=
  .bind (overlooks_session (overlooks_irTyOf a _)) fun _ =>
    .bind (overlooks_emit fun _ => Emit.mirrored_alloca _ _) fun _ =>
    .bind (.modify fun _ => rfl) fun _ => .pure _

theorem overlooks_copyParams (index : Nat) (params : List Source.VarDecl) :
    Lower.Overlooks (copyParams a index params) := by
  induction params generalizing index with
  | nil => exact .pure _
  | cons param rest ih =>
    exact .bind (overlooks_makeSlot a param) fun _ =>
      .bind (overlooks_emit fun _ => Emit.mirrored_store _ _) fun _ => ih _

theorem overlooks_makeSlots (vars : List Source.VarDecl) : Lower.Overlooks (makeSlots a vars) := by
  induction vars with
  | nil => exact .pure _
  | cons var rest ih => exact .bind (overlooks_makeSlot a var) fun _ => ih

/-- **The code of a function**: slots for parameters and locals, then the statements. -/
theorem mirrors_lowerFunction (first : Nat) (f : Source.FunctionDecl) :
    Mirrors Body.uncommented (lowerFunction a ⟨true⟩ first f) (lowerFunction a ⟨false⟩ first f) :=
  .bind (overlooks_copyParams a first f.params) fun _ =>
    .bind (overlooks_makeSlots a f.body.varDecls) fun _ => by
      cases f.body with
      | mk stmts pos => exact mirrors_lowerStmts a stmts

/-- **A body** is built beside the session and comes into it as a whole. -/
theorem mirrors_lowerBody (inMethod : Bool) (f : Source.FunctionDecl) (proc : Ir.ProcId) :
    Mirrors Session.uncommented (lowerBody a ⟨true⟩ inMethod f proc)
      (lowerBody a ⟨false⟩ inMethod f proc) :=
  .bind_of (procDecl_uncommented proc) fun decl => .get_bind fun s => by
  have hrun := mirrors_lowerFunction a (if inMethod then 1 else 0) f
    ⟨s, .start decl.params decl.ret, [], inMethod, (f.pos.map (·.line)).getD 0⟩
  refine .lift_bind hrun fun ⟨(), built⟩ => ?_
  have hset : Mirrors Session.uncommented (set built.session : Build PUnit)
      (set built.session.uncommented) := fun _ => rfl
  exact .bind hset fun _ => mirrors_defineProc proc built.builder

theorem mirrors_lowerFunctions (fs : List (Source.FunctionDecl × Nat)) :
    Mirrors Session.uncommented (lowerFunctions a ⟨true⟩ fs) (lowerFunctions a ⟨false⟩ fs) := by
  induction fs with
  | nil => exact .pure _
  | cons f rest ih =>
    exact .bind (overlooks_functionProc _) fun _ => .bind (mirrors_lowerBody a _ _ _) fun _ => ih

theorem mirrors_lowerMethods (id : ClassId) (methods : List (Source.FunctionDecl × Nat)) :
    Mirrors Session.uncommented (lowerMethods a ⟨true⟩ id methods)
      (lowerMethods a ⟨false⟩ id methods) := by
  induction methods with
  | nil => exact .pure _
  | cons m rest ih =>
    exact .bind (overlooks_methodProc _) fun _ => .bind (mirrors_lowerBody a _ _ _) fun _ => ih

theorem mirrors_lowerClasses (cs : List (Source.ClassDecl × Nat)) :
    Mirrors Session.uncommented (lowerClasses a ⟨true⟩ cs) (lowerClasses a ⟨false⟩ cs) := by
  induction cs with
  | nil => exact .pure _
  | cons c rest ih => exact .bind (mirrors_lowerMethods a _ _) fun _ => ih

/-- **The program is built** with comments on one side only. -/
theorem mirrors_buildProgram (p : Source.Program) :
    Mirrors Session.uncommented (buildProgram a p ⟨true⟩) (buildProgram a p ⟨false⟩) :=
  .bind (overlooks_declareClasses _) fun _ => .bind (overlooks_declareFunctions a _) fun _ =>
    .bind (overlooks_declareMethods a _) fun _ => .bind (overlooks_layOutClasses a p) fun _ =>
    .bind (mirrors_lowerFunctions a _) fun _ => mirrors_lowerClasses a _

/-- **The comments are all that is between the two programs** that come of a
program, whatever analysis it is lowered with: where one fails, so does the
other. -/
theorem lowerProgram_uncommented (p : Source.Program) :
    lowerProgram a p ⟨false⟩ = (lowerProgram a p ⟨true⟩).map Ir.Program.uncommented := by
  unfold lowerProgram
  split
  · rfl
  · change ((buildProgram a p ⟨false⟩).run Session.start.uncommented >>= _) =
      ((buildProgram a p ⟨true⟩).run .start >>= _).map _
    rw [mirrors_buildProgram a p .start]
    cases (buildProgram a p ⟨true⟩).run .start <;> rfl

/-- **Comments change nothing.** A program that is accepted is lowered with
comments and without, and what comes of it without is what comes of it with
comments, the comments left out: the structs, globals and procedures are the
same, and so are the temporaries, the blocks with their names and ends, and the
other instructions in their order. -/
theorem Accepted.comments_erased {source printName : String} {p : Source.Program}
    (h : Accepted source printName p) : ∃ ir,
    lowerProgram (Typing.analyze p ⟨printName⟩) p ⟨true⟩ = .ok ir ∧
    lowerProgram (Typing.analyze p ⟨printName⟩) p ⟨false⟩ = .ok ir.uncommented := by
  obtain ⟨ir, hir⟩ := h.lowers ⟨true⟩
  refine ⟨ir, hir, ?_⟩
  rw [lowerProgram_uncommented, hir]
  rfl

/-- A program in which a method is overridden. -/
theorem comments_erased_overriding : ∃ ir,
    lowerProgram (Typing.analyze (Source.parse overriding).program ⟨"print"⟩)
      (Source.parse overriding).program ⟨true⟩ = .ok ir ∧
    lowerProgram (Typing.analyze (Source.parse overriding).program ⟨"print"⟩)
      (Source.parse overriding).program ⟨false⟩ = .ok ir.uncommented :=
  accepted_overriding.comments_erased

end Lowering

end ClassLang
