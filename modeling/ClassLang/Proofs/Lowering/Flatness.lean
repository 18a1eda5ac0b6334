import ClassLang.Proofs.Ir.Sizes
import ClassLang.Proofs.Lowering.Additions
/-!
# Lowering — structs are flat

Objects and arrays are held by pointers, so no struct of a lowered program holds
another one by value (`flat_lowerProgram`), whatever analysis it is lowered with.
Hence none is nested in itself, its sizes and alignments can be computed, and
where they fit into 32 bits its layouts are sound (`layouts_sound`).
-/


namespace ClassLang

namespace Ir

/-- The type holds no struct by value. -/
def Ty.Flat (ty : Ty) : Prop := ty.parts = []

/-- The fields hold no struct by value. -/
def FlatFields (fields : List Field) : Prop := ∀ f ∈ fields, f.ty.Flat

/-- **No struct holds another one by value.** -/
def Program.Flat (p : Program) : Prop := ∀ s ∈ p.structs, FlatFields s.fields

namespace Program.Flat

variable {p p' : Program}

/-- **What is flat nests nothing in itself**, as it nests nothing. -/
theorem acyclic (h : p.Flat) : p.Acyclic := fun id hcycle => by
  obtain ⟨inner, ⟨s, hs, f, hf, hinner⟩, -⟩ := Relation.TransGen.head'_iff.1 hcycle
  rw [show f.ty.parts = [] from h s (List.mem_of_getElem? hs) f hf] at hinner
  cases hinner

theorem congr (h : p.Flat) (hstructs : p'.structs = p.structs) : p'.Flat := by
  rw [Flat, hstructs]
  exact h

theorem addStruct (h : p.Flat) (name : String) : (p.addStruct name).2.Flat :=
  List.forall_mem_append.2 ⟨h, List.forall_mem_singleton.2 (List.forall_mem_nil _)⟩

theorem setFields (h : p.Flat) {id : StructId} {fields : List Field} (hfields : FlatFields fields)
    (hset : p.setFields id fields = .ok p') : p'.Flat := by
  unfold Program.setFields at hset
  cases hs : p.struct id with
  | error e => rw [hs] at hset; cases hset
  | ok s =>
    rw [hs] at hset
    cases hset
    exact fun s' hs' => (List.mem_or_eq_of_mem_set hs').elim (h s') fun heq => heq ▸ hfields

end Program.Flat

theorem mem_structs_of_ok {p : Program} {id : StructId} {s : StructDef} (h : p.struct id = .ok s) :
    s ∈ p.structs := by
  unfold Program.struct Program.find at h
  cases hs : p.structs[id]? with
  | none => rw [hs] at h; cases h
  | some s' => rw [hs] at h; cases h; exact List.mem_of_getElem? hs

theorem structs_setInit {p p' : Program} {id : GlobalId} {init : Const}
    (h : p.setInit id init = .ok p') : p'.structs = p.structs := by
  unfold Program.setInit at h
  cases hg : p.global id with
  | error e => rw [hg] at h; cases h
  | ok g => rw [hg] at h; cases h; rfl

theorem structs_setBody {p p' : Program} {id : ProcId} {temps : List Field} {blocks : List Block}
    (h : p.setBody id temps blocks = .ok p') : p'.structs = p.structs := by
  unfold Program.setBody at h
  cases hq : p.proc id with
  | error e => rw [hq] at h; cases h
  | ok q => rw [hq] at h; cases h; rfl

end Ir

namespace Lowering

variable {α : Type} (a : Typing.Analysis)

/-! ## The session -/

/-- **Structs stay flat**, and what the computation yields, if it does, is as `P`
says. -/
def Flattens (P : α → Prop) (x : Build α) : Prop := ∀ s : Session, s.ir.Flat →
  Ends (fun _ => True) x s fun v s' => P v ∧ s'.ir.Flat

/-- A computation that keeps structs flat. -/
abbrev KeepsFlat (x : Build α) : Prop := Flattens (fun _ => True) x

namespace Flattens

variable {β : Type} {P : α → Prop} {Q : β → Prop} {x : Build α}

theorem pure {v : α} (h : P v) : Flattens P (Pure.pure v) := fun _ hs => ⟨h, hs⟩

theorem bind {k : α → Build β} (h : Flattens P x) (hk : ∀ v, P v → Flattens Q (k v)) :
    Flattens Q (x >>= k) := fun s hs =>
  (h s hs).bind fun v s' ⟨hv, hs'⟩ => hk v hv s' hs'

/-- What may be known of the session is that it is flat. -/
theorem get_bind {k : Session → Build β} (hk : ∀ s : Session, s.ir.Flat → Flattens Q (k s)) :
    Flattens Q (MonadState.get >>= k) := fun s hs => hk s hs s hs

theorem lift {r : Except Error α} (h : ∀ v, r = .ok v → P v) :
    Flattens P (liftM r : Build α) := fun _ hs => .lift (fun v hv => ⟨h v hv, hs⟩) fun _ _ => trivial

theorem throw (e : Error) : Flattens P (throw e : Build α) := fun _ _ => trivial

theorem modify {f : Session → Session} (h : ∀ s : Session, s.ir.Flat → (f s).ir.Flat) :
    KeepsFlat (modify f) := fun s hs => ⟨trivial, h s hs⟩

theorem modifyGet {f : Session → α × Session} (h : ∀ s : Session, s.ir.Flat → (f s).2.ir.Flat) :
    KeepsFlat (modifyGet f) := fun s hs => ⟨trivial, h s hs⟩

theorem modifyIr {change : Ir.Program → Except Ir.Error Ir.Program}
    (h : ∀ ir ir' : Ir.Program, change ir = .ok ir' → ir.Flat → ir'.Flat) :
    KeepsFlat (modifyIr change) := fun s hs =>
  (ends_modifyIr fun ir hchange => ⟨trivial, h s.ir ir hchange hs⟩).weaken fun _ _ => trivial

end Flattens

section LookUps

theorem flat_orFault (fault : Error) (o : Option α) : KeepsFlat (liftM (orFault fault o)) :=
  .lift fun _ _ => trivial

theorem flat_classLayout (id : ClassId) : KeepsFlat (classLayout id) :=
  .get_bind fun _ _ => flat_orFault _ _

theorem flat_methodProc (ref : MemberRef) : KeepsFlat (methodProc ref) :=
  .get_bind fun _ _ => flat_orFault _ _

theorem flat_procDecl (id : Ir.ProcId) : KeepsFlat (procDecl id) :=
  .get_bind fun _ _ => .lift fun _ _ => trivial

end LookUps

theorem flat_setFields (id : Ir.StructId) {fields : List Ir.Field} (h : Ir.FlatFields fields) :
    KeepsFlat (modifyIr (·.setFields id fields)) :=
  .modifyIr fun _ _ hset hs => hs.setFields h hset

theorem flat_defineProc (id : Ir.ProcId) (body : Ir.Builder) : KeepsFlat (defineProc id body) :=
  .bind (flat_procDecl id) fun _ _ => .modifyIr fun _ _ hset hs => hs.congr (Ir.structs_setBody hset)

theorem flat_defineWith (id : Ir.ProcId) (body : Ir.Program → Emit Unit) :
    KeepsFlat (defineWith id body) :=
  .bind (flat_procDecl id) fun _ _ => .get_bind fun _ _ =>
    .bind (P := fun _ => True) (.lift fun _ _ => trivial) fun _ _ => flat_defineProc id _

/-! ## Types -/

/-- **The struct of an array** holds its length, and elements that are flat. -/
theorem flat_arrayStructOf {irTy : Ty → Build Ir.Ty} (h : ∀ ty, Flattens Ir.Ty.Flat (irTy ty))
    (elem : Ty) : KeepsFlat (arrayStructOf a irTy elem) := .get_bind fun s _ => by
  split
  · exact .pure trivial
  · refine .bind (h elem) fun elemTy hty => ?_
    have hfields : Ir.FlatFields [⟨"length", .int⟩, ⟨"data", .array elemTy 0⟩] :=
      List.forall_mem_cons.2 ⟨rfl, List.forall_mem_singleton.2 hty⟩
    exact .bind (.modifyGet fun _ hs => hs.addStruct _) fun _ _ =>
      .bind (flat_setFields _ hfields) fun _ _ => .bind (.modify fun _ hs => hs) fun _ _ =>
      .pure trivial

theorem flattens_irTyWithin (depth : Nat) (ty : Ty) : Flattens Ir.Ty.Flat (irTyWithin a depth ty) := by
  induction depth generalizing ty with
  | zero =>
    cases ty with
    | int | bool => exact .pure rfl
    | class_ id => exact .bind (flat_classLayout id) fun _ _ => .pure rfl
    | null | any | invalid | array => exact .throw _
  | succ depth ih =>
    cases ty with
    | int | bool => exact .pure rfl
    | class_ id => exact .bind (flat_classLayout id) fun _ _ => .pure rfl
    | array id => exact .bind (flat_arrayStructOf a ih _) fun _ _ => .pure rfl
    | null | any | invalid => exact .throw _

theorem flattens_irTyOf (ty : Source.TypeExpr) : Flattens Ir.Ty.Flat (irTyOf a ty) :=
  .bind (flat_orFault _ _) fun _ _ => flattens_irTyWithin a _ _

theorem flat_irParams (params : List Source.VarDecl) : KeepsFlat (irParams a params) := by
  induction params with
  | nil => exact .pure trivial
  | cons param rest ih =>
    exact .bind (flattens_irTyOf a _) fun _ _ => .bind ih fun _ _ => .pure trivial

/-! ## Allocators and bodies -/

theorem flat_classAllocator (id : ClassId) : KeepsFlat (classAllocator id) := .get_bind fun s _ => by
  split
  · exact .pure trivial
  · exact .bind (flat_classLayout id) fun _ _ => .bind (.modifyGet fun _ hs => hs) fun _ _ =>
      .bind (.modify fun _ hs => hs) fun _ _ => .get_bind fun _ _ =>
      .bind (P := fun _ => True) (.lift fun _ _ => trivial) fun _ _ =>
      .bind (flat_defineWith _ _) fun _ _ => .pure trivial

theorem flat_arrayAllocator (elem : Ty) : KeepsFlat (arrayAllocator a elem) := .get_bind fun s _ => by
  split
  · exact .pure trivial
  · exact .bind (flat_arrayStructOf a (flattens_irTyWithin a _) elem) fun _ _ =>
      .bind (flattens_irTyWithin a _ elem) fun _ _ => .bind (.modifyGet fun _ hs => hs) fun _ _ =>
      .bind (.modify fun _ hs => hs) fun _ _ => .bind (flat_defineWith _ _) fun _ _ => .pure trivial

/-- What is flat stays so. -/
def Session.StaysFlat (s s' : Session) : Prop := s.ir.Flat → s'.ir.Flat

instance : IsPreorder Session Session.StaysFlat where
  refl _ := id
  trans _ _ _ h h' := h' ∘ h

theorem Flattens.tame {P : α → Prop} {x : Build α} (h : Flattens P x)
    (hx : Tame (fun _ _ => True) x) : Tame Session.StaysFlat x := fun s => by
  cases hrun : x.run s with
  | ok r => exact .of_ok hrun fun hs => ((h s hs).result hrun).2
  | error e => exact .of_error hrun ((hx s).fault hrun)

theorem keepsFlat_of_tame {x : Build α} (h : Tame Session.StaysFlat x) : KeepsFlat x := fun s hs =>
  ((h s).mono fun _ _ hs' => ⟨trivial, hs' hs⟩).weaken fun _ _ => trivial

instance : Hosts a Session.StaysFlat where
  irTyOf ty := (flattens_irTyOf a ty).tame (tame_irTyOf a ty)
  classAllocator id := (flat_classAllocator id).tame (tame_classAllocator id)
  arrayAllocator elem := (flat_arrayAllocator a elem).tame (tame_arrayAllocator a elem)

/-- **Bodies make structs of arrays only**, and these are flat. -/
theorem tame_lowerBody_flat (options : Options) (inMethod : Bool) (f : Source.FunctionDecl)
    (proc : Ir.ProcId) : Tame Session.StaysFlat (lowerBody a options inMethod f proc) :=
  tame_lowerBody_of a (fun id body => (flat_defineProc id body).tame (reported_defineProc id body))
    options inMethod f proc

/-! ## Declarations and layouts -/

theorem flat_declareClasses (cs : List Source.ClassDecl) : KeepsFlat (declareClasses cs) := by
  induction cs with
  | nil => exact .pure trivial
  | cons c rest ih =>
    exact .bind (.modifyGet fun _ hs => hs.addStruct _) fun _ _ =>
      .bind (.modifyGet fun _ hs => hs.addStruct _) fun _ _ => .bind (.modifyGet fun _ hs => hs) fun _ _ =>
      .bind (.modify fun _ hs => hs) fun _ _ => ih

theorem flat_declareFunctions (fs : List Source.FunctionDecl) :
    KeepsFlat (declareFunctions a fs) := by
  induction fs with
  | nil => exact .pure trivial
  | cons f rest ih =>
    exact .bind (flat_irParams a _) fun _ _ => .bind (flattens_irTyOf a _) fun _ _ =>
      .bind (.modifyGet fun _ hs => hs) fun _ _ => .bind (.modify fun _ hs => hs) fun _ _ => ih

theorem flat_declareMethodsOf (id : ClassId) (c : Source.ClassDecl) (this : Ir.Ty)
    (methods : List (Source.FunctionDecl × Nat)) :
    KeepsFlat (declareMethodsOf a id c this methods) := by
  induction methods with
  | nil => exact .pure trivial
  | cons m rest ih =>
    exact .bind (flat_irParams a _) fun _ _ => .bind (flattens_irTyOf a _) fun _ _ =>
      .bind (.modifyGet fun _ hs => hs) fun _ _ => .bind (.modify fun _ hs => hs) fun _ _ => ih

theorem flat_declareMethods (cs : List (Source.ClassDecl × Nat)) :
    KeepsFlat (declareMethods a cs) := by
  induction cs with
  | nil => exact .pure trivial
  | cons c rest ih =>
    exact .bind (flat_classLayout _) fun _ _ => .bind (flat_declareMethodsOf a _ _ _ _) fun _ _ => ih

/-- The fields that a class declares are flat. -/
theorem flattens_layOutFields (id : ClassId) (first : Nat) (fields : List (Source.VarDecl × Nat)) :
    Flattens Ir.FlatFields (layOutFields a id first fields) := by
  induction fields with
  | nil => exact .pure (List.forall_mem_nil _)
  | cons field rest ih =>
    exact .bind (flattens_irTyOf a _) fun _ hty => .bind (.modify fun _ hs => hs) fun _ _ =>
      .bind ih fun _ hfields => .pure (List.forall_mem_cons.2 ⟨hty, hfields⟩)

/-- Those that it inherits are those of a struct that is flat. -/
theorem flattens_inheritedLayout (id : ClassId) :
    Flattens (fun r => Ir.FlatFields r.1) (inheritedLayout a id) := by
  unfold inheritedLayout
  split
  · refine .bind (flat_classLayout _) fun above _ => .get_bind fun s hs =>
      .bind (P := fun struct => Ir.FlatFields struct.fields) (.lift fun struct h => ?_)
        fun struct hstruct => .pure fun f hf => hstruct f (List.mem_of_mem_drop hf)
    cases hstruct : s.ir.struct above.instance_ with
    | error e => rw [hstruct] at h; cases h
    | ok struct' =>
      rw [hstruct] at h
      cases h
      exact hs _ (Ir.mem_structs_of_ok hstruct)
  · exact .pure (List.forall_mem_nil _)

theorem flat_layOutMethods (id : ClassId) (methods : List (Source.FunctionDecl × Nat))
    (entries : List (String × Ir.ProcId)) : KeepsFlat (layOutMethods id methods entries) := by
  induction methods generalizing entries with
  | nil => exact .pure trivial
  | cons m rest ih => exact .bind (flat_methodProc _) fun _ _ => ih _

/-- Vtables hold procedures. -/
theorem flattens_vtableFields (entries : List (String × Ir.ProcId)) :
    Flattens Ir.FlatFields (vtableFields entries) := by
  induction entries with
  | nil => exact .pure (List.forall_mem_nil _)
  | cons e rest ih =>
    exact .bind (flat_procDecl _) fun _ _ => .bind ih fun _ hfields =>
      .pure (List.forall_mem_cons.2 ⟨rfl, hfields⟩)

/-- **The struct of a class** holds a pointer, what the class inherits and what it
declares. -/
theorem flat_layOutClass (id : ClassId) (c : Source.ClassDecl) : KeepsFlat (layOutClass a id c) :=
  .bind (flattens_inheritedLayout a id) fun _ hinherited =>
    .bind (flattens_layOutFields a _ _ _) fun _ hown => .bind (flat_layOutMethods _ _ _) fun _ _ =>
    .bind (flattens_vtableFields _) fun _ hslots => .bind (flat_classLayout id) fun _ _ =>
    .bind (flat_setFields _ (List.forall_mem_cons.2
      ⟨rfl, List.forall_mem_append.2 ⟨hinherited, hown⟩⟩)) fun _ _ =>
    .bind (flat_setFields _ hslots) fun _ _ =>
    .bind (.modifyIr fun _ _ hset hs => hs.congr (Ir.structs_setInit hset)) fun _ _ =>
    .modify fun _ hs => hs

theorem flat_layOutEach (p : Source.Program) (ids : List ClassId) :
    KeepsFlat (layOutEach a p ids) := by
  induction ids with
  | nil => exact .pure trivial
  | cons id rest ih =>
    unfold layOutEach
    cases p.classes[id]? with
    | none => exact .bind (.throw (P := fun _ => True) _) fun _ _ => ih
    | some c => exact .bind (flat_layOutClass a id c) fun _ _ => ih

/-! ## Programs -/

variable {a} {src : Source.Program} {options : Options} {ir : Ir.Program}

theorem flat_buildProgram (src : Source.Program) (options : Options) :
    KeepsFlat (buildProgram a src options) :=
  .bind (flat_declareClasses _) fun _ _ => .bind (flat_declareFunctions a _) fun _ _ =>
    .bind (flat_declareMethods a _) fun _ _ =>
    .bind (.bind (P := fun _ => True) (.lift fun _ _ => trivial) fun _ _ => flat_layOutEach a src _)
      fun _ _ =>
    .bind (keepsFlat_of_tame (tame_lowerFunctions fun f _ s proc _ =>
      tame_lowerBody_flat a options false f.1 proc s)) fun _ _ =>
    keepsFlat_of_tame (tame_lowerClasses fun _ _ m _ s proc _ =>
      tame_lowerBody_flat a options true m.1 proc s)

/-- **Structs of lowered programs are flat**, whatever analysis these are lowered
with. -/
theorem flat_lowerProgram (h : lowerProgram a src options = .ok ir) : ir.Flat := by
  obtain ⟨s, hrun, rfl⟩ := run_of_lowerProgram h
  have hstart : Session.start.ir.Flat := List.forall_mem_nil _
  exact ((flat_buildProgram src options .start hstart).result hrun).2

/-- **Layouts are sound** where no struct is nested in itself and sizes fit into 32
bits: every field has its place, aligned and apart from the others, and the
computations of sizes, alignments and offsets come to that one layout. They end on
all lowered programs, as none of these nests a struct in itself. -/
theorem layouts_sound :
    (∀ p : Ir.Program, p.Acyclic → p.Fits → ∀ id s, p.structs[id]? = some s →
      p.WellPlaced id s ∧ p.Agrees id s) ∧
    ∀ (a : Typing.Analysis) (src : Source.Program) (options : Options) (ir : Ir.Program),
      lowerProgram a src options = .ok ir → ir.Acyclic ∧ ∀ query : Ir.Query, query.Ends ir :=
  ⟨fun _ hacyclic hfits _ _ hs => ⟨hacyclic.wellPlaced hs, hacyclic.agrees hfits hs⟩,
    fun _ _ _ _ h =>
      have hacyclic := (flat_lowerProgram h).acyclic
      ⟨hacyclic, hacyclic.ends⟩⟩

/-- The first struct of `nested`. -/
def inner : Ir.StructDef := ⟨"inner", [⟨"flag", .bool⟩, ⟨"next", .ptr .int⟩]⟩

/-- The second one, which holds the first. -/
def outer : Ir.StructDef :=
  ⟨"outer", [⟨"first", .bool⟩, ⟨"part", .struct 0⟩, ⟨"length", .int⟩, ⟨"data", .array .bool 0⟩]⟩

/-- A struct in a struct, with an array without elements behind it. -/
def nested : Ir.Program := ⟨[inner, outer], [], []⟩

example : (List.range 5).map (nested.fieldOffset 1) = [0, 8, 24, 28, 28] ∧
    nested.extent (.struct 1) = ⟨32, 8⟩ := by decide

theorem eq_of_nested {id : Ir.StructId} {s : Ir.StructDef} (h : nested.structs[id]? = some s) :
    id = 0 ∧ s = inner ∨ id = 1 ∧ s = outer := by
  rcases id with _ | _ | id
  · exact .inl ⟨rfl, (Option.some.inj h).symm⟩
  · exact .inr ⟨rfl, (Option.some.inj h).symm⟩
  · cases h

theorem acyclic_nested : nested.Acyclic := by
  have hbelow (id part : Ir.StructId) (h : nested.Nests id part) : part < id := by
    obtain ⟨s, hs, f, hf, hpart⟩ := h
    rcases eq_of_nested hs with ⟨rfl, rfl⟩ | ⟨rfl, rfl⟩
    · simp only [inner, List.mem_cons, List.not_mem_nil, or_false] at hf
      rcases hf with rfl | rfl <;> cases hpart
    · simp only [outer, List.mem_cons, List.not_mem_nil, or_false] at hf
      rcases hf with rfl | rfl | rfl | rfl <;> simp [Ir.Ty.parts] at hpart
      exact hpart ▸ Nat.one_pos
  intro id hcycle
  have hless {part : Ir.StructId} (h : Relation.TransGen nested.Nests id part) : part < id := by
    induction h with
    | single h => exact hbelow _ _ h
    | tail _ h ih => exact Nat.lt_trans (hbelow _ _ h) ih
  exact Nat.lt_irrefl id (hless hcycle)

theorem fits_nested : nested.Fits := by
  intro id s hs
  rcases eq_of_nested hs with ⟨rfl, rfl⟩ | ⟨rfl, rfl⟩
  · exact ⟨by decide, by simp [inner, Ir.Ty.Fits]⟩
  · exact ⟨by decide, by simp [outer, Ir.Ty.Fits]; decide⟩

/-- A main function that makes an array of objects. -/
def making : Source.Program where
  functions := [⟨0, .int, "main", [], .mk
    [.expr none (.newArray ⟨1, none⟩ (.class_ "Link") (.int ⟨2, none⟩ 3)),
      .ret none (.int ⟨3, none⟩ 0)] none, none⟩]
  classes := [⟨4, "Link", none, [⟨5, .class_ "Link", "next", none⟩, ⟨6, .bool, "last", none⟩], [],
    none⟩]
  pos := none

theorem layouts_sound_nested : nested.Acyclic ∧ nested.Fits ∧ nested.WellPlaced 1 outer ∧
    nested.Agrees 1 outer ∧
    ∃ ir, lowerProgram (Typing.analyze making .default) making .default = .ok ir ∧
      ir.structs.map (·.name) = ["class_Link", "vtable_Link", "array_Link"] ∧
      ir.Acyclic ∧ ∀ query : Ir.Query, query.Ends ir := by
  obtain ⟨hplaced, hagrees⟩ := layouts_sound.1 nested acyclic_nested fits_nested 1 outer rfl
  refine ⟨acyclic_nested, fits_nested, hplaced, hagrees, ?_⟩
  have hstructs : (lowerProgram (Typing.analyze making .default) making .default).map
      (·.structs.map (·.name)) = .ok ["class_Link", "vtable_Link", "array_Link"] := by decide +kernel
  cases hlower : lowerProgram (Typing.analyze making .default) making .default with
  | error e => rw [hlower] at hstructs; cases hstructs
  | ok ir =>
    rw [hlower] at hstructs
    exact ⟨ir, rfl, Except.ok.inj hstructs, layouts_sound.2 _ _ _ ir hlower⟩

end Lowering

end ClassLang
