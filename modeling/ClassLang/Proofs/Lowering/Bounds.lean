import ClassLang.Proofs.Lowering.Blocks
/-!
# Lowering — what stays in bounds

Lowering looks up structs, procedures and classes by number. No part of it but
the order of the classes asks for a class that is not there: every other fault
is one that is reported (`Tame`). On the way the session changes as any relation
says that is `Indifferent` to what stands beside procedures, or `Lenient` with
allocators. Bodies need no more of a relation than that types and allocators can
be made (`Hosts`).
-/


namespace ClassLang

namespace Lowering

open Ir (Operand BlockId Builder)

/-! ## The session -/

/-- **The fault is reported**: it is not about a class that is not there. -/
def Error.Reported (e : Error) : Prop := ∀ id count, e ≠ .classOutOfRange id count

/-- **The body of an allocator**: what is built for one. -/
inductive Allocates : Builder → Prop
  | object {p struct vtable fields params ret b} :
      (objectBody p struct vtable fields).run (.start params ret) = .ok ((), b) → Allocates b
  | array {p struct elemTy params ret b} :
      (arrayBody p struct elemTy).run (.start params ret) = .ok ((), b) → Allocates b

/-- The procedures stay, and so does what they are made for. -/
structure Session.SameProcs (s s' : Session) : Prop where
  procs : s'.ir.procs = s.ir.procs
  functionProcs : s'.functionProcs = s.functionProcs
  methodProcs : s'.methodProcs = s.methodProcs

/-- **A relation that the session keeps** if procedures stay. -/
class Indifferent (R : Session → Session → Prop) : Prop extends IsPreorder Session R where
  beside : ∀ {s s'}, s.SameProcs s' → R s s'

instance : Indifferent Session.SameProcs where
  refl _ := ⟨rfl, rfl, rfl⟩
  trans _ _ _ h h' := ⟨h'.procs.trans h.procs, h'.functionProcs.trans h.functionProcs,
    h'.methodProcs.trans h.methodProcs⟩
  beside := id

/-- With a procedure that has no body. -/
def Session.withDeclared (s : Session) (name : String) (ret : Ir.Ty) (params : List Ir.Field) :
    Session :=
  { s with ir.procs := s.ir.procs ++ [⟨name, ret, params, [], []⟩] }

/-- **A relation that allows for allocators**: a procedure that is declared for
one, and gets the body of one, while all others stay. -/
class Lenient (R : Session → Session → Prop) : Prop extends Indifferent R where
  allocator : ∀ {s s' s'' name ret params b}, (s.withDeclared name ret params).SameProcs s' →
    Allocates b → (defineProc s.ir.procs.length b).run s' = .ok ((), s'') → R s s''

instance : Lenient fun _ _ => True where
  refl _ := trivial
  trans _ _ _ _ _ := trivial
  beside _ := trivial
  allocator _ _ _ := trivial

variable {α : Type} {R : Session → Session → Prop}

variable (R) in
/-- Whatever the session is, every fault is reported, and the session changes as
`R` says. -/
def Tame (x : Build α) : Prop := Stays Error.Reported R x

/-- What fails in the program is reported as such. -/
theorem reported_ofIr {r : Except Ir.Error α} : ∀ e, ofIr r = .error e → e.Reported := by
  rintro e h id count rfl
  cases r <;> cases h

theorem reported_orFault {fault : Error} {o : Option α} (h : fault.Reported) :
    ∀ e, orFault fault o = .error e → e.Reported := by
  intro e he
  cases o <;> cases he
  exact h

variable (a : Typing.Analysis)

/-! ## What is looked up -/

section Preorder

variable [IsPreorder Session R]

theorem tame_ofIr {r : Except Ir.Error α} : Tame R (liftM (ofIr r)) := .lift reported_ofIr

/-- A look-up that finds nothing says what is missing. -/
theorem tame_classLayout (id : ClassId) : Tame R (classLayout id) :=
  .bind .get fun _ => .lift (reported_orFault fun _ _ h => nomatch h)

theorem tame_fieldSlot (ref : MemberRef) : Tame R (fieldSlot ref) :=
  .bind .get fun _ => .lift (reported_orFault fun _ _ h => nomatch h)

theorem tame_methodProc (ref : MemberRef) : Tame R (methodProc ref) :=
  .bind .get fun _ => .lift (reported_orFault fun _ _ h => nomatch h)

theorem tame_functionProc (index : Nat) : Tame R (functionProc index) :=
  .bind .get fun _ => .lift (reported_orFault fun _ _ h => nomatch h)

theorem tame_procDecl (id : Ir.ProcId) : Tame R (procDecl id) :=
  .bind .get fun _ => tame_ofIr

/-- **What a method call needs** is looked up step by step, each with a fault of its own. -/
theorem tame_callTarget (receiver : Source.NodeId) (method : String) (ref : MemberRef) :
    Tame R (callTarget a receiver method ref) := by
  refine .bind (.lift (reported_orFault fun _ _ h => nomatch h)) fun ty => ?_
  cases ty with
  | class_ id =>
    refine .bind (.pure id) fun _ => .bind (tame_classLayout _) fun _ =>
      .bind (.lift (reported_orFault fun _ _ h => nomatch h)) fun _ =>
      .bind (tame_methodProc _) fun _ => .bind (tame_procDecl _) fun decl => ?_
    split
    · exact .throw fun _ _ h => nomatch h
    · exact .pure _
  | _ => exact fun _ _ _ h => nomatch h

theorem tame_layOutMethods (id : ClassId) (methods : List (Source.FunctionDecl × Nat))
    (entries : List (String × Ir.ProcId)) : Tame R (layOutMethods id methods entries) := by
  induction methods generalizing entries with
  | nil => exact .pure _
  | cons m rest ih => exact .bind (tame_methodProc _) fun _ => ih _

theorem tame_vtableFields (entries : List (String × Ir.ProcId)) :
    Tame R (vtableFields entries) := by
  induction entries with
  | nil => exact .pure _
  | cons e rest ih => exact .bind (tame_procDecl _) fun _ => .bind ih fun _ => .pure _

/-- The layout of a superclass is asked for by the class that the analysis names. -/
theorem tame_inheritedLayout (id : ClassId) : Tame R (inheritedLayout a id) := by
  unfold inheritedLayout
  split
  · exact .bind (tame_classLayout _) fun _ => .bind .get fun _ => .bind tame_ofIr fun _ => .pure _
  · exact .pure _

end Preorder

/-! ## What stands beside procedures -/

section Indifferent

variable [Indifferent R]

/-- A change of the session that leaves its procedures. -/
theorem tame_modify {f : Session → Session} (h : ∀ s : Session, s.SameProcs (f s)) :
    Tame R (modify f) := fun s => Indifferent.beside (h s)

theorem tame_modifyGet {f : Session → α × Session} (h : ∀ s : Session, s.SameProcs (f s).2) :
    Tame R (modifyGet f) := fun s => Indifferent.beside (h s)

/-- A change of the program is made or fails as a whole. -/
theorem ends_modifyIr {change : Ir.Program → Except Ir.Error Ir.Program} {s : Session}
    {P : PUnit → Session → Prop} (h : ∀ ir, change s.ir = .ok ir → P ⟨⟩ { s with ir := ir }) :
    Ends Error.Reported (modifyIr change) s P := by
  refine .get_bind ?_
  cases hchange : change s.ir with
  | ok ir => exact h ir hchange
  | error e => exact fun _ _ h => nomatch h

/-- The fields of a struct stand beside procedures. -/
theorem tame_setFields (id : Ir.StructId) (fields : List Ir.Field) :
    Tame R (modifyIr (·.setFields id fields)) := fun s => ends_modifyIr fun ir h => by
  unfold Ir.Program.setFields at h
  cases hstruct : s.ir.struct id with
  | error e => rw [hstruct] at h; cases h
  | ok decl => rw [hstruct] at h; cases h; exact Indifferent.beside ⟨rfl, rfl, rfl⟩

/-- So do the constants of globals. -/
theorem tame_setInit (id : Ir.GlobalId) (init : Ir.Const) :
    Tame R (modifyIr (·.setInit id init)) := fun s => ends_modifyIr fun ir h => by
  unfold Ir.Program.setInit at h
  cases hglobal : s.ir.global id with
  | error e => rw [hglobal] at h; cases h
  | ok g => rw [hglobal] at h; cases h; exact Indifferent.beside ⟨rfl, rfl, rfl⟩

/-- A body comes into a procedure that is there, or else that is reported. -/
theorem reported_defineProc (id : Ir.ProcId) (body : Builder) (s : Session) :
    Ends Error.Reported (defineProc id body) s fun _ _ => True :=
  (tame_procDecl (R := fun _ _ => True) id s).bind fun _ _ _ => ends_modifyIr fun _ _ => trivial

/-- A struct for arrays is added and noted beside procedures. -/
theorem tame_arrayStructOf {irTy : Ty → Build Ir.Ty} (h : ∀ ty, Tame R (irTy ty)) (elem : Ty) :
    Tame R (arrayStructOf a irTy elem) := .bind .get fun s => by
  split
  · exact .pure _
  · exact .bind (h elem) fun _ => .bind (tame_modifyGet fun _ => ⟨rfl, rfl, rfl⟩) fun _ =>
      .bind (tame_setFields _ _) fun _ => .bind (tame_modify fun _ => ⟨rfl, rfl, rfl⟩) fun _ => .pure _

/-- **A type that has no representation** is reported with its name. -/
theorem tame_irTyWithin (depth : Nat) (ty : Ty) : Tame R (irTyWithin a depth ty) := by
  have hother {ty : Ty} : Tame R (throw (.noRepresentation (a.text ty)) : Build Ir.Ty) :=
    .throw fun _ _ h => nomatch h
  induction depth generalizing ty with
  | zero =>
    cases ty with
    | int | bool => exact .pure _
    | class_ id => exact .bind (tame_classLayout id) fun _ => .pure _
    | null | any | invalid | array => exact hother
  | succ depth ih =>
    cases ty with
    | int | bool => exact .pure _
    | class_ id => exact .bind (tame_classLayout id) fun _ => .pure _
    | array id => exact .bind (tame_arrayStructOf a ih _) fun _ => .pure _
    | null | any | invalid => exact hother

theorem tame_irTy (ty : Ty) : Tame R (irTy a ty) := tame_irTyWithin a _ ty

theorem tame_arrayStruct (elem : Ty) : Tame R (arrayStruct a elem) :=
  tame_arrayStructOf a (tame_irTy a) elem

theorem tame_irTyOf (ty : Source.TypeExpr) : Tame R (irTyOf a ty) :=
  .bind (.lift (reported_orFault fun _ _ h => nomatch h)) fun _ => tame_irTy a _

theorem tame_irParams (params : List Source.VarDecl) : Tame R (irParams a params) := by
  induction params with
  | nil => exact .pure _
  | cons param rest ih => exact .bind (tame_irTyOf a _) fun _ => .bind ih fun _ => .pure _

/-! ## Declarations, layouts and allocators -/

/-- Classes are declared beside procedures. -/
theorem tame_declareClasses (cs : List Source.ClassDecl) : Tame R (declareClasses cs) := by
  induction cs with
  | nil => exact .pure _
  | cons c rest ih =>
    exact .bind (tame_modifyGet fun _ => ⟨rfl, rfl, rfl⟩) fun _ => .bind (tame_modifyGet fun _ => ⟨rfl, rfl, rfl⟩) fun _ =>
      .bind (tame_modifyGet fun _ => ⟨rfl, rfl, rfl⟩) fun _ => .bind (tame_modify fun _ => ⟨rfl, rfl, rfl⟩) fun _ => ih

theorem tame_layOutFields (id : ClassId) (first : Nat) (fields : List (Source.VarDecl × Nat)) :
    Tame R (layOutFields a id first fields) := by
  induction fields with
  | nil => exact .pure _
  | cons field rest ih =>
    exact .bind (tame_irTyOf a _) fun _ => .bind (tame_modify fun _ => ⟨rfl, rfl, rfl⟩) fun _ =>
      .bind ih fun _ => .pure _

/-- **A class that is there is laid out**: what it asks for is its own. -/
theorem tame_layOutClass (id : ClassId) (c : Source.ClassDecl) : Tame R (layOutClass a id c) :=
  .bind (tame_inheritedLayout a id) fun _ => .bind (tame_layOutFields a _ _ _) fun _ =>
    .bind (tame_layOutMethods _ _ _) fun _ => .bind (tame_vtableFields _) fun _ =>
    .bind (tame_classLayout id) fun _ => .bind (tame_setFields _ _) fun _ =>
    .bind (tame_setFields _ _) fun _ => .bind (tame_setInit _ _) fun _ => tame_modify fun _ => ⟨rfl, rfl, rfl⟩

/-- Classes that are there are laid out without asking for one that is not. -/
theorem tame_layOutEach (p : Source.Program) {ids : List ClassId}
    (hids : ∀ id ∈ ids, id < p.classes.length) : Tame R (layOutEach a p ids) := by
  induction ids with
  | nil => exact .pure _
  | cons id rest ih =>
    rw [List.forall_mem_cons] at hids
    unfold layOutEach
    rw [List.getElem?_eq_getElem hids.1]
    exact .bind (tame_layOutClass a id _) fun _ => ih hids.2

end Indifferent

section Lenient

variable {s : Session} {name : String} {ret : Ir.Ty} {params : List Ir.Field} {β : Type}

/-- Between the declaration of a procedure and its body, procedures stay. -/
theorem ends_sameProcs_bind {F : Error → Prop} {s s' : Session} {x : Build α} {k : α → Build β}
    {P : β → Session → Prop} (h : s.SameProcs s') (hx : Stays F Session.SameProcs x)
    (hk : ∀ v s', s.SameProcs s' → Ends F (k v) s' P) : Ends F (x >>= k) s' P :=
  (hx s').bind fun v _ hs => hk v _ (trans_of Session.SameProcs h hs)

/-- A procedure that is declared has the next number. -/
theorem tame_declareProc_bind {k : Ir.ProcId → Build β}
    (hk : ∀ s s', (s.withDeclared name ret params).SameProcs s' →
      Ends Error.Reported (k s.ir.procs.length) s' fun _ s'' => R s s'') :
    Tame R (declareProc name ret params >>= k) := fun s => hk s _ ⟨rfl, rfl, rfl⟩

variable [Lenient R]

/-- **A procedure that is declared for an allocator** gets its body. -/
theorem ends_defineWith {s' : Session}
    (hs : (s.withDeclared name ret params).SameProcs s') {body : Ir.Program → Emit Unit}
    (h : ∀ p params ret b, (body p).run (.start params ret) = .ok ((), b) → Allocates b) :
    Ends Error.Reported (defineWith s.ir.procs.length body) s' fun _ s'' => R s s'' :=
  ends_sameProcs_bind hs (tame_procDecl _) fun decl s' hs => .get_bind <|
    Ends.bind (P := fun r s'' => Allocates r.2 ∧ s'' = s') (.lift (fun r hr => by
      cases hrun : (body s'.ir).run (.start decl.params decl.ret) with
      | error e => rw [hrun] at hr; cases hr
      | ok r' => rw [hrun] at hr; cases hr; exact ⟨h _ _ _ _ hrun, rfl⟩) reported_ofIr)
    fun r s'' ⟨hr, hs''⟩ => by
      subst hs''
      cases hrun : (defineProc s.ir.procs.length r.2).run s'' with
      | ok r' => exact .of_ok hrun (Lenient.allocator hs hr hrun)
      | error e => exact .of_error hrun ((reported_defineProc _ _ _).fault hrun)

/-- **The allocator of a class** is found, or declared, noted and defined. -/
theorem tame_classAllocator (id : ClassId) : Tame R (classAllocator id) := .bind .get fun s => by
  split
  · exact .pure _
  · exact .bind (tame_classLayout id) fun _ => tame_declareProc_bind fun _ _ hs =>
      ends_sameProcs_bind hs (tame_modify fun _ => ⟨rfl, rfl, rfl⟩) fun _ _ hs =>
      .get_bind <| ends_sameProcs_bind hs tame_ofIr fun _ _ hs =>
      (ends_defineWith hs fun _ _ _ _ => .object).bind fun _ _ h => h

/-- **So is the allocator of arrays.** -/
theorem tame_arrayAllocator (elem : Ty) : Tame R (arrayAllocator a elem) := .bind .get fun s => by
  split
  · exact .pure _
  · exact .bind (tame_arrayStruct a elem) fun _ => .bind (tame_irTy a elem) fun _ =>
      tame_declareProc_bind fun _ _ hs =>
      ends_sameProcs_bind hs (tame_modify fun _ => ⟨rfl, rfl, rfl⟩) fun _ _ hs =>
      (ends_defineWith hs fun _ _ _ _ => .array).bind fun _ _ h => h

end Lenient

/-- **A relation that the session keeps** while bodies are lowered: as the types
that are written get their representations, and allocators are made. -/
class Hosts (a : Typing.Analysis) (R : Session → Session → Prop) : Prop extends
    IsPreorder Session R where
  irTyOf : ∀ ty, Tame R (irTyOf a ty)
  classAllocator : ∀ id, Tame R (classAllocator id)
  arrayAllocator : ∀ elem, Tame R (arrayAllocator a elem)

instance [Lenient R] : Hosts a R where
  irTyOf := tame_irTyOf a
  classAllocator := tame_classAllocator
  arrayAllocator := tame_arrayAllocator a

/-- The session keeps two such relations at once. -/
theorem Hosts.and {R' : Session → Session → Prop} [Hosts a R] [Hosts a R'] :
    Hosts a fun s s' => R s s' ∧ R' s s' where
  refl s := ⟨refl_of R s, refl_of R' s⟩
  trans _ _ _ h h' := ⟨trans_of R h.1 h'.1, trans_of R' h.2 h'.2⟩
  irTyOf ty s := (Hosts.irTyOf ty s).and (Hosts.irTyOf ty s)
  classAllocator id s := (Hosts.classAllocator a id s).and (Hosts.classAllocator a id s)
  arrayAllocator elem s := (Hosts.arrayAllocator elem s).and (Hosts.arrayAllocator elem s)

/-- Functions and methods are declared for their own sake, so procedures come in. -/
theorem tame_declareFunctions (fs : List Source.FunctionDecl) :
    Tame (fun _ _ => True) (declareFunctions a fs) := by
  induction fs with
  | nil => exact .pure _
  | cons f rest ih =>
    exact .bind (tame_irParams a _) fun _ => .bind (tame_irTyOf a _) fun _ =>
      .bind (fun _ => trivial) fun _ => .bind (fun _ => trivial) fun _ => ih

theorem tame_declareMethodsOf (id : ClassId) (c : Source.ClassDecl) (this : Ir.Ty)
    (methods : List (Source.FunctionDecl × Nat)) :
    Tame (fun _ _ => True) (declareMethodsOf a id c this methods) := by
  induction methods with
  | nil => exact .pure _
  | cons m rest ih =>
    exact .bind (tame_irParams a _) fun _ => .bind (tame_irTyOf a _) fun _ =>
      .bind (fun _ => trivial) fun _ => .bind (fun _ => trivial) fun _ => ih

theorem tame_declareMethods (cs : List (Source.ClassDecl × Nat)) :
    Tame (fun _ _ => True) (declareMethods a cs) := by
  induction cs with
  | nil => exact .pure _
  | cons c rest ih =>
    exact .bind (tame_classLayout _) fun _ => .bind (tame_declareMethodsOf a _ _ _ _) fun _ => ih

end Lowering

end ClassLang
