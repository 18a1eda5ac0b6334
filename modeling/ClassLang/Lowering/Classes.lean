import ClassLang.Lowering.Session
/-!
# Lowering — objects and vtables

An object starts with a pointer to the vtable of its class. Then come all
inherited fields and the fields that its class declares, so the struct of
a superclass is the front of the struct of a subclass, and a hidden field
has a place of its own. A vtable starts with the slots of the superclass;
an overriding method takes the slot of the method that it overrides, and
every other method a new one at the end.
-/


namespace ClassLang.Lowering

open Source (Program ClassDecl FunctionDecl VarDecl)
open Typing (Analysis)
open Ir (ProcId)

/-! ## Declarations -/

/-- Makes the structs and the vtable of classes, all of them still empty,
so that types can name every class. -/
def declareClasses : List ClassDecl → Build Unit
  | [] => return
  | c :: rest => do
    let instance_ ← addStruct ("class_" ++ c.name)
    let vtable ← addStruct ("vtable_" ++ c.name)
    let vtableGlobal ←
      addGlobal ⟨"_vtable_" ++ c.name, .struct vtable, true, .struct vtable []⟩
    let layout : ClassLayout := ⟨c.name, instance_, vtable, vtableGlobal, []⟩
    modify fun s => { s with classes := s.classes ++ [layout] }
    declareClasses rest

variable (a : Analysis)

/-- Declares the procedures of free functions. -/
def declareFunctions : List FunctionDecl → Build Unit
  | [] => return
  | f :: rest => do
    let params ← irParams a f.params
    let ret ← irTyOf a f.returnType
    let id ← declareProc f.name ret params
    modify fun s => { s with functionProcs := s.functionProcs ++ [id] }
    declareFunctions rest

/-- Declares the procedures of methods, each with its index in the class;
the receiver is their first parameter. -/
def declareMethodsOf (id : ClassId) (c : ClassDecl) (this : Ir.Ty) :
    List (FunctionDecl × Nat) → Build Unit
  | [] => return
  | (method, index) :: rest => do
    let params ← irParams a method.params
    let ret ← irTyOf a method.returnType
    let proc ← declareProc (c.name ++ "_" ++ method.name) ret (⟨"this", this⟩ :: params)
    modify fun s => { s with methodProcs := s.methodProcs.insert ⟨id, index⟩ proc }
    declareMethodsOf id c this rest

/-- Declares the procedures of the methods of classes, each with its
index. -/
def declareMethods : List (ClassDecl × Nat) → Build Unit
  | [] => return
  | (c, id) :: rest => do
    let layout ← classLayout id
    declareMethodsOf a id c (.ptr (.struct layout.instance_)) c.methods.zipIdx
    declareMethods rest

/-! ## The order of the classes -/

/-- Adds a class to the order, behind its superclasses; `chain` holds the
classes that the climb came through. -/
def visit (p : Program) (t : ClassTable) (chain : List ClassId) (id : ClassId)
    (order : List ClassId) : Except Error (List ClassId) :=
  match _hdecl : p.classes[id]? with
  | none => throw (.classOutOfRange id p.classes.length)
  | some decl =>
    if id ∈ order then return order
    else if _hchain : id ∈ chain then throw (.inheritanceCycle decl.name)
    else do
      let order ← match t.superclass id with
        | some superclass => visit p t (id :: chain) superclass order
        | none => pure order
      return order ++ [id]
termination_by (offChain p chain).length
decreasing_by exact length_offChain_lt _hdecl _hchain

/-- Every class behind its superclass, apart from that in the order of
their declarations. -/
def classOrder (p : Program) (t : ClassTable) : Except Error (List ClassId) :=
  (List.range p.classes.length).foldlM (fun order id => visit p t [] id order) []

/-! ## Layout -/

/-- The entries of a vtable with a method in them: in the slot of its name,
or in a new one. -/
def putEntry (entries : List (String × ProcId)) (name : String) (proc : ProcId) :
    List (String × ProcId) :=
  match (entries.map (·.1)).idxOf? name with
  | some slot => entries.set slot (name, proc)
  | none => entries ++ [(name, proc)]

/-- A name that has a slot keeps it, and a new name gets the slot behind all
others. -/
theorem map_fst_putEntry (entries : List (String × ProcId)) (name : String) (proc : ProcId) :
    (putEntry entries name proc).map (·.1) =
      if name ∈ entries.map (·.1) then entries.map (·.1) else entries.map (·.1) ++ [name] := by
  unfold putEntry
  split
  next slot hslot =>
    obtain ⟨hlt, hname, -⟩ := List.idxOf?_eq_some_iff.1 hslot
    have hname : (entries.map (·.1))[slot] = name := by simpa using hname
    have hmem : name ∈ entries.map (·.1) := hname ▸ List.getElem_mem hlt
    rw [if_pos hmem, List.map_set]
    exact hname ▸ List.set_getElem_self hlt
  next hnone =>
    rw [if_neg (List.idxOf?_eq_none_iff.1 hnone)]
    simp

/-- The struct fields of the fields that a class declares, each with its
index; they are placed from `first` on. -/
def layOutFields (id : ClassId) (first : Nat) : List (VarDecl × Nat) → Build (List Ir.Field)
  | [] => return []
  | (field, index) :: rest => do
    let ty ← irTyOf a field.ty
    modify fun s => { s with fieldSlots := s.fieldSlots.insert ⟨id, index⟩ (first + index) }
    return ⟨field.name, ty⟩ :: (← layOutFields id first rest)

/-- The entries of a vtable with the methods that a class declares, each
with its index. -/
def layOutMethods (id : ClassId) :
    List (FunctionDecl × Nat) → List (String × ProcId) → Build (List (String × ProcId))
  | [], entries => return entries
  | (method, index) :: rest, entries => do
    let proc ← methodProc ⟨id, index⟩
    layOutMethods id rest (putEntry entries method.name proc)

/-- The struct fields of a vtable: a pointer to a procedure in each slot. -/
def vtableFields : List (String × ProcId) → Build (List Ir.Field)
  | [] => return []
  | (name, proc) :: rest => do
    let decl ← procDecl proc
    return ⟨name, decl.signature⟩ :: (← vtableFields rest)

/-- The fields and the vtable entries that a class inherits. -/
def inheritedLayout (id : ClassId) : Build (List Ir.Field × List (String × ProcId)) := do
  match a.classes.superclass id with
  | some superclass =>
    let above ← classLayout superclass
    let struct ← ofIr ((← get).ir.struct above.instance_)
    return (struct.fields.drop 1, above.entries)
  | none => return ([], [])

/-- Lays out a class whose superclass is laid out. -/
def layOutClass (id : ClassId) (c : ClassDecl) : Build Unit := do
  let (inherited, entries) ← inheritedLayout a id
  let own ← layOutFields a id (inherited.length + 1) c.fields.zipIdx
  let entries ← layOutMethods id c.methods.zipIdx entries
  let slots ← vtableFields entries
  let layout ← classLayout id
  let header : Ir.Field := ⟨"_vtable", .ptr (.struct layout.vtable)⟩
  modifyIr (·.setFields layout.instance_ (header :: inherited ++ own))
  modifyIr (·.setFields layout.vtable slots)
  let init := Ir.Const.struct layout.vtable (entries.map fun (_, proc) => .proc proc)
  modifyIr (·.setInit layout.vtableGlobal init)
  modify fun s => { s with classes := s.classes.set id { layout with entries := entries } }

/-- Lays out classes in turn. -/
def layOutEach (p : Program) : List ClassId → Build Unit
  | [] => return
  | id :: rest => do
    match p.classes[id]? with
    | some c => layOutClass a id c
    | none => throw (.classOutOfRange id p.classes.length)
    layOutEach p rest

/-- Lays out all classes. -/
def layOutClasses (p : Program) : Build Unit := do
  let order ← (classOrder p a.classes : Except Error (List ClassId))
  layOutEach a p order

end ClassLang.Lowering
