import ClassLang.Proofs.Lowering.Accounts
import ClassLang.Proofs.Lowering.Allocators
/-!
# Lowering — the session, one change at a time

Lowering works on its session by few operations, which `Change` names. A change
fits a session if it takes nothing from the tables there. What these are there
for (`Session.Memos`) is kept by every change that fits (`Change.step`): there is
one struct for each type of arrays and one procedure for whatever `new` makes, and
an entry stays as it is (`Session.Retains`).
-/


namespace ClassLang.Lowering

open Typing (Analysis)
open Ir (StructId GlobalId ProcId)

/-! ## What `new` makes -/

/-- What an allocator makes: objects of a class, or arrays over an element
type. -/
inductive Made
  | object (id : ClassId)
  | array (elem : Ty)
deriving DecidableEq, Repr

namespace Session

variable {s : Session} {made other : Made} {proc : ProcId}

/-- The procedure that makes it, if there is one by now. -/
def allocator? (s : Session) : Made → Option ProcId
  | .object id => s.classAllocators.get? id
  | .array elem => s.arrayAllocators.get? elem

/-- The session that knows a procedure to make it. -/
def withAllocator (s : Session) (proc : ProcId) : Made → Session
  | .object id => { s with classAllocators := s.classAllocators.insert id proc }
  | .array elem => { s with arrayAllocators := s.arrayAllocators.insert elem proc }

theorem allocator?_withAllocator_self : (s.withAllocator proc made).allocator? made = some proc := by
  cases made <;> exact Table.get?_insert_self _ _ _

theorem allocator?_withAllocator_of_ne (h : made ≠ other) :
    (s.withAllocator proc made).allocator? other = s.allocator? other := by
  cases made <;> cases other <;>
    first
    | rfl
    | exact Table.get?_insert_of_ne _ _ fun heq => h (congrArg _ heq)

/-- The procedure is there to make something. -/
def Allocates (s : Session) (proc : ProcId) : Prop := ∃ made, s.allocator? made = some proc

/-- The procedure has a body. -/
def Defined (s : Session) (proc : ProcId) : Prop :=
  ∃ q, s.ir.procs[proc]? = some q ∧ q.blocks ≠ []

/-- The type of the values of a type, if all that it needs is there. -/
def valueTy? (a : Analysis) (s : Session) : Ty → Option Ir.Ty
  | .int => some .int
  | .bool => some .bool
  | .class_ id => s.classes[id]?.map fun layout => .ptr (.struct layout.instance_)
  | .array id => (s.arrayStructs.get? (a.findings.table.elem id)).map fun struct => .ptr (.struct struct)
  | .null | .any | .invalid => none

/-- The struct is there, and is none of arrays. -/
def NoArray (s : Session) (struct : StructId) : Prop :=
  struct < s.ir.structs.length ∧ ∀ elem, s.arrayStructs.get? elem ≠ some struct

end Session

/-- The struct of the arrays over a type, whose values have the type `target`. -/
def arrayDecl (a : Analysis) (elem : Ty) (target : Ir.Ty) : Ir.StructDef :=
  ⟨"array_" ++ mangle a.findings.table elem, arrayFields target⟩

/-! ## Changes -/

/-- **What lowering does to its session**, one thing at a time. -/
inductive Change
  | addStruct (name : String)
  | setFields (id : StructId) (fields : List Ir.Field)
  | addGlobal (g : Ir.Global)
  | setInit (id : GlobalId) (init : Ir.Const)
  | declareProc (name : String) (ret : Ir.Ty) (params : List Ir.Field)
  | setBody (id : ProcId) (temps : List Ir.Field) (blocks : List Ir.Block)
  | addLayout (layout : ClassLayout)
  | setLayout (id : ClassId) (layout : ClassLayout)
  | noteField (ref : MemberRef) (slot : Nat)
  | noteMethod (ref : MemberRef) (proc : ProcId)
  | noteFunction (proc : ProcId)
  | noteStruct (elem : Ty) (struct : StructId)
  | noteAllocator (made : Made) (proc : ProcId)

namespace Change

/-- What a change does. -/
def perform : Change → Build Unit
  | addStruct name => do let _ ← Lowering.addStruct name
  | setFields id fields => modifyIr (·.setFields id fields)
  | addGlobal g => do let _ ← Lowering.addGlobal g
  | setInit id init => modifyIr (·.setInit id init)
  | declareProc name ret params => do let _ ← Lowering.declareProc name ret params
  | setBody id temps blocks => modifyIr (·.setBody id temps blocks)
  | addLayout layout => modify fun s => { s with classes := s.classes ++ [layout] }
  | setLayout id layout => modify fun s => { s with classes := s.classes.set id layout }
  | noteField ref slot => modify fun s => { s with fieldSlots := s.fieldSlots.insert ref slot }
  | noteMethod ref proc => modify fun s => { s with methodProcs := s.methodProcs.insert ref proc }
  | noteFunction proc => modify fun s => { s with functionProcs := s.functionProcs ++ [proc] }
  | noteStruct elem struct =>
    modify fun s => { s with arrayStructs := s.arrayStructs.insert elem struct }
  | noteAllocator made proc => modify (·.withAllocator proc made)

/-- Does the change give the procedure its body? -/
def defines (proc : ProcId) : Change → Bool
  | setBody id _ _ => id == proc
  | _ => false

/-- **A change fits a session** if it takes nothing from the tables: fields are
given to structs of classes, bodies to procedures that are no allocators, or to
allocators that have none, and what is noted is new. -/
def Fits (a : Analysis) (s : Session) : Change → Prop
  | setFields id _ => ∀ elem, s.arrayStructs.get? elem ≠ some id
  | setBody id _ blocks => blocks ≠ [] ∧ (s.Allocates id → ¬ s.Defined id)
  | addLayout layout => s.NoArray layout.instance_ ∧ s.NoArray layout.vtable
  | setLayout id layout => ∃ old, s.classes[id]? = some old ∧
      layout.instance_ = old.instance_ ∧ layout.vtable = old.vtable
  | noteMethod _ proc | noteFunction proc => proc < s.ir.procs.length ∧ ¬ s.Allocates proc
  | noteStruct elem struct => s.arrayStructs.get? elem = none ∧ s.NoArray struct ∧
      (∀ layout ∈ s.classes, struct ≠ layout.instance_ ∧ struct ≠ layout.vtable) ∧
      ∃ target, s.valueTy? a elem = some target ∧
        s.ir.structs[struct]? = some (arrayDecl a elem target)
  | noteAllocator made proc => s.allocator? made = none ∧ proc < s.ir.procs.length ∧
      s.Spare proc ∧ ¬ s.Allocates proc ∧ ¬ s.Defined proc
  | _ => True

end Change

/-! ## What stays -/

section Invariant

variable {a : Analysis} {s t u : Session}

/-- **The types of values stay**, and so do the structs of arrays. -/
structure Session.KeepsTypes (s t : Session) : Prop where
  arrays : Kept s.arrayStructs t.arrayStructs
  structs : ∀ elem struct, s.arrayStructs.get? elem = some struct →
    t.ir.structs[struct]? = s.ir.structs[struct]?
  instances : ∀ (id : ClassId) layout, s.classes[id]? = some layout →
    ∃ layout', t.classes[id]? = some layout' ∧ layout'.instance_ = layout.instance_

/-- **Allocators stay**, and those that have bodies stay as they are. -/
structure Session.KeepsAllocators (s t : Session) : Prop where
  allocators : ∀ made proc, s.allocator? made = some proc → t.allocator? made = some proc
  bodies : ∀ proc q, s.Allocates proc → s.ir.procs[proc]? = some q → q.blocks ≠ [] →
    t.ir.procs[proc]? = some q

/-- **What is in the tables stays.** -/
structure Session.Retains (s t : Session) : Prop extends Session.KeepsTypes s t,
    Session.KeepsAllocators s t

namespace Session

theorem KeepsTypes.refl (s : Session) : s.KeepsTypes s :=
  ⟨.refl _, fun _ _ _ => rfl, fun _ layout h => ⟨layout, h, rfl⟩⟩

theorem KeepsTypes.trans (h : s.KeepsTypes t) (h' : t.KeepsTypes u) : s.KeepsTypes u := by
  refine ⟨h.arrays.trans h'.arrays, fun elem struct hget => ?_, fun id layout hid => ?_⟩
  · rw [h'.structs elem struct (h.arrays _ _ hget), h.structs elem struct hget]
  · obtain ⟨layout', hid', heq⟩ := h.instances id layout hid
    obtain ⟨layout'', hid'', heq'⟩ := h'.instances id layout' hid'
    exact ⟨layout'', hid'', heq'.trans heq⟩

theorem KeepsTypes.valueTy? (h : s.KeepsTypes t) {ty : Ty} {target : Ir.Ty}
    (hty : s.valueTy? a ty = some target) : t.valueTy? a ty = some target := by
  cases ty with
  | int | bool => exact hty
  | null | any | invalid => cases hty
  | class_ id =>
    obtain ⟨layout, hid, rfl⟩ := Option.map_eq_some_iff.1 hty
    obtain ⟨layout', hid', heq⟩ := h.instances id layout hid
    exact Option.map_eq_some_iff.2 ⟨layout', hid', by rw [heq]⟩
  | array id =>
    obtain ⟨struct, hget, rfl⟩ := Option.map_eq_some_iff.1 hty
    exact Option.map_eq_some_iff.2 ⟨struct, h.arrays _ _ hget, rfl⟩

theorem KeepsAllocators.refl (s : Session) : s.KeepsAllocators s :=
  ⟨fun _ _ h => h, fun _ _ _ h _ => h⟩

theorem KeepsAllocators.trans (h : s.KeepsAllocators t) (h' : t.KeepsAllocators u) :
    s.KeepsAllocators u :=
  ⟨fun made proc hget => h'.allocators made proc (h.allocators made proc hget),
    fun proc q hs hq hblocks => h'.bodies proc q (hs.imp fun made => h.allocators made proc)
      (h.bodies proc q hs hq hblocks) hblocks⟩

theorem Retains.refl (s : Session) : s.Retains s := ⟨.refl s, .refl s⟩

theorem Retains.trans (h : s.Retains t) (h' : t.Retains u) : s.Retains u :=
  ⟨h.toKeepsTypes.trans h'.toKeepsTypes, h.toKeepsAllocators.trans h'.toKeepsAllocators⟩

end Session

/-! ## What the tables are there for -/

/-- **One struct for each type of arrays**: no two types share one, it has the
fields of such arrays, and no class has it. -/
structure Session.Structs (a : Analysis) (s : Session) : Prop where
  inj : ∀ elem elem' struct, s.arrayStructs.get? elem = some struct →
    s.arrayStructs.get? elem' = some struct → elem = elem'
  decls : ∀ elem struct, s.arrayStructs.get? elem = some struct →
    ∃ target, s.valueTy? a elem = some target ∧
      s.ir.structs[struct]? = some (arrayDecl a elem target)
  layouts : ∀ layout ∈ s.classes, s.NoArray layout.instance_ ∧ s.NoArray layout.vtable

/-- **One procedure for whatever is made**: no two things share one, and it is none
of a function or a method. -/
structure Session.Allocators (s : Session) : Prop where
  apart : ∀ made made' proc, s.allocator? made = some proc →
    s.allocator? made' = some proc → made = made'
  bounded : ∀ proc, s.Allocates proc → proc < s.ir.procs.length
  spare : ∀ proc, s.Allocates proc → s.Spare proc
  functions : ∀ proc ∈ s.functionProcs, proc < s.ir.procs.length
  methods : ∀ ref proc, s.methodProcs.get? ref = some proc → proc < s.ir.procs.length

/-- **What holds of the tables** at every point of lowering. -/
structure Session.Memos (a : Analysis) (s : Session) : Prop extends Session.Structs a s,
    Session.Allocators s

/-- Structs, the layouts of the classes and the structs of arrays are the same. -/
structure Session.SameTypes (s t : Session) : Prop where
  structs : t.ir.structs = s.ir.structs
  classes : t.classes = s.classes
  arrayStructs : t.arrayStructs = s.arrayStructs

namespace Session

theorem memos_start (a : Analysis) : Session.start.Memos a := by
  have hnone (made : Made) (proc : ProcId) : Session.start.allocator? made ≠ some proc := by
    cases made <;> exact fun h => nomatch h
  exact ⟨⟨nofun, nofun, nofun⟩, fun _ _ _ h => absurd h (hnone _ _),
    fun _ ⟨_, h⟩ => absurd h (hnone _ _), fun _ ⟨_, h⟩ => absurd h (hnone _ _), nofun, nofun⟩

theorem SameTypes.keeps (h : s.SameTypes t) : s.KeepsTypes t :=
  ⟨h.arrayStructs ▸ .refl _, fun _ _ _ => by rw [h.structs], fun _ layout hid =>
    ⟨layout, h.classes ▸ hid, rfl⟩⟩

/-- What holds of structs stays where no array struct comes in. -/
theorem Structs.keeps (hs : s.Structs a) (h : s.KeepsTypes t)
    (harrays : t.arrayStructs = s.arrayStructs)
    (hlayouts : ∀ layout ∈ t.classes, t.NoArray layout.instance_ ∧ t.NoArray layout.vtable) :
    t.Structs a := by
  refine ⟨harrays ▸ hs.inj, fun elem struct hget => ?_, hlayouts⟩
  rw [harrays] at hget
  obtain ⟨target, hty, hdecl⟩ := hs.decls elem struct hget
  exact ⟨target, h.valueTy? hty, by rw [h.structs elem struct hget, hdecl]⟩

theorem Structs.congr (hs : s.Structs a) (h : s.SameTypes t) : t.Structs a := by
  refine hs.keeps h.keeps h.arrayStructs ?_
  simp only [NoArray, h.structs, h.classes, h.arrayStructs]
  exact hs.layouts

theorem allocator?_congr (h : s.SameAllocators t) : t.allocator? = s.allocator? := by
  funext made
  cases made with
  | object id => exact congrArg (Table.get? · id) h.classes
  | array elem => exact congrArg (Table.get? · elem) h.arrays

theorem allocates_congr (h : s.SameAllocators t) {proc : ProcId} :
    t.Allocates proc ↔ s.Allocates proc := by
  rw [Allocates, allocator?_congr h, Allocates]

/-- Where procedures and allocators are the same, allocators stay. -/
theorem keepsAllocators_of_same (h : s.SameAllocators t) (hprocs : t.ir.procs = s.ir.procs) :
    s.KeepsAllocators t :=
  ⟨fun made proc hget => by rw [allocator?_congr h, hget], fun _ _ _ hq _ => by rw [hprocs, hq]⟩

/-- What holds of allocators stays where none comes in. -/
theorem Allocators.keeps (hs : s.Allocators) (h : s.SameAllocators t)
    (hprocs : s.ir.procs.length ≤ t.ir.procs.length)
    (hfunctions : ∀ proc ∈ t.functionProcs, proc ∈ s.functionProcs ∨
      (proc < t.ir.procs.length ∧ ¬ s.Allocates proc))
    (hmethods : ∀ ref proc, t.methodProcs.get? ref = some proc →
      s.methodProcs.get? ref = some proc ∨ (proc < t.ir.procs.length ∧ ¬ s.Allocates proc)) :
    t.Allocators := by
  refine ⟨by rw [allocator?_congr h]; exact hs.apart, fun proc hproc => ?_, fun proc hproc => ?_,
    fun proc hproc => ?_, fun ref proc hproc => ?_⟩
  · exact Nat.lt_of_lt_of_le (hs.bounded proc ((allocates_congr h).1 hproc)) hprocs
  · have hmade := (allocates_congr h).1 hproc
    have hspare := hs.spare proc hmade
    exact ⟨fun hmem => (hfunctions proc hmem).elim hspare.1 fun hnew => hnew.2 hmade,
      fun ref href => (hmethods ref proc href).elim (hspare.2 ref) fun hnew => hnew.2 hmade⟩
  · exact (hfunctions proc hproc).elim (fun hold => Nat.lt_of_lt_of_le (hs.functions proc hold) hprocs)
      And.left
  · exact (hmethods ref proc hproc).elim
      (fun hold => Nat.lt_of_lt_of_le (hs.methods ref proc hold) hprocs) And.left

theorem Allocators.congr (hs : s.Allocators) (h : s.SameAllocators t) (hprocs : s.SameProcs t) :
    t.Allocators := by
  refine hs.keeps h (Nat.le_of_eq (congrArg _ hprocs.procs.symm)) (fun proc hproc => .inl ?_)
    fun ref proc hproc => .inl ?_
  · rwa [hprocs.functionProcs] at hproc
  · rwa [hprocs.methodProcs] at hproc

end Session

/-! ## Running a change -/

theorem eq_of_modifyIr (change : Ir.Program → Except Ir.Error Ir.Program)
    (h : (modifyIr change).run s = .ok ((), t)) :
    ∃ ir, change s.ir = .ok ir ∧ t = { s with ir := ir } :=
  (ends_modifyIr (P := fun _ t => ∃ ir, change s.ir = .ok ir ∧ t = { s with ir := ir })
    fun ir hir => ⟨ir, hir, rfl⟩).result h

namespace Change

theorem eq_of_setFields {id : StructId} {fields : List Ir.Field}
    (h : (setFields id fields).perform.run s = .ok ((), t)) : ∃ decl, s.ir.structs[id]? = some decl ∧
      t = { s with ir.structs := s.ir.structs.set id { decl with fields := fields } } := by
  obtain ⟨ir, hir, rfl⟩ := eq_of_modifyIr (·.setFields id fields) h
  unfold Ir.Program.setFields Ir.Program.struct Ir.Program.find at hir
  cases hdecl : s.ir.structs[id]? with
  | none => rw [hdecl] at hir; cases hir
  | some decl => rw [hdecl] at hir; cases hir; exact ⟨decl, rfl, rfl⟩

theorem eq_of_setInit {id : GlobalId} {init : Ir.Const}
    (h : (setInit id init).perform.run s = .ok ((), t)) :
    ∃ globals, t = { s with ir.globals := globals } := by
  obtain ⟨ir, hir, rfl⟩ := eq_of_modifyIr (·.setInit id init) h
  unfold Ir.Program.setInit at hir
  cases hg : s.ir.global id with
  | error e => rw [hg] at hir; cases hir
  | ok g => rw [hg] at hir; cases hir; exact ⟨_, rfl⟩

theorem eq_of_setBody {id : ProcId} {temps : List Ir.Field} {blocks : List Ir.Block}
    (h : (setBody id temps blocks).perform.run s = .ok ((), t)) :
    ∃ decl, s.ir.procs[id]? = some decl ∧ t = { s with
      ir.procs := s.ir.procs.set id { decl with temps := temps, blocks := blocks } } := by
  obtain ⟨ir, hir, rfl⟩ := eq_of_modifyIr (·.setBody id temps blocks) h
  unfold Ir.Program.setBody Ir.Program.proc Ir.Program.find at hir
  cases hdecl : s.ir.procs[id]? with
  | none => rw [hdecl] at hir; cases hir
  | some decl => rw [hdecl] at hir; cases hir; exact ⟨decl, rfl, rfl⟩

end Change

/-! ## What a change keeps -/

namespace Session

/-- Where the structs, classes and array structs are the same, and so are procedures and
allocators, the tables stay as they are. -/
theorem Memos.congr (hs : s.Memos a) (htypes : s.SameTypes t) (hprocs : s.SameProcs t)
    (hallocators : s.SameAllocators t) : t.Memos a ∧ s.Retains t :=
  ⟨⟨hs.toStructs.congr htypes, hs.toAllocators.congr hallocators hprocs⟩, htypes.keeps,
    keepsAllocators_of_same hallocators hprocs.procs⟩

/-- A change of types keeps what is known of procedures. -/
theorem Memos.ofTypes (hs : s.Memos a) (hstructs : t.Structs a) (hkeeps : s.KeepsTypes t)
    (hprocs : s.SameProcs t) (hallocators : s.SameAllocators t) : t.Memos a ∧ s.Retains t :=
  ⟨⟨hstructs, hs.toAllocators.congr hallocators hprocs⟩, hkeeps,
    keepsAllocators_of_same hallocators hprocs.procs⟩

/-- A change of procedures keeps what is known of types. -/
theorem Memos.ofProcs (hs : s.Memos a) (hallocators : t.Allocators) (hkeeps : s.KeepsAllocators t)
    (htypes : s.SameTypes t) : t.Memos a ∧ s.Retains t :=
  ⟨⟨hs.toStructs.congr htypes, hallocators⟩, htypes.keeps, hkeeps⟩

/-! ### Types -/

theorem Memos.addStruct (hs : s.Memos a) (name : String) :
    ({ s with ir.structs := s.ir.structs ++ [⟨name, []⟩] } : Session).Memos a ∧
      s.Retains { s with ir.structs := s.ir.structs ++ [⟨name, []⟩] } := by
  have hkeeps : s.KeepsTypes { s with ir.structs := s.ir.structs ++ [⟨name, []⟩] } := by
    refine ⟨.refl _, fun elem struct hget => ?_, fun _ layout hid => ⟨layout, hid, rfl⟩⟩
    obtain ⟨target, -, hdecl⟩ := hs.decls elem struct hget
    exact List.getElem?_append_left (List.getElem?_eq_some_iff.1 hdecl).1
  have hplain {struct : StructId} (h : s.NoArray struct) :
      Session.NoArray { s with ir.structs := s.ir.structs ++ [⟨name, []⟩] } struct :=
    ⟨Nat.lt_of_lt_of_le h.1 (List.prefix_append _ _).length_le, h.2⟩
  exact hs.ofTypes (hs.toStructs.keeps hkeeps rfl fun layout hlayout =>
    ⟨hplain (hs.layouts layout hlayout).1, hplain (hs.layouts layout hlayout).2⟩) hkeeps
    ⟨rfl, rfl, rfl⟩ ⟨rfl, rfl⟩

theorem Memos.setFields (hs : s.Memos a) {id : StructId}
    (hid : ∀ elem, s.arrayStructs.get? elem ≠ some id) (decl : Ir.StructDef) :
    ({ s with ir.structs := s.ir.structs.set id decl } : Session).Memos a ∧
      s.Retains { s with ir.structs := s.ir.structs.set id decl } := by
  have hkeeps : s.KeepsTypes { s with ir.structs := s.ir.structs.set id decl } :=
    ⟨.refl _, fun elem struct hget => List.getElem?_set_ne fun heq : id = struct => hid elem (heq ▸ hget),
      fun _ layout hid => ⟨layout, hid, rfl⟩⟩
  have hplain {struct : StructId} (h : s.NoArray struct) :
      Session.NoArray { s with ir.structs := s.ir.structs.set id decl } struct :=
    ⟨by rw [List.length_set]; exact h.1, h.2⟩
  exact hs.ofTypes (hs.toStructs.keeps hkeeps rfl fun layout hlayout =>
    ⟨hplain (hs.layouts layout hlayout).1, hplain (hs.layouts layout hlayout).2⟩) hkeeps
    ⟨rfl, rfl, rfl⟩ ⟨rfl, rfl⟩

theorem Memos.addLayout (hs : s.Memos a) {layout : ClassLayout}
    (h : s.NoArray layout.instance_ ∧ s.NoArray layout.vtable) :
    ({ s with classes := s.classes ++ [layout] } : Session).Memos a ∧
      s.Retains { s with classes := s.classes ++ [layout] } := by
  have hkeeps : s.KeepsTypes { s with classes := s.classes ++ [layout] } :=
    ⟨.refl _, fun _ _ _ => rfl, fun id layout hid =>
      ⟨layout, getElem?_of_initial (List.prefix_append _ _) hid, rfl⟩⟩
  exact hs.ofTypes (hs.toStructs.keeps hkeeps rfl
    (List.forall_mem_append.2 ⟨hs.layouts, List.forall_mem_singleton.2 h⟩)) hkeeps
    ⟨rfl, rfl, rfl⟩ ⟨rfl, rfl⟩

theorem Memos.setLayout (hs : s.Memos a) {id : ClassId} {layout old : ClassLayout}
    (hold : s.classes[id]? = some old) (hinstance : layout.instance_ = old.instance_)
    (hvtable : layout.vtable = old.vtable) :
    ({ s with classes := s.classes.set id layout } : Session).Memos a ∧
      s.Retains { s with classes := s.classes.set id layout } := by
  have hkeeps : s.KeepsTypes { s with classes := s.classes.set id layout } := by
    refine ⟨.refl _, fun _ _ _ => rfl, fun other layout' hother => ?_⟩
    by_cases heq : id = other
    · subst heq
      obtain rfl := Option.some.inj (hold.symm.trans hother)
      exact ⟨layout, List.getElem?_set_self (List.getElem?_eq_some_iff.1 hold).1, hinstance⟩
    · exact ⟨layout', (List.getElem?_set_ne heq).trans hother, rfl⟩
  refine hs.ofTypes (hs.toStructs.keeps hkeeps rfl fun l hl => ?_) hkeeps ⟨rfl, rfl, rfl⟩ ⟨rfl, rfl⟩
  rcases List.mem_or_eq_of_mem_set hl with hl | rfl
  · exact hs.layouts l hl
  · rw [hinstance, hvtable]
    exact hs.layouts old (List.mem_of_getElem? hold)

/-- **A struct of arrays comes in.** -/
theorem Memos.noteStruct (hs : s.Memos a) {elem : Ty} {struct : StructId}
    (h : (Change.noteStruct elem struct).Fits a s) :
    ({ s with arrayStructs := s.arrayStructs.insert elem struct } : Session).Memos a ∧
      s.Retains { s with arrayStructs := s.arrayStructs.insert elem struct } := by
  obtain ⟨hnew, hplain, hclasses, target, htarget, hdecl⟩ := h
  have hkeeps : s.KeepsTypes { s with arrayStructs := s.arrayStructs.insert elem struct } :=
    ⟨.insert hnew struct, fun _ _ _ => rfl, fun _ layout hid => ⟨layout, hid, rfl⟩⟩
  have hget {other : Ty} {found : StructId}
      (hother : (s.arrayStructs.insert elem struct).get? other = some found) :
      (other = elem ∧ found = struct) ∨ s.arrayStructs.get? other = some found := by
    by_cases heq : elem = other
    · subst heq
      rw [Table.get?_insert_self] at hother
      exact .inl ⟨rfl, (Option.some.inj hother).symm⟩
    · rw [Table.get?_insert_of_ne _ _ heq] at hother
      exact .inr hother
  refine hs.ofTypes ⟨fun other other' found hother hother' => ?_, fun other found hother => ?_,
    fun layout hlayout => ?_⟩ hkeeps ⟨rfl, rfl, rfl⟩ ⟨rfl, rfl⟩
  -- A struct that is new to the table is in no old entry.
  · rcases hget hother with ⟨rfl, rfl⟩ | hold <;> rcases hget hother' with ⟨rfl, heq⟩ | hold'
    · rfl
    · exact absurd hold' (hplain.2 other')
    · exact absurd (heq ▸ hold) (hplain.2 other)
    · exact hs.inj other other' found hold hold'
  · rcases hget hother with ⟨rfl, rfl⟩ | hother
    · exact ⟨target, hkeeps.valueTy? htarget, hdecl⟩
    · obtain ⟨target', hty, hdecl'⟩ := hs.decls other found hother
      exact ⟨target', hkeeps.valueTy? hty, hdecl'⟩
  · obtain ⟨hinstance, hvtable⟩ := hs.layouts layout hlayout
    refine ⟨⟨hinstance.1, fun other hother => ?_⟩, hvtable.1, fun other hother => ?_⟩
    · rcases hget hother with ⟨-, heq⟩ | hother
      · exact (hclasses layout hlayout).1 heq.symm
      · exact hinstance.2 other hother
    · rcases hget hother with ⟨-, heq⟩ | hother
      · exact (hclasses layout hlayout).2 heq.symm
      · exact hvtable.2 other hother

/-! ### Procedures -/

theorem Memos.declareProc (hs : s.Memos a) (name : String) (ret : Ir.Ty) (params : List Ir.Field) :
    (s.withDeclared name ret params).Memos a ∧ s.Retains (s.withDeclared name ret params) := by
  have hprefix : s.ir.procs <+: (s.withDeclared name ret params).ir.procs := List.prefix_append _ _
  exact hs.ofProcs (hs.toAllocators.keeps ⟨rfl, rfl⟩ hprefix.length_le (fun _ => .inl) fun _ _ => .inl)
    ⟨fun _ _ h => h, fun _ _ _ hq _ => getElem?_of_initial hprefix hq⟩ ⟨rfl, rfl, rfl⟩

theorem Memos.setBody (hs : s.Memos a) {id : ProcId} (h : s.Allocates id → ¬ s.Defined id)
    (q : Ir.Proc) : (s.withBody id q).Memos a ∧ s.Retains (s.withBody id q) := by
  refine hs.ofProcs (hs.toAllocators.keeps ⟨rfl, rfl⟩ (Nat.le_of_eq List.length_set.symm)
    (fun _ => .inl) fun _ _ => .inl) ⟨fun _ _ h => h, fun proc q' hproc hq' hblocks => ?_⟩
    ⟨rfl, rfl, rfl⟩
  have hne : id ≠ proc := fun heq => h (heq ▸ hproc) (heq ▸ ⟨q', hq', hblocks⟩)
  exact (List.getElem?_set_ne hne).trans hq'

theorem Memos.noteMethod (hs : s.Memos a) (ref : MemberRef) {proc : ProcId}
    (h : proc < s.ir.procs.length ∧ ¬ s.Allocates proc) :
    ({ s with methodProcs := s.methodProcs.insert ref proc } : Session).Memos a ∧
      s.Retains { s with methodProcs := s.methodProcs.insert ref proc } := by
  refine hs.ofProcs (hs.toAllocators.keeps ⟨rfl, rfl⟩ (Nat.le_refl _) (fun _ => .inl)
    fun other found hother => ?_) ⟨fun _ _ h => h, fun _ _ _ hq _ => hq⟩ ⟨rfl, rfl, rfl⟩
  by_cases heq : ref = other
  · subst heq
    rw [Table.get?_insert_self] at hother
    exact .inr (Option.some.inj hother ▸ h)
  · rw [Table.get?_insert_of_ne _ _ heq] at hother
    exact .inl hother

theorem Memos.noteFunction (hs : s.Memos a) {proc : ProcId}
    (h : proc < s.ir.procs.length ∧ ¬ s.Allocates proc) :
    ({ s with functionProcs := s.functionProcs ++ [proc] } : Session).Memos a ∧
      s.Retains { s with functionProcs := s.functionProcs ++ [proc] } := by
  refine hs.ofProcs (hs.toAllocators.keeps ⟨rfl, rfl⟩ (Nat.le_refl _) (fun found hfound => ?_)
    fun _ _ => .inl) ⟨fun _ _ h => h, fun _ _ _ hq _ => hq⟩ ⟨rfl, rfl, rfl⟩
  refine (List.mem_append.1 hfound).imp_right fun hnew => ?_
  rwa [List.mem_singleton.1 hnew]

/-- With a new allocator come what it makes and what was made before. -/
theorem allocator?_withAllocator {made other : Made} {proc found : ProcId}
    (h : (s.withAllocator proc made).allocator? other = some found) :
    (other = made ∧ found = proc) ∨ s.allocator? other = some found := by
  by_cases heq : made = other
  · subst heq
    rw [allocator?_withAllocator_self] at h
    exact .inl ⟨rfl, (Option.some.inj h).symm⟩
  · rw [allocator?_withAllocator_of_ne heq] at h
    exact .inr h

/-- **An allocator comes in.** -/
theorem Memos.noteAllocator (hs : s.Memos a) {made : Made} {proc : ProcId}
    (h : (Change.noteAllocator made proc).Fits a s) :
    (s.withAllocator proc made).Memos a ∧ s.Retains (s.withAllocator proc made) := by
  obtain ⟨hnew, hlt, hspare, hother, hbare⟩ := h
  have hir : (s.withAllocator proc made).ir = s.ir := by cases made <;> rfl
  have hfunctions : (s.withAllocator proc made).functionProcs = s.functionProcs := by cases made <;> rfl
  have hmethods : (s.withAllocator proc made).methodProcs = s.methodProcs := by cases made <;> rfl
  have hallocates {found : ProcId} (hfound : (s.withAllocator proc made).Allocates found) :
      found = proc ∨ s.Allocates found := by
    obtain ⟨m, hm⟩ := hfound
    exact (allocator?_withAllocator hm).imp And.right fun hold => ⟨m, hold⟩
  refine hs.ofProcs ⟨fun m m' found hm hm' => ?_, fun found hfound => ?_, fun found hfound => ?_,
    ?_, ?_⟩ ⟨fun m found hm => ?_, fun _ _ _ hq _ => by rw [hir, hq]⟩
    (by cases made <;> exact ⟨rfl, rfl, rfl⟩)
  -- A procedure that becomes an allocator was none before.
  · rcases allocator?_withAllocator hm with ⟨rfl, rfl⟩ | hold <;>
      rcases allocator?_withAllocator hm' with ⟨rfl, heq⟩ | hold'
    · rfl
    · exact absurd ⟨m', hold'⟩ hother
    · exact absurd ⟨m, heq ▸ hold⟩ hother
    · exact hs.apart m m' found hold hold'
  · rw [hir]
    exact (hallocates hfound).elim (fun heq => heq ▸ hlt) (hs.bounded found)
  · refine Spare.congr ?_ hfunctions hmethods
    exact (hallocates hfound).elim (fun heq => heq ▸ hspare) (hs.spare found)
  · rw [hir, hfunctions]
    exact hs.functions
  · rw [hir, hmethods]
    exact hs.methods
  · have hne : made ≠ m := fun heq => by rw [heq, hm] at hnew; cases hnew
    rw [allocator?_withAllocator_of_ne hne, hm]

end Session

/-- **What holds of the tables is kept by every change that fits**, and what is in
them stays. -/
theorem Change.step {c : Change} (hs : s.Memos a) (hc : c.Fits a s)
    (hrun : c.perform.run s = .ok ((), t)) : t.Memos a ∧ s.Retains t := by
  cases c with
  | addStruct name => cases hrun; exact hs.addStruct name
  | setFields id fields =>
    obtain ⟨decl, -, rfl⟩ := eq_of_setFields hrun
    exact hs.setFields hc _
  | addGlobal | noteField => cases hrun; exact hs.congr ⟨rfl, rfl, rfl⟩ ⟨rfl, rfl, rfl⟩ ⟨rfl, rfl⟩
  | setInit id init =>
    obtain ⟨_, rfl⟩ := eq_of_setInit hrun
    exact hs.congr ⟨rfl, rfl, rfl⟩ ⟨rfl, rfl, rfl⟩ ⟨rfl, rfl⟩
  | declareProc name ret params => cases hrun; exact hs.declareProc name ret params
  | setBody id temps blocks =>
    obtain ⟨decl, -, rfl⟩ := eq_of_setBody hrun
    exact hs.setBody hc.2 _
  | addLayout layout => cases hrun; exact hs.addLayout hc
  | setLayout id layout =>
    obtain ⟨old, hold, hinstance, hvtable⟩ := hc
    cases hrun
    exact hs.setLayout hold hinstance hvtable
  | noteMethod ref proc => cases hrun; exact hs.noteMethod ref hc
  | noteFunction proc => cases hrun; exact hs.noteFunction hc
  | noteStruct elem struct => cases hrun; exact hs.noteStruct hc
  | noteAllocator made proc => cases hrun; exact hs.noteAllocator hc

/-! ## Which procedures have bodies -/

namespace Change

variable {c : Change} {proc : ProcId}

/-- A procedure that has a body keeps one. -/
theorem defined_mono (hc : c.Fits a s) (hrun : c.perform.run s = .ok ((), t)) (h : s.Defined proc) :
    t.Defined proc := by
  obtain ⟨q, hq, hblocks⟩ := h
  cases c with
  | setBody id temps blocks =>
    obtain ⟨decl, hdecl, rfl⟩ := eq_of_setBody hrun
    by_cases heq : id = proc
    · subst heq
      exact ⟨_, List.getElem?_set_self (List.getElem?_eq_some_iff.1 hdecl).1, hc.1⟩
    · exact ⟨q, (List.getElem?_set_ne heq).trans hq, hblocks⟩
  | setFields => obtain ⟨_, -, rfl⟩ := eq_of_setFields hrun; exact ⟨q, hq, hblocks⟩
  | setInit => obtain ⟨_, rfl⟩ := eq_of_setInit hrun; exact ⟨q, hq, hblocks⟩
  | noteAllocator made id => cases made <;> cases hrun <;> exact ⟨q, hq, hblocks⟩
  | declareProc =>
    cases hrun
    exact ⟨q, getElem?_of_initial (List.prefix_append _ _) hq, hblocks⟩
  | _ => cases hrun; exact ⟨q, hq, hblocks⟩

/-- A procedure that the change defines has a body behind it. -/
theorem defined_of_defines (hc : c.Fits a s) (hrun : c.perform.run s = .ok ((), t))
    (h : c.defines proc = true) : t.Defined proc := by
  cases c with
  | setBody id temps blocks =>
    obtain ⟨decl, hdecl, rfl⟩ := eq_of_setBody hrun
    obtain rfl := beq_iff_eq.1 h
    exact ⟨_, List.getElem?_set_self (List.getElem?_eq_some_iff.1 hdecl).1, hc.1⟩
  | _ => cases h

/-- No other procedure gets a body. -/
theorem defined_of_not_defines (hrun : c.perform.run s = .ok ((), t)) (hc : c.defines proc = false)
    (h : t.Defined proc) : s.Defined proc := by
  obtain ⟨q, hq, hblocks⟩ := h
  cases c with
  | setBody id temps blocks =>
    obtain ⟨decl, hdecl, rfl⟩ := eq_of_setBody hrun
    exact ⟨q, (List.getElem?_set_ne (by simpa [defines] using hc)).symm.trans hq, hblocks⟩
  | setFields => obtain ⟨_, -, rfl⟩ := eq_of_setFields hrun; exact ⟨q, hq, hblocks⟩
  | setInit => obtain ⟨_, rfl⟩ := eq_of_setInit hrun; exact ⟨q, hq, hblocks⟩
  | noteAllocator made id => cases made <;> cases hrun <;> exact ⟨q, hq, hblocks⟩
  | declareProc =>
    cases hrun
    rcases getElem?_append_singleton hq with hq | ⟨-, rfl⟩
    · exact ⟨q, hq, hblocks⟩
    · exact absurd rfl hblocks
  | _ => cases hrun; exact ⟨q, hq, hblocks⟩

/-- A procedure that has a body does not become an allocator. -/
theorem allocates_of_defined (hc : c.Fits a s) (hrun : c.perform.run s = .ok ((), t))
    (hdefined : s.Defined proc) (h : t.Allocates proc) : s.Allocates proc := by
  obtain ⟨made, hmade⟩ := h
  cases c with
  | noteAllocator m id =>
    cases hrun
    rcases Session.allocator?_withAllocator hmade with ⟨-, rfl⟩ | hold
    · exact absurd hdefined hc.2.2.2.2
    · exact ⟨made, hold⟩
  | setFields => obtain ⟨_, -, rfl⟩ := eq_of_setFields hrun; exact ⟨made, hmade⟩
  | setInit => obtain ⟨_, rfl⟩ := eq_of_setInit hrun; exact ⟨made, hmade⟩
  | setBody => obtain ⟨_, -, rfl⟩ := eq_of_setBody hrun; exact ⟨made, hmade⟩
  | _ => cases hrun; exact ⟨made, hmade⟩

end Change

end Invariant

end ClassLang.Lowering
