import ClassLang.Proofs.Ir.Emissions
import ClassLang.Proofs.Lowering.Sessions
/-!
# Lowering — what is declared

Before any body is lowered, every class has two structs and a global for
its vtable (`yields_declareClasses`), and every function and method has a
procedure with its signature (`yields_declareFunctions`,
`yields_declareMethods`). No two of them share a procedure
(`Session.Apart`).
-/


namespace ClassLang.Lowering

open Source (TypeExpr Program VarDecl FunctionDecl ClassDecl)
open Typing (Analysis TableOk)
open Ir (StructId ProcId)

/-! ## Classes -/

/-- The class has its structs and its vtable, all of them empty. -/
structure ClassDeclared (s : Session) (id : ClassId) (c : ClassDecl) : Prop where
  layout : s.classes[id]? = some ⟨c.name, 2 * id, 2 * id + 1, id, []⟩
  instance_ : s.ir.structs[2 * id]? = some ⟨"class_" ++ c.name, []⟩
  vtable : s.ir.structs[2 * id + 1]? = some ⟨"vtable_" ++ c.name, []⟩
  vtableGlobal : s.ir.globals[id]? =
    some ⟨"_vtable_" ++ c.name, .struct (2 * id + 1), true, .struct (2 * id + 1) []⟩

/-- The first `n` classes are declared, and nothing else is. -/
structure DeclaresClasses (p : Program) (n : Nat) (s : Session) : Prop where
  ir : s.ir.Typed
  size : s.classes.length = n
  structs : s.ir.structs.length = 2 * n
  globals : s.ir.globals.length = n
  procs : s.ir.procs = []
  fieldSlots : s.fieldSlots = []
  methodProcs : s.methodProcs = []
  functionProcs : s.functionProcs = []
  arrayStructs : s.arrayStructs = []
  classAllocators : s.classAllocators = []
  arrayAllocators : s.arrayAllocators = []
  declared : ∀ id c, id < n → p.classes[id]? = some c → ClassDeclared s id c

theorem declaresClasses_start (p : Program) : DeclaresClasses p 0 .start :=
  ⟨Ir.Program.typed_empty, rfl, rfl, rfl, rfl, rfl, rfl, rfl, rfl, rfl, rfl,
    fun _ _ h => absurd h (Nat.not_lt_zero _)⟩

theorem DeclaresClasses.append {p : Program} {s : Session} {done rest : List ClassDecl}
    {c : ClassDecl} (hp : p.classes = done ++ c :: rest) (hs : DeclaresClasses p done.length s) :
    DeclaresClasses p (done.length + 1)
      { s with
        ir := { s.ir with
          structs := s.ir.structs ++ [⟨"class_" ++ c.name, []⟩] ++ [⟨"vtable_" ++ c.name, []⟩]
          globals := s.ir.globals ++ [⟨"_vtable_" ++ c.name, .struct (2 * done.length + 1), true,
            .struct (2 * done.length + 1) []⟩] }
        classes := s.classes ++
          [⟨c.name, 2 * done.length, 2 * done.length + 1, done.length, []⟩] } := by
  have hkeeps : s.ir.Keeps { s.ir with
      structs := s.ir.structs ++ [⟨"class_" ++ c.name, []⟩] ++ [⟨"vtable_" ++ c.name, []⟩]
      globals := s.ir.globals ++ [⟨"_vtable_" ++ c.name, .struct (2 * done.length + 1), true,
        .struct (2 * done.length + 1) []⟩] } :=
    .of_append ((List.prefix_append _ _).trans (List.prefix_append _ _)) (List.prefix_append _ _)
      List.prefix_rfl
  refine ⟨hs.ir.mono hkeeps (fun decl hdecl => ?_) (fun g hg => ?_) fun _ => .inl,
    by simp [hs.size], by simp [hs.structs]; omega, by simp [hs.globals], hs.procs, hs.fieldSlots, hs.methodProcs, hs.functionProcs, hs.arrayStructs, hs.classAllocators,
    hs.arrayAllocators, fun id c' hid hc' => ?_⟩
  · rw [List.append_assoc] at hdecl
    refine (List.mem_append.1 hdecl).imp_right fun hnew => ?_
    rcases List.mem_pair.1 hnew with rfl | rfl <;> exact List.forall_mem_nil _
  · rcases List.mem_append.1 hg with hold | hnew
    · exact .inl hold
    rw [List.mem_singleton.1 hnew]
    have hlt : 2 * done.length + 1 < (s.ir.structs ++ [(⟨"class_" ++ c.name, []⟩ : Ir.StructDef)] ++
        [(⟨"vtable_" ++ c.name, []⟩ : Ir.StructDef)]).length := by
      simp [hs.structs]
    exact .inr ⟨Ir.Ty.within_struct.2 hlt, .struct hlt (List.forall_mem_nil _)⟩
  -- A class that was declared before stays where it is; the new one is the last.
  rcases Nat.lt_succ_iff_lt_or_eq.1 hid with hid | rfl
  · have h := hs.declared id c' hid hc'
    have hstruct {i : StructId} {d : Ir.StructDef} (hi : s.ir.structs[i]? = some d)
        (e e' : Ir.StructDef) : (s.ir.structs ++ [e] ++ [e'])[i]? = some d := by
      rw [List.append_assoc]
      exact getElem?_of_initial (List.prefix_append _ _) hi
    exact ⟨getElem?_of_initial (List.prefix_append _ _) h.layout, hstruct h.instance_ _ _,
      hstruct h.vtable _ _, getElem?_of_initial (List.prefix_append _ _) h.vtableGlobal⟩
  · have hc : c' = c := by simpa [hp] using hc'.symm
    subst hc
    exact ⟨by simp [← hs.size], by simp [← hs.structs], by simp [← hs.structs],
      by simp [← hs.globals]⟩

/-- **Every class is declared.** -/
theorem yields_declareClasses {p : Program} {s : Session} (done : List ClassDecl)
    {cs : List ClassDecl} (hp : p.classes = done ++ cs) (hs : DeclaresClasses p done.length s) :
    Yields (declareClasses cs) s fun _ s' => DeclaresClasses p p.classes.length s' := by
  induction cs generalizing s done with
  | nil =>
    have hlen : done.length = p.classes.length := by simp [hp]
    exact .pure (hlen ▸ hs)
  | cons c rest ih =>
    have hlen : (s.ir.structs ++ [(⟨"class_" ++ c.name, []⟩ : Ir.StructDef)]).length =
        2 * done.length + 1 := by
      simp [hs.structs]
    refine yields_addStruct_bind (yields_addStruct_bind (yields_addGlobal_bind
      (.modify_bind ?_)))
    dsimp only
    rw [hlen, hs.structs, hs.globals]
    have hp' : p.classes = (done ++ [c]) ++ rest := by simp [hp]
    refine ih _ hp' ?_
    rw [List.length_append]
    exact hs.append hp

/-! ## Functions and methods -/

/-- The procedure of a function or a method has its signature; `this` is the
parameter for the receiver, if there is one. -/
structure ProcFor (p : Program) (a : Analysis) (s : Session) (name : String)
    (this : List Ir.Field) (f : FunctionDecl) (proc : Ir.Proc) : Prop where
  name : proc.name = name
  ret : Represents p a s f.returnType proc.ret
  params : ∃ fields, proc.params = this ++ fields ∧
    List.Forall₂ (ParamFor p a s) f.params fields

theorem ProcFor.mono {p : Program} {a : Analysis} {s s' : Session} (hs : s.Grows s')
    {name : String} {this : List Ir.Field} {f : FunctionDecl} {proc : Ir.Proc}
    (h : ProcFor p a s name this f proc) : ProcFor p a s' name this f proc := by
  obtain ⟨fields, heq, hfields⟩ := h.params
  exact ⟨h.name, h.ret.mono hs, fields, heq, hfields.imp fun _ _ h => h.mono hs⟩

/-- What a procedure was declared for. -/
inductive Session.Known (p : Program) (s : Session) (proc : ProcId) : Prop
  | function {index : Nat} {f} : p.functions[index]? = some f →
      s.functionProcs[index]? = some proc → Known p s proc
  | method {ref f} : methodDecl? p ref = some f → s.methodProcs.get? ref = some proc →
      Known p s proc
  | object {id} : s.classAllocators.get? id = some proc → Known p s proc
  | array {ty} : s.arrayAllocators.get? ty = some proc → Known p s proc

theorem Session.Known.mono {p : Program} {s s' : Session} {proc : ProcId} (h : s.Known p proc)
    (hfunctions : s.functionProcs <+: s'.functionProcs)
    (hmethods : Kept s.methodProcs s'.methodProcs)
    (hobjects : Kept s.classAllocators s'.classAllocators)
    (harrays : Kept s.arrayAllocators s'.arrayAllocators) : s'.Known p proc := by
  cases h with
  | function hf hproc => exact .function hf (getElem?_of_initial hfunctions hproc)
  | method hm hproc => exact .method hm (hmethods _ _ hproc)
  | object hproc => exact .object (hobjects _ _ hproc)
  | array hproc => exact .array (harrays _ _ hproc)

/-- No two functions or methods share a procedure, and every procedure was
declared for something. -/
structure Session.Apart (p : Program) (s : Session) : Prop where
  functions : s.functionProcs.Nodup
  methods : ∀ ref ref' proc, s.methodProcs.get? ref = some proc →
    s.methodProcs.get? ref' = some proc → ref = ref'
  disjoint : ∀ ref proc, s.methodProcs.get? ref = some proc → proc ∉ s.functionProcs
  bounded : ∀ proc ∈ s.functionProcs, proc < s.ir.procs.length
  boundedMethods : ∀ ref proc, s.methodProcs.get? ref = some proc → proc < s.ir.procs.length
  known : ∀ proc < s.ir.procs.length, s.Known p proc

/-- Procedures that come in for allocators change nothing of this. -/
theorem Session.Apart.mono {p : Program} {s s' : Session} (h : s.Apart p)
    (hle : s.ir.procs.length ≤ s'.ir.procs.length)
    (hknown : ∀ proc, s.ir.procs.length ≤ proc → proc < s'.ir.procs.length → s'.Known p proc)
    (hobjects : Kept s.classAllocators s'.classAllocators)
    (harrays : Kept s.arrayAllocators s'.arrayAllocators)
    (hfunctions : s'.functionProcs = s.functionProcs)
    (hmethods : s'.methodProcs = s.methodProcs) : s'.Apart p := by
  refine ⟨hfunctions ▸ h.functions, hmethods ▸ h.methods, ?_, ?_, ?_, fun proc hproc => ?_⟩
  · rw [hfunctions, hmethods]
    exact h.disjoint
  · rw [hfunctions]
    exact fun proc hproc => Nat.lt_of_lt_of_le (h.bounded proc hproc) hle
  · rw [hmethods]
    exact fun ref proc hproc => Nat.lt_of_lt_of_le (h.boundedMethods ref proc hproc) hle
  · rcases Nat.lt_or_ge proc s.ir.procs.length with hlt | hge
    · exact (h.known proc hlt).mono (hfunctions ▸ List.prefix_rfl) (hmethods ▸ .refl _) hobjects
        harrays
    · exact hknown proc hge hproc

/-- Where no procedure comes in, nothing of this changes. -/
theorem Session.Apart.of_procs {p : Program} {s s' : Session} (h : s.Apart p)
    (hprocs : s'.ir.procs = s.ir.procs) (hsame : s.SameAllocators s')
    (hfunctions : s'.functionProcs = s.functionProcs)
    (hmethods : s'.methodProcs = s.methodProcs) : s'.Apart p :=
  h.mono (Nat.le_of_eq (by rw [hprocs]))
    (fun _ hge hlt => absurd hlt (by rw [hprocs]; exact Nat.not_lt.2 hge))
    (hsame.classes ▸ .refl _) (hsame.arrays ▸ .refl _) hfunctions hmethods

theorem Session.Apart.retyped {p : Program} {a : Analysis} {s s' : Session} (h : s.Apart p)
    (hs : s.Retyped p a s') : s'.Apart p :=
  h.of_procs hs.procs hs.sameAllocators hs.functionProcs hs.methodProcs

/-- The procedure of the number is that of the function or method. -/
def HasProc (p : Program) (a : Analysis) (s : Session) (name : String) (this : List Ir.Field)
    (f : FunctionDecl) (id : ProcId) : Prop :=
  ∃ proc, s.ir.procs[id]? = some proc ∧ ProcFor p a s name this f proc

theorem HasProc.mono {p : Program} {a : Analysis} {s s' : Session} (hs : s.Grows s')
    {name : String} {this : List Ir.Field} {f : FunctionDecl} {id : ProcId}
    (h : HasProc p a s name this f id) : HasProc p a s' name this f id := by
  obtain ⟨proc, hproc, hfor⟩ := h
  obtain ⟨temps, blocks, hproc'⟩ := hs.ir.procs id proc hproc
  have hfor' := hfor.mono hs
  exact ⟨_, hproc', hfor'.name, hfor'.ret, hfor'.params⟩

/-- The types in the signature of a function are interned. -/
def SignatureInterned (p : Program) (a : Analysis) (f : FunctionDecl) : Prop :=
  Typing.Interned p a.findings f.returnType ∧
    ∀ param ∈ f.params, Typing.Interned p a.findings param.ty

section Procs

variable {p : Program} {a : Analysis} {s : Session}

/-- The session with another procedure, that of a free function. -/
def Session.withFunction (s : Session) (proc : Ir.Proc) : Session :=
  { s with
    ir := { s.ir with procs := s.ir.procs ++ [proc] }
    functionProcs := s.functionProcs ++ [s.ir.procs.length] }

/-- The session with another procedure, that of a method. -/
def Session.withMethod (s : Session) (ref : MemberRef) (proc : Ir.Proc) : Session :=
  { s with
    ir := { s.ir with procs := s.ir.procs ++ [proc] }
    methodProcs := s.methodProcs.insert ref s.ir.procs.length }

theorem Session.extends_withFunction (s : Session) (proc : Ir.Proc) :
    s.Extends (s.withFunction proc) :=
  ⟨List.prefix_rfl, rfl, List.prefix_append _ _, rfl, .refl _, .refl _, List.prefix_append _ _,
    .refl _, .refl _, .refl _⟩

theorem Session.extends_withMethod {ref : MemberRef} (hnew : s.methodProcs.get? ref = none)
    (proc : Ir.Proc) : s.Extends (s.withMethod ref proc) :=
  ⟨List.prefix_rfl, rfl, List.prefix_append _ _, rfl, .refl _, .insert hnew _, List.prefix_rfl,
    .refl _, .refl _, .refl _⟩

theorem Session.Apart.withFunction (h : s.Apart p) {f : FunctionDecl}
    (hf : p.functions[s.functionProcs.length]? = some f) (proc : Ir.Proc) :
    (s.withFunction proc).Apart p := by
  refine ⟨?_, h.methods, fun ref id hid hmem => ?_, fun id hid => ?_, fun ref id hid => ?_,
    fun id hid => ?_⟩
  · exact List.nodup_append'.2 ⟨h.functions, by simp, fun id hid hlast =>
      Nat.lt_irrefl _ (List.mem_singleton.1 hlast ▸ h.bounded id hid)⟩
  · rcases List.mem_append.1 hmem with hmem | hmem
    · exact h.disjoint ref id hid hmem
    · exact Nat.lt_irrefl _ (List.mem_singleton.1 hmem ▸ h.boundedMethods ref id hid)
  · rw [Session.withFunction, List.length_append]
    rcases List.mem_append.1 hid with hid | hid
    · exact Nat.lt_succ_of_lt (h.bounded id hid)
    · rw [List.mem_singleton.1 hid]
      exact Nat.lt_succ_self _
  · rw [Session.withFunction, List.length_append]
    exact Nat.lt_succ_of_lt (h.boundedMethods ref id hid)
  · rw [Session.withFunction, List.length_append] at hid
    rcases Nat.lt_succ_iff_lt_or_eq.1 hid with hid | rfl
    · exact (h.known id hid).mono (List.prefix_append _ _) (.refl _) (.refl _) (.refl _)
    · exact .function hf (List.getElem?_concat_length ..)

theorem Session.Apart.withMethod (h : s.Apart p) {ref : MemberRef}
    (hnew : s.methodProcs.get? ref = none) {f : FunctionDecl} (hf : methodDecl? p ref = some f)
    (proc : Ir.Proc) : (s.withMethod ref proc).Apart p := by
  have hget (other : MemberRef) (id : ProcId) (hid : (s.withMethod ref proc).methodProcs.get? other =
      some id) : (ref = other ∧ id = s.ir.procs.length) ∨
        (ref ≠ other ∧ s.methodProcs.get? other = some id ∧ id < s.ir.procs.length) := by
    by_cases hother : ref = other
    · subst hother
      rw [Session.withMethod, Table.get?_insert_self] at hid
      exact .inl ⟨rfl, (Option.some.inj hid).symm⟩
    · rw [Session.withMethod, Table.get?_insert_of_ne _ _ hother] at hid
      exact .inr ⟨hother, hid, h.boundedMethods other id hid⟩
  refine ⟨h.functions, fun r r' id hr hr' => ?_, fun r id hr hmem => ?_, fun id hid => ?_,
    fun r id hr => ?_, fun id hid => ?_⟩
  · rcases hget r id hr with ⟨rfl, hid⟩ | ⟨-, hid, hlt⟩ <;>
      rcases hget r' id hr' with ⟨rfl, hid'⟩ | ⟨-, hid', hlt'⟩
    · rfl
    · exact absurd hlt' (hid ▸ Nat.lt_irrefl _)
    · exact absurd hlt (hid' ▸ Nat.lt_irrefl _)
    · exact h.methods r r' id hid hid'
  · rcases hget r id hr with ⟨-, hid⟩ | ⟨-, hid, -⟩
    · exact Nat.lt_irrefl _ (hid ▸ h.bounded id hmem)
    · exact h.disjoint r id hid hmem
  · rw [Session.withMethod, List.length_append]
    exact Nat.lt_succ_of_lt (h.bounded id hid)
  · rw [Session.withMethod, List.length_append]
    rcases hget r id hr with ⟨-, hid⟩ | ⟨-, -, hlt⟩
    · rw [hid]
      exact Nat.lt_succ_self _
    · exact Nat.lt_succ_of_lt hlt
  · rw [Session.withMethod, List.length_append] at hid
    rcases Nat.lt_succ_iff_lt_or_eq.1 hid with hid | rfl
    · exact (h.known id hid).mono List.prefix_rfl (.insert hnew _) (.refl _) (.refl _)
    · exact .method hf (Table.get?_insert_self _ _ _)

/-- **Every function gets a procedure with its signature.** -/
theorem yields_declareFunctions (ht : TableOk p a.findings.table)
    (hlookup : ∀ name, a.classes.lookup name = p.classId? name) (hs : s.Typed p a)
    (hapart : s.Apart p) {fs : List FunctionDecl} (hfs : ∀ f ∈ fs, SignatureInterned p a f)
    (hdecl : ∀ index, p.functions[s.functionProcs.length + index]? = fs[index]?) :
    Yields (declareFunctions a fs) s fun _ s' => s.Extends s' ∧ s.SameFields s' ∧
      s'.Typed p a ∧ s'.Apart p ∧ s'.methodProcs = s.methodProcs ∧ ∃ ids, s'.functionProcs = s.functionProcs ++ ids ∧
        List.Forall₂ (fun f id => HasProc p a s' f.name [] f id) fs ids := by
  induction fs generalizing s with
  | nil => exact .pure ⟨.refl s, .refl s, hs, hapart, rfl, [], by simp, .nil⟩
  | cons f rest ih =>
    rw [List.forall_mem_cons] at hfs
    refine (yields_irParams ht hlookup hs hfs.1.2).bind fun fields s₁ ⟨h₁, hfields⟩ =>
      (yields_irTyOf ht hlookup h₁.typed hfs.1.1).bind fun ret s₂ ⟨h₂, hret⟩ =>
        yields_declareProc_bind (.modify_bind ?_)
    have h₁₂ := h₁.trans h₂
    have hwithin := ParamFor.within h₁₂.typed (hfields.imp fun _ _ h => h.mono h₂.extends_.grows)
    have hext := s₂.extends_withFunction ⟨f.name, ret, fields, [], []⟩
    have hproc : HasProc p a (s₂.withFunction ⟨f.name, ret, fields, [], []⟩) f.name [] f
        s₂.ir.procs.length := by
      refine ⟨⟨f.name, ret, fields, [], []⟩, by simp [Session.withFunction], rfl,
        hret.mono hext.grows, fields, rfl, hfields.imp fun _ _ h => ?_⟩
      exact (h.mono h₂.extends_.grows).mono hext.grows
    refine (ih (s := s₂.withFunction ⟨f.name, ret, fields, [], []⟩)
      (h₁₂.typed.mono hext.grows (h₁₂.typed.ir.declare _ (hret.within h₁₂.typed) hwithin)
        rfl rfl)
      ((hapart.retyped h₁₂).withFunction (by rw [h₁₂.functionProcs]; exact hdecl 0) _)
      hfs.2 fun index => ?_).mono
        fun _ s' ⟨hext', hsame, hs', hapart', hmethods, ids, hids, hall⟩ => ?_
    · rw [Session.withFunction, List.length_append, h₁₂.functionProcs, Nat.add_assoc,
        List.length_singleton, Nat.add_comm 1, hdecl, List.getElem?_cons_succ]
    refine ⟨(h₁₂.extends_.trans hext).trans hext',
      h₁₂.sameFields.trans ⟨⟨hsame.classes, hsame.arrays⟩, hsame.fields⟩, hs', hapart', ?_, s₂.ir.procs.length :: ids, ?_,
      .cons (hproc.mono hext'.grows) hall⟩
    · rw [hmethods]
      exact h₁₂.methodProcs
    · rw [hids, Session.withFunction, h₁₂.functionProcs]
      simp

/-- **Every method of a class gets a procedure with its signature**, behind
the parameter for the receiver. -/
theorem yields_declareMethodsOf (ht : TableOk p a.findings.table)
    (hlookup : ∀ name, a.classes.lookup name = p.classId? name) (hs : s.Typed p a)
    (hapart : s.Apart p) (id : ClassId) (c : ClassDecl) {this : Ir.Ty} (hthis : this.Within s.ir)
    {methods : List FunctionDecl} (k : Nat) (hmethods : ∀ m ∈ methods, SignatureInterned p a m)
    (hdecl : ∀ index, methodDecl? p ⟨id, k + index⟩ = methods[index]?)
    (hnew : ∀ index, k ≤ index → s.methodProcs.get? ⟨id, index⟩ = none) :
    Yields (declareMethodsOf a id c this (methods.zipIdx k)) s fun _ s' =>
      s.Extends s' ∧ s.SameFields s' ∧ s'.Typed p a ∧ s'.Apart p ∧
        s'.functionProcs = s.functionProcs ∧
        (∀ ref : MemberRef, ref.class_ ≠ id → s'.methodProcs.get? ref = s.methodProcs.get? ref) ∧
        ∀ index m, methods[index]? = some m → ∃ proc, s'.methodProcs.get? ⟨id, k + index⟩ = some proc ∧
          HasProc p a s' (c.name ++ "_" ++ m.name) [⟨"this", this⟩] m proc := by
  -- As for fields: `k` is the index of the first method that is left.
  induction methods generalizing s k with
  | nil => exact .pure ⟨.refl s, .refl s, hs, hapart, rfl, fun _ _ => rfl, by simp⟩
  | cons m rest ih =>
    rw [List.forall_mem_cons] at hmethods
    refine (yields_irParams ht hlookup hs hmethods.1.2).bind fun fields s₁ ⟨h₁, hfields⟩ =>
      (yields_irTyOf ht hlookup h₁.typed hmethods.1.1).bind fun ret s₂ ⟨h₂, hret⟩ =>
        yields_declareProc_bind (.modify_bind ?_)
    have h₁₂ := h₁.trans h₂
    have hnew₂ (index : Nat) (hindex : k ≤ index) : s₂.methodProcs.get? ⟨id, index⟩ = none := by
      rw [h₁₂.methodProcs, hnew index hindex]
    generalize hproc : (⟨c.name ++ "_" ++ m.name, ret, ⟨"this", this⟩ :: fields, [], []⟩ : Ir.Proc) =
      decl
    have hext := Session.extends_withMethod (hnew₂ k (Nat.le_refl k)) decl
    have hhas : HasProc p a (s₂.withMethod ⟨id, k⟩ decl) (c.name ++ "_" ++ m.name)
        [⟨"this", this⟩] m s₂.ir.procs.length := by
      subst hproc
      refine ⟨⟨c.name ++ "_" ++ m.name, ret, ⟨"this", this⟩ :: fields, [], []⟩,
        by simp [Session.withMethod], rfl, hret.mono hext.grows, fields, rfl,
        hfields.imp fun _ _ h => ?_⟩
      exact (h.mono h₂.extends_.grows).mono hext.grows
    have hwithin := ParamFor.within h₁₂.typed (hfields.imp fun _ _ h => h.mono h₂.extends_.grows)
    have htyped : decl.Typed s₂.ir := hproc ▸ .declared (hret.within h₁₂.typed)
      (List.forall_mem_cons.2 ⟨h₁₂.extends_.keeps.within hthis, hwithin⟩)
    refine (ih (s := s₂.withMethod ⟨id, k⟩ decl)
      (h₁₂.typed.mono hext.grows (h₁₂.typed.ir.addProc htyped) rfl rfl)
      ((hapart.retyped h₁₂).withMethod (hnew₂ k (Nat.le_refl k)) (hdecl 0) _)
      ((h₁₂.extends_.trans hext).keeps.within hthis) (k + 1) hmethods.2 (fun index => ?_)
      fun index hindex => ?_).mono
        fun _ s' ⟨hext', hsame, hs', hapart', hfunctions, hother, hall⟩ => ?_
    · rw [show k + 1 + index = k + (index + 1) by omega, hdecl, List.getElem?_cons_succ]
    · have hne : (⟨id, k⟩ : MemberRef) ≠ ⟨id, index⟩ := fun heq => by
        have := (MemberRef.mk.inj heq).2
        omega
      rw [Session.withMethod, Table.get?_insert_of_ne _ _ hne, hnew₂ index (by omega)]
    · refine ⟨(h₁₂.extends_.trans hext).trans hext',
        h₁₂.sameFields.trans ⟨⟨hsame.classes, hsame.arrays⟩, hsame.fields⟩, hs', hapart', hfunctions.trans h₁₂.functionProcs, fun ref href => ?_, fun index m' hm' => ?_⟩
      · have hne : (⟨id, k⟩ : MemberRef) ≠ ref := fun heq => href (heq ▸ rfl)
        rw [hother ref href, Session.withMethod, Table.get?_insert_of_ne _ _ hne, h₁₂.methodProcs]
      · cases index with
        | zero =>
          obtain rfl := Option.some.inj hm'
          exact ⟨_, hext'.methodProcs _ _ (by simp [Session.withMethod]), hhas.mono hext'.grows⟩
        | succ index =>
          obtain ⟨proc, hget, hproc'⟩ := hall index m' hm'
          exact ⟨proc, by rw [show k + (index + 1) = k + 1 + index by omega]; exact hget, hproc'⟩

/-- The receiver of the methods of a class. -/
def thisParam (id : ClassId) : Ir.Field := ⟨"this", .ptr (.struct (2 * id))⟩

/-- The method has a procedure. -/
def HasMethodProc (p : Program) (a : Analysis) (s : Session) (c : ClassDecl) (ref : MemberRef)
    (m : FunctionDecl) : Prop :=
  ∃ proc, s.methodProcs.get? ref = some proc ∧
    HasProc p a s (c.name ++ "_" ++ m.name) [thisParam ref.class_] m proc

theorem HasMethodProc.mono {s' : Session} (hs : s.Grows s') {c : ClassDecl} {ref : MemberRef}
    {m : FunctionDecl} (h : HasMethodProc p a s c ref m) : HasMethodProc p a s' c ref m := by
  obtain ⟨proc, hget, hproc⟩ := h
  exact ⟨proc, hs.methodProcs _ _ hget, hproc.mono hs⟩

theorem yields_declareMethods (ht : TableOk p a.findings.table)
    (hlookup : ∀ name, a.classes.lookup name = p.classId? name) (hs : s.Typed p a)
    (hapart : s.Apart p) {cs : List ClassDecl} (k : Nat)
    (hmethods : ∀ c ∈ cs, ∀ m ∈ c.methods, SignatureInterned p a m)
    (hdecl : ∀ i, p.classes[k + i]? = cs[i]?)
    (hlayouts : ∀ i c, cs[i]? = some c →
      ∃ layout, s.classes[k + i]? = some layout ∧ layout.instance_ = 2 * (k + i))
    (hnew : ∀ ref : MemberRef, k ≤ ref.class_ → s.methodProcs.get? ref = none) :
    Yields (declareMethods a (cs.zipIdx k)) s fun _ s' =>
      s.Extends s' ∧ s.SameFields s' ∧ s'.Typed p a ∧ s'.Apart p ∧
        s'.functionProcs = s.functionProcs ∧
        ∀ i c, cs[i]? = some c → ∀ index m, c.methods[index]? = some m →
          HasMethodProc p a s' c ⟨k + i, index⟩ m := by
  induction cs generalizing s k with
  | nil => exact .pure ⟨.refl s, .refl s, hs, hapart, rfl, by simp⟩
  | cons c rest ih =>
    rw [List.forall_mem_cons] at hmethods
    obtain ⟨layout, hlayout, hinstance⟩ := hlayouts 0 c rfl
    rw [Nat.add_zero] at hlayout hinstance
    refine (yields_classLayout (P := fun l s' => l = layout ∧ s' = s) hlayout ⟨rfl, rfl⟩).bind
      fun l s₁ h => ?_
    obtain ⟨rfl, rfl⟩ := h
    have hthis : (Ir.Ty.ptr (.struct l.instance_)).Within s₁.ir :=
      Ir.Ty.within_struct.2 (hs.instances _ _ hlayout)
    have hmethodDecl (index : Nat) : methodDecl? p ⟨k, 0 + index⟩ = c.methods[index]? := by
      have hc : p.classes[k]? = some c := hdecl 0
      rw [methodDecl?, hc, Option.bind_some, Nat.zero_add]
    refine (yields_declareMethodsOf ht hlookup hs hapart k c hthis 0 hmethods.1 hmethodDecl
      fun index _ => hnew _ (Nat.le_refl k)).bind
        fun _ s₂ h => ?_
    obtain ⟨hext, hsame, hs₂, hapart₂, hfunctions, hother, hall⟩ := h
    refine (ih hs₂ hapart₂ (k + 1) hmethods.2 (fun i => ?_) (fun i c' hc' => ?_)
      fun ref href => ?_).mono fun _ s' h => ?_
    · rw [show k + 1 + i = k + (i + 1) by omega, hdecl, List.getElem?_cons_succ]
    · rw [hext.classes, show k + 1 + i = k + (i + 1) by omega]
      exact hlayouts (i + 1) c' hc'
    · rw [hother ref (Nat.ne_of_gt href), hnew ref (Nat.le_of_succ_le href)]
    · obtain ⟨hext', hsame', hs', hapart', hfunctions', hrest⟩ := h
      refine ⟨hext.trans hext', hsame.trans hsame', hs', hapart', hfunctions'.trans hfunctions,
        fun i c' hc' index m hm => ?_⟩
      cases i with
      | zero =>
        obtain rfl := Option.some.inj hc'
        obtain ⟨proc, hget, hproc⟩ := hall index m hm
        rw [Nat.zero_add] at hget
        rw [hinstance] at hproc
        exact HasMethodProc.mono hext'.grows ⟨proc, hget, hproc⟩
      | succ i =>
        rw [show k + (i + 1) = k + 1 + i by omega]
        exact hrest i c' hc' index m hm

end Procs

end ClassLang.Lowering
