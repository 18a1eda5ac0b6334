import ClassLang.Proofs.Growth
import ClassLang.Ir.Builder
/-!
# Intermediate form — which programs are typed

`Program.Typed` says that every instruction and every end of a block has
its types, and that every struct that a type names is there. Programs are
typed while they are built: `Program.Keeps` says how a program may change,
and that an operand keeps its type meanwhile (`HasTy.mono`).
-/


namespace ClassLang.Ir

/-! ## Structs and procedures that are there -/

mutual

/-- The structs that a type names. -/
def Ty.structs : Ty → List StructId
  | .int | .bool | .byte | .null => []
  | .ptr target => target.structs
  | .struct id => [id]
  | .array elem _ => elem.structs
  | .proc ret params => ret.structs ++ tysStructs params

/-- The structs that types name. -/
def tysStructs : List Ty → List StructId
  | [] => []
  | ty :: rest => ty.structs ++ tysStructs rest

end

/-- Every struct that the type names is there. -/
def Ty.Within (ty : Ty) (p : Program) : Prop := ∀ id ∈ ty.structs, id < p.structs.length

theorem mem_tysStructs {tys : List Ty} {id : StructId} :
    id ∈ tysStructs tys ↔ ∃ ty ∈ tys, id ∈ ty.structs := by
  induction tys with
  | nil => simp [tysStructs]
  | cons ty rest ih => simp [tysStructs, ih]

namespace Ty

variable {p : Program}

theorem within_int : int.Within p := fun _ h => nomatch h

theorem within_bool : bool.Within p := fun _ h => nomatch h

theorem within_byte : byte.Within p := fun _ h => nomatch h

theorem within_null : null.Within p := fun _ h => nomatch h

theorem within_ptr {ty : Ty} : (ptr ty).Within p ↔ ty.Within p := .rfl

theorem within_struct {id : StructId} : (struct id).Within p ↔ id < p.structs.length :=
  List.forall_mem_singleton

theorem within_array {elem : Ty} {n : Nat} : (array elem n).Within p ↔ elem.Within p := .rfl

theorem within_proc {ret : Ty} {params : List Ty} :
    (proc ret params).Within p ↔ ret.Within p ∧ ∀ ty ∈ params, ty.Within p := by
  simp only [Within, structs, List.mem_append, mem_tysStructs]
  grind

end Ty

/-- What the constant names is there. -/
inductive Const.Within (p : Program) : Const → Prop
  | int {value} : Within p (.int value)
  | bool {value} : Within p (.bool value)
  | null : Within p .null
  | proc {id} : id < p.procs.length → Within p (.proc id)
  | struct {id fields} : id < p.structs.length → (∀ c ∈ fields, Within p c) →
      Within p (.struct id fields)

/-- **How a program may change while it is built**: a struct that has fields
keeps them, a global its type, and a procedure its signature. -/
structure Program.Keeps (p p' : Program) : Prop where
  structs : ∀ (id : StructId) (decl : StructDef), p.structs[id]? = some decl →
    decl.fields ≠ [] → p'.structs[id]? = some decl
  structCount : p.structs.length ≤ p'.structs.length
  globals : ∀ (id : GlobalId) (g : Global), p.globals[id]? = some g →
    ∃ g', p'.globals[id]? = some g' ∧ g'.ty = g.ty
  procs : ∀ (id : ProcId) (q : Proc), p.procs[id]? = some q →
    ∃ temps blocks, p'.procs[id]? = some { q with temps := temps, blocks := blocks }

namespace Program.Keeps

variable {p p' p'' : Program}

theorem refl (p : Program) : p.Keeps p :=
  ⟨fun _ _ h _ => h, Nat.le_refl _, fun _ g h => ⟨g, h, rfl⟩,
    fun _ q h => ⟨q.temps, q.blocks, h⟩⟩

theorem trans (h : p.Keeps p') (h' : p'.Keeps p'') : p.Keeps p'' := by
  refine ⟨fun id decl hid hne => h'.structs id decl (h.structs id decl hid hne) hne,
    Nat.le_trans h.structCount h'.structCount, fun id g hg => ?_, fun id q hq => ?_⟩
  · obtain ⟨g', hg', hty⟩ := h.globals id g hg
    obtain ⟨g'', hg'', hty'⟩ := h'.globals id g' hg'
    exact ⟨g'', hg'', hty'.trans hty⟩
  · obtain ⟨temps, blocks, hq'⟩ := h.procs id q hq
    obtain ⟨temps', blocks', hq''⟩ := h'.procs id _ hq'
    exact ⟨temps', blocks', hq''⟩

/-- What is only added to is kept. -/
theorem of_append (hstructs : p.structs <+: p'.structs) (hglobals : p.globals <+: p'.globals)
    (hprocs : p.procs <+: p'.procs) : p.Keeps p' :=
  ⟨fun _ _ h _ => getElem?_of_initial hstructs h, hstructs.length_le,
    fun _ g h => ⟨g, getElem?_of_initial hglobals h, rfl⟩,
    fun _ q h => ⟨q.temps, q.blocks, getElem?_of_initial hprocs h⟩⟩

theorem addProc (p : Program) (q : Proc) : p.Keeps { p with procs := p.procs ++ [q] } :=
  .of_append List.prefix_rfl List.prefix_rfl (List.prefix_append _ _)

theorem within (h : p.Keeps p') {ty : Ty} (hty : ty.Within p) : ty.Within p' := fun id hid =>
  Nat.lt_of_lt_of_le (hty id hid) h.structCount

theorem procCount (h : p.Keeps p') : p.procs.length ≤ p'.procs.length := by
  refine Nat.le_of_not_lt fun hlt => ?_
  obtain ⟨_, _, hq⟩ := h.procs p'.procs.length _ (List.getElem?_eq_getElem hlt)
  exact Nat.lt_irrefl _ (List.getElem?_eq_some_iff.1 hq).1

theorem const (h : p.Keeps p') {c : Const} (hc : c.Within p) : c.Within p' := by
  induction hc with
  | int => exact .int
  | bool => exact .bool
  | null => exact .null
  | proc hid => exact .proc (Nat.lt_of_lt_of_le hid h.procCount)
  | struct hid _ ih => exact .struct (Nat.lt_of_lt_of_le hid h.structCount) ih

end Program.Keeps

/-! ## Operands -/

/-- **The operand has the type** among parameters and temporaries. -/
structure HasTy (p : Program) (params temps : List Field) (v : Operand) (ty : Ty) : Prop where
  found : p.operandTy params temps v = .ok ty
  within : ty.Within p

section HasTy

variable {p p' : Program} {params temps temps' : List Field} {v : Operand} {ty : Ty}

theorem hasTy_int (value : Int32) : HasTy p params temps (.int value) .int :=
  ⟨rfl, Ty.within_int⟩

theorem hasTy_bool (value : Bool) : HasTy p params temps (.bool value) .bool :=
  ⟨rfl, Ty.within_bool⟩

theorem hasTy_null : HasTy p params temps .null .null := ⟨rfl, Ty.within_null⟩

theorem hasTy_temp {id : TempId} : HasTy p params temps (.temp id) ty ↔
    (∃ f, temps[id]? = some f ∧ f.ty = ty) ∧ ty.Within p := by
  refine (⟨fun h => ⟨h.1, h.2⟩, fun h => ⟨h.1, h.2⟩⟩ : _ ↔ _ ∧ _).trans (and_congr_left' ?_)
  rw [Program.operandTy]
  cases h : temps[id]? <;> simp [Program.find, h]

theorem hasTy_param {index : Nat} : HasTy p params temps (.param index) ty ↔
    (∃ f, params[index]? = some f ∧ f.ty = ty) ∧ ty.Within p := by
  refine (⟨fun h => ⟨h.1, h.2⟩, fun h => ⟨h.1, h.2⟩⟩ : _ ↔ _ ∧ _).trans (and_congr_left' ?_)
  rw [Program.operandTy]
  cases h : params[index]? <;> simp [Program.find, h]

theorem hasTy_global {id : GlobalId} : HasTy p params temps (.global id) ty ↔
    (∃ g, p.globals[id]? = some g ∧ .ptr g.ty = ty) ∧ ty.Within p := by
  refine (⟨fun h => ⟨h.1, h.2⟩, fun h => ⟨h.1, h.2⟩⟩ : _ ↔ _ ∧ _).trans (and_congr_left' ?_)
  rw [Program.operandTy, Program.global]
  cases h : p.globals[id]? <;> simp [Program.find, h]

theorem hasTy_proc {id : ProcId} : HasTy p params temps (.proc id) ty ↔
    (∃ q, p.procs[id]? = some q ∧ q.signature = ty) ∧ ty.Within p := by
  refine (⟨fun h => ⟨h.1, h.2⟩, fun h => ⟨h.1, h.2⟩⟩ : _ ↔ _ ∧ _).trans (and_congr_left' ?_)
  rw [Program.operandTy, Program.proc]
  cases h : p.procs[id]? <;> simp [Program.find, h]

/-- **An operand keeps its type** while temporaries come in and the program
is built. -/
theorem HasTy.mono (h : HasTy p params temps v ty) (hp : p.Keeps p') (ht : temps <+: temps') :
    HasTy p' params temps' v ty := by
  have hw := hp.within h.within
  cases v with
  | int value => exact ⟨h.found, hw⟩
  | bool value => exact ⟨h.found, hw⟩
  | null => exact ⟨h.found, hw⟩
  | temp id =>
    obtain ⟨⟨f, hf, hty⟩, -⟩ := hasTy_temp.1 h
    exact hasTy_temp.2 ⟨⟨f, getElem?_of_initial ht hf, hty⟩, hw⟩
  | param index => exact hasTy_param.2 ⟨(hasTy_param.1 h).1, hw⟩
  | global id =>
    obtain ⟨⟨g, hg, rfl⟩, -⟩ := hasTy_global.1 h
    obtain ⟨g', hg', hty⟩ := hp.globals id g hg
    exact hasTy_global.2 ⟨⟨g', hg', by rw [hty]⟩, hw⟩
  | proc id =>
    obtain ⟨⟨q, hq, rfl⟩, -⟩ := hasTy_proc.1 h
    obtain ⟨_, _, hq'⟩ := hp.procs id q hq
    exact hasTy_proc.2 ⟨⟨_, hq', rfl⟩, hw⟩

theorem HasTy.unique {other : Ty} (h : HasTy p params temps v ty)
    (h' : HasTy p params temps v other) : ty = other :=
  Except.ok.inj (h.found.symm.trans h'.found)

end HasTy

/-! ## Instructions -/

/-- The temporary that an instruction gives. -/
def Instr.dst? : Instr → Option TempId
  | alloca dst _ | load dst _ | binary dst _ _ _ | elementPtr dst _ _ | bitcast dst _ => some dst
  | alloc dst _ | call dst _ _ => some dst
  | store _ _ | print _ | comment _ => none

/-- The operands of an instruction. -/
def Instr.operands : Instr → List Operand
  | alloca _ _ | comment _ => []
  | load _ v | bitcast _ v | alloc _ v | print v => [v]
  | store v w | binary _ _ v w => [v, w]
  | elementPtr _ base indices => base :: indices
  | call _ callee args => callee :: args

/-- The operands of the end of a block. -/
def Terminator.operands : Terminator → List Operand
  | branch v _ _ | ret v => [v]
  | jump _ | halt _ => []

section Typed

variable (p : Program) (T : Operand → Ty → Prop)

/-- **The instruction has its types**, where `T` tells those of operands. -/
inductive Instr.Typed : Instr → Prop
  | alloca {dst ty} : T (.temp dst) (.ptr ty) → Typed (.alloca dst ty)
  | load {dst addr ty} : T addr (.ptr ty) → T (.temp dst) ty → Typed (.load dst addr)
  | store {addr value ty} : T addr (.ptr ty) → T value ty → Typed (.store addr value)
  | storeNull {addr ty} : T addr (.ptr (.ptr ty)) → Typed (.store addr .null)
  | ints {dst op lhs rhs} : op = .add ∨ op = .sub ∨ op = .mul ∨ op = .div ∨ op = .lt →
      T lhs .int → T rhs .int → T (.temp dst) op.resultTy → Typed (.binary dst op lhs rhs)
  | bools {dst op lhs rhs} : op = .and ∨ op = .or → T lhs .bool → T rhs .bool →
      T (.temp dst) .bool → Typed (.binary dst op lhs rhs)
  | eq {dst lhs rhs ty} : T lhs ty → T rhs ty → T (.temp dst) .bool →
      Typed (.binary dst .eq lhs rhs)
  | eqNull {dst lhs ty} : T lhs (.ptr ty) → T (.temp dst) .bool →
      Typed (.binary dst .eq lhs .null)
  | elementPtr {dst base first rest ty target} : T base (.ptr ty) → T first .int →
      (∀ index ∈ rest, T index .int) → rest.foldlM (Builder.selectTy p) ty = .ok target →
      T (.temp dst) (.ptr target) → Typed (.elementPtr dst base (first :: rest))
  | bitcast {dst value source target} : T value source →
      source = .null ∨ (∃ ty, source = .ptr ty) → T (.temp dst) (.ptr target) →
      Typed (.bitcast dst value)
  | alloc {dst size} : T size .int → T (.temp dst) (.ptr .byte) → Typed (.alloc dst size)
  | call {dst callee args ret params} : T callee (.proc ret params) →
      List.Forall₂ T args params → T (.temp dst) ret → Typed (.call dst callee args)
  | print {value} : T value .int → Typed (.print value)
  | comment {text} : Typed (.comment text)

/-- The end of a block has its types in a procedure with such results. -/
inductive Terminator.Typed (ret : Ty) : Terminator → Prop
  | branch {cond yes no} : T cond .bool → Typed ret (.branch cond yes no)
  | jump {target} : Typed ret (.jump target)
  | ret {value} : T value ret → Typed ret (.ret value)
  | halt {message} : Typed ret (.halt message)

end Typed

section Mono

variable {p p' : Program} {T T' : Operand → Ty → Prop}

/-- What an index selects stays. -/
theorem Program.Keeps.selectTy (hp : p.Keeps p') {ty target : Ty} {index : Operand}
    (h : Builder.selectTy p ty index = .ok target) :
    Builder.selectTy p' ty index = .ok target := by
  cases ty with
  | struct id =>
    cases index with
    | int value =>
      unfold Builder.selectTy Program.struct Program.find at h ⊢
      cases hdecl : p.structs[id]? with
      | none => simp [hdecl, bind, Except.bind] at h
      | some decl =>
        by_cases hne : decl.fields = []
        · simp [hdecl, hne, bind, Except.bind, throw, throwThe, MonadExceptOf.throw] at h
        · simp only [hdecl, hp.structs id decl hdecl hne] at h ⊢
          revert h
          simp only [bind, Except.bind]
          split <;> intro h
          · exact h
          · cases h
    | _ => cases h
  | array elem n => exact h
  | _ => cases h

theorem Program.Keeps.selectTys (hp : p.Keeps p') {indices : List Operand} {ty target : Ty}
    (h : indices.foldlM (Builder.selectTy p) ty = .ok target) :
    indices.foldlM (Builder.selectTy p') ty = .ok target := by
  induction indices generalizing ty with
  | nil => exact h
  | cons index rest ih =>
    rw [List.foldlM_cons] at h ⊢
    cases hselect : Builder.selectTy p ty index with
    | error e => rw [hselect] at h; cases h
    | ok inner =>
      rw [hselect] at h
      rw [hp.selectTy hselect]
      exact ih h

/-- **An instruction keeps its types** if its operands do. -/
theorem Instr.Typed.mono {i : Instr} (h : i.Typed p T) (hp : p.Keeps p')
    (hT : ∀ v ty, T v ty → T' v ty) : i.Typed p' T' := by
  cases h with
  | alloca h => exact .alloca (hT _ _ h)
  | load h h' => exact .load (hT _ _ h) (hT _ _ h')
  | store h h' => exact .store (hT _ _ h) (hT _ _ h')
  | storeNull h => exact .storeNull (hT _ _ h)
  | ints hop h h' hd => exact .ints hop (hT _ _ h) (hT _ _ h') (hT _ _ hd)
  | bools hop h h' hd => exact .bools hop (hT _ _ h) (hT _ _ h') (hT _ _ hd)
  | eq h h' hd => exact .eq (hT _ _ h) (hT _ _ h') (hT _ _ hd)
  | eqNull h hd => exact .eqNull (hT _ _ h) (hT _ _ hd)
  | elementPtr h hfirst hrest hselect hd =>
    exact .elementPtr (hT _ _ h) (hT _ _ hfirst) (fun i hi => hT _ _ (hrest i hi))
      (hp.selectTys hselect) (hT _ _ hd)
  | bitcast h hsource hd => exact .bitcast (hT _ _ h) hsource (hT _ _ hd)
  | alloc h hd => exact .alloc (hT _ _ h) (hT _ _ hd)
  | call h hargs hd => exact .call (hT _ _ h) (hargs.imp fun _ _ => hT _ _) (hT _ _ hd)
  | print h => exact .print (hT _ _ h)
  | comment => exact .comment

theorem Terminator.Typed.mono {ret : Ty} {t : Terminator} (h : t.Typed T ret)
    (hT : ∀ v ty, T v ty → T' v ty) : t.Typed T' ret := by
  cases h with
  | branch h => exact .branch (hT _ _ h)
  | jump => exact .jump
  | ret h => exact .ret (hT _ _ h)
  | halt => exact .halt

end Mono

/-! ## Procedures and programs -/

/-- **The procedure is typed.** -/
structure Proc.Typed (p : Program) (q : Proc) : Prop where
  signature : q.signature.Within p
  temps : ∀ f ∈ q.temps, f.ty.Within p
  instrs : ∀ o ∈ q.blocks, ∀ i ∈ o.instrs, i.Typed p (HasTy p q.params q.temps)
  ends : ∀ o ∈ q.blocks, o.terminator.Typed (HasTy p q.params q.temps) q.ret

theorem Proc.Typed.mono {p p' : Program} {q : Proc} (h : q.Typed p) (hp : p.Keeps p') :
    q.Typed p' :=
  ⟨hp.within h.signature, fun f hf => hp.within (h.temps f hf),
    fun o ho i hi => (h.instrs o ho i hi).mono hp fun _ _ hv => hv.mono hp List.prefix_rfl,
    fun o ho => (h.ends o ho).mono fun _ _ hv => hv.mono hp List.prefix_rfl⟩

/-- A procedure without a body is typed if its signature is. -/
theorem Proc.Typed.declared {p : Program} {name : String} {ret : Ty} {params : List Field}
    (hret : ret.Within p) (hparams : ∀ f ∈ params, f.ty.Within p) :
    (⟨name, ret, params, [], []⟩ : Proc).Typed p :=
  ⟨Ty.within_proc.2 ⟨hret, by simpa using hparams⟩, by simp, by simp, by simp⟩

/-- **The program is typed**, the constants and the fields of structs
included. -/
structure Program.Typed (p : Program) : Prop where
  structs : ∀ decl ∈ p.structs, ∀ f ∈ decl.fields, f.ty.Within p
  globals : ∀ g ∈ p.globals, g.ty.Within p ∧ g.init.Within p
  procs : ∀ q ∈ p.procs, q.Typed p

/-- **A program stays typed** if what comes in is. -/
theorem Program.Typed.mono {p p' : Program} (h : p.Typed) (hp : p.Keeps p')
    (hstructs : ∀ decl ∈ p'.structs, decl ∈ p.structs ∨ ∀ f ∈ decl.fields, f.ty.Within p')
    (hglobals : ∀ g ∈ p'.globals, g ∈ p.globals ∨ (g.ty.Within p' ∧ g.init.Within p'))
    (hprocs : ∀ q ∈ p'.procs, q ∈ p.procs ∨ q.Typed p') : p'.Typed := by
  refine ⟨fun decl hdecl => ?_, fun g hg => ?_, fun q hq => ?_⟩
  · exact (hstructs decl hdecl).elim (fun hold f hf => hp.within (h.structs decl hold f hf)) id
  · exact (hglobals g hg).elim
      (fun hold => ⟨hp.within (h.globals g hold).1, hp.const (h.globals g hold).2⟩) id
  · exact (hprocs q hq).elim (fun hold => (h.procs q hold).mono hp) id

/-- A procedure that is typed may come in. -/
theorem Program.Typed.addProc {p : Program} (h : p.Typed) {q : Proc} (hq : q.Typed p) :
    ({ p with procs := p.procs ++ [q] } : Program).Typed := by
  have hp := Keeps.addProc p q
  refine h.mono hp (fun _ => .inl) (fun _ => .inl) fun q' hq' => ?_
  refine (List.mem_append.1 hq').imp_right fun hlast => ?_
  rw [List.mem_singleton.1 hlast]
  exact hq.mono hp

/-- A procedure that is still without a body may come in. -/
theorem Program.Typed.declare {p : Program} (h : p.Typed) (name : String) {ret : Ty}
    {params : List Field} (hret : ret.Within p) (hparams : ∀ f ∈ params, f.ty.Within p) :
    ({ p with procs := p.procs ++ [⟨name, ret, params, [], []⟩] } : Program).Typed :=
  h.addProc (.declared hret hparams)

/-- A procedure gets its body. -/
theorem Program.Typed.setBody {p : Program} (h : p.Typed) {id : ProcId} {decl : Proc}
    (hdecl : p.procs[id]? = some decl) {temps : List Field} {blocks : List Block}
    (hq : ({ decl with temps := temps, blocks := blocks } : Proc).Typed p) :
    p.Keeps { p with procs := p.procs.set id { decl with temps := temps, blocks := blocks } } ∧
      ({ p with procs := p.procs.set id { decl with temps := temps, blocks := blocks } } :
        Program).Typed := by
  have hlt := (List.getElem?_eq_some_iff.1 hdecl).1
  have hp : p.Keeps
      { p with procs := p.procs.set id { decl with temps := temps, blocks := blocks } } := by
    refine ⟨fun _ _ h _ => h, Nat.le_refl _, fun _ g h => ⟨g, h, rfl⟩, fun i q hi => ?_⟩
    by_cases heq : id = i
    · subst heq
      obtain rfl := Option.some.inj (hdecl.symm.trans hi)
      exact ⟨temps, blocks, List.getElem?_set_self hlt⟩
    · exact ⟨q.temps, q.blocks, (List.getElem?_set_ne heq).trans hi⟩
  refine ⟨hp, h.mono hp (fun _ => .inl) (fun _ => .inl) fun q hmem => ?_⟩
  rcases List.mem_or_eq_of_mem_set hmem with hmem | rfl
  · exact .inl hmem
  · exact .inr (hq.mono hp)

theorem Program.typed_empty : Program.empty.Typed :=
  ⟨by simp [empty], by simp [empty], by simp [empty]⟩

end ClassLang.Ir
