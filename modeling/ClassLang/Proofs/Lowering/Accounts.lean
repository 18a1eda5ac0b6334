import ClassLang.Proofs.Lowering.Additions
import ClassLang.Proofs.Lowering.Messages
/-!
# Lowering — what procedures halt for

The procedures of a lowered program are numbered like its functions and methods
(`Session.Numbers`), and behind them stand the allocators. Each halts for the
faults of its function or method, in their turn, or for what allocators halt for
(`accounted_lowerProgram`). The line that a halt names is handed on from
statement to statement, and need not be the line of a statement around the node;
in an even body it is (`accounted_of_even`).
-/


namespace ClassLang

open Semantics (Fault lineAfter)
open Source (lineAround)

namespace Ir

/-- The messages that a procedure halts with, in the order of its blocks. -/
def Proc.messages (q : Proc) : List String := q.blocks.filterMap (·.terminator.message?)

/-- **The procedure halts for the faults**, or for some of them, each in its turn,
and otherwise only because the end of its body was reached. -/
def Proc.HaltsFor (q : Proc) (faults : List Fault) : Prop :=
  (q.messages.filter (· ≠ (Fault.missingReturn q.name).message)).Sublist (faults.map Fault.message)

instance (q : Proc) (faults : List Fault) : Decidable (q.HaltsFor faults) :=
  inferInstanceAs (Decidable (List.Sublist _ _))

theorem Proc.haltsFor_of_blocks {q : Proc} (h : q.blocks = []) (faults : List Fault) :
    q.HaltsFor faults := by
  rw [HaltsFor, messages, h]
  exact List.nil_sublist _

end Ir

namespace Lowering

open Ir (Builder)

variable {α : Type} {a : Typing.Analysis} {p : Source.Program} {s s' : Session}
variable {faults : List Fault}

/-! ## Procedures that get bodies -/

theorem ends_procDecl {Q : Ir.Proc → Session → Prop} {id : Ir.ProcId}
    (h : ∀ q, s.ir.procs[id]? = some q → Q q s) : Ends Error.Reported (procDecl id) s Q := by
  refine .get_bind (.lift (fun q hq => h q ?_) reported_ofIr)
  unfold Ir.Program.proc Ir.Program.find at hq
  cases hproc : s.ir.procs[id]? with
  | none => rw [hproc] at hq; cases hq
  | some q' => rw [hproc] at hq; cases hq; rfl

/-- With a procedure in the place of another. -/
def Session.withBody (s : Session) (id : Ir.ProcId) (q : Ir.Proc) : Session :=
  { s with ir.procs := s.ir.procs.set id q }

/-- **A procedure that gets a body** halts for what the body halts for. -/
theorem ends_defineProc {params : List Ir.Field} {ret : Ir.Ty} {body : Builder}
    (h : Builder.HaltsFor [] [] faults (.start params ret) body) (id : Ir.ProcId) (s : Session) :
    Ends Error.Reported (defineProc id body) s fun _ s' =>
      ∃ q : Ir.Proc, q.HaltsFor faults ∧ s' = s.withBody id q := by
  obtain ⟨hawaits, halted, hsub, hmessages⟩ := h (Builder.awaits_start params ret)
  refine (ends_procDecl (Q := fun q s' => s'.ir.procs[id]? = some q ∧ s' = s)
    fun q hq => ⟨hq, rfl⟩).bind fun q s₁ ⟨hq, hs⟩ => ?_
  subst hs
  refine .of_yields (yields_modifyIr (setBody_ok hq _ _) ⟨_, ?_, rfl⟩)
  refine Eq.mpr (congrArg (List.Sublist · _) (Builder.messages_finish hawaits _)) ?_
  rw [hmessages]
  exact List.filter_sublist.trans (hsub.map _)

/-- What allocators halt for. -/
def allocatorFaults : List Fault := [.negativeSize, .outOfMemory, .outOfMemory]

theorem Allocates.haltsFor {b : Builder} (h : Allocates b) : ∃ params ret,
    Builder.HaltsFor [] [] allocatorFaults (.start params ret) b := by
  cases h with
  | object hrun => exact ⟨_, _, Builder.Judges.mono
      ((Emit.adds_objectBody _ _ _ _ _).result hrun) (by decide)⟩
  | array hrun => exact ⟨_, _, (Emit.adds_arrayBody _ _ _ _).result hrun⟩

/-- **Every procedure is accounted for**: the first ones halt for the faults of
the lists, one for each list, and all others for what allocators halt for. -/
structure Accounted (lists : List (List Fault)) (ir : Ir.Program) : Prop where
  length : lists.length ≤ ir.procs.length
  halts : ∀ (k : Nat) (q : Ir.Proc), ir.procs[k]? = some q → q.HaltsFor (lists[k]?.getD allocatorFaults)

section Accounted

variable {lists : List (List Fault)}

theorem Accounted.congr {ir ir' : Ir.Program} (h : Accounted lists ir)
    (hprocs : ir'.procs = ir.procs) : Accounted lists ir' :=
  ⟨hprocs ▸ h.length, hprocs ▸ h.halts⟩

theorem Accounted.withDeclared (h : Accounted lists s.ir) (name : String) (ret : Ir.Ty)
    (params : List Ir.Field) : Accounted lists (s.withDeclared name ret params).ir where
  length := Nat.le_trans h.length (List.prefix_append _ _).length_le
  halts k q hk := by
    rw [Session.withDeclared, List.getElem?_append] at hk
    split at hk
    · exact h.halts k q hk
    · obtain rfl := List.mem_singleton.1 (List.mem_of_getElem? hk)
      exact Ir.Proc.haltsFor_of_blocks rfl _

theorem Accounted.withBody (h : Accounted lists s.ir) {id : Ir.ProcId}
    {q : Ir.Proc} (hq : q.HaltsFor (lists[id]?.getD allocatorFaults)) :
    Accounted lists (s.withBody id q).ir where
  length := by
    rw [Session.withBody, List.length_set]
    exact h.length
  halts k q' hk := by
    rw [Session.withBody, List.getElem?_set] at hk
    split at hk
    next heq =>
      subst heq
      split at hk
      · exact Option.some.inj hk ▸ hq
      · cases hk
    next => exact h.halts k q' hk

end Accounted

/-! ## Which procedure is whose -/

variable (p) in
/-- **Procedures are numbered like the functions and methods** that are listed. -/
structure Session.Numbers (listed : List Source.FunctionDecl) (s : Session) : Prop where
  functions : ∀ (index : Nat) proc, s.functionProcs[index]? = some proc →
    ∃ f, p.functions[index]? = some f ∧ listed[proc]? = some f
  methods : ∀ ref proc, s.methodProcs.get? ref = some proc →
    ∃ m, methodDecl? p ref = some m ∧ listed[proc]? = some m

theorem Session.Numbers.congr {listed : List Source.FunctionDecl} (hs : s.Numbers p listed)
    (hfunctions : s'.functionProcs = s.functionProcs) (hmethods : s'.methodProcs = s.methodProcs) :
    s'.Numbers p listed := by
  refine ⟨fun index proc h => hs.functions index proc (hfunctions ▸ h), fun ref proc h => ?_⟩
  rw [hmethods] at h
  exact hs.methods ref proc h

variable (p) in
/-- What holds while bodies are lowered: procedures are numbered like the bodies
of the program, and accounted for. -/
structure Session.Accounts (s : Session) : Prop where
  numbers : s.Numbers p p.bodies
  accounted : Accounted (p.bodies.map (·.faults lineAfter)) s.ir

instance : Lenient fun s s' => s.Accounts p → s'.Accounts p where
  refl _ := id
  trans _ _ _ h h' := h' ∘ h
  beside h hs := ⟨hs.numbers.congr h.functionProcs h.methodProcs,
    ⟨h.procs ▸ hs.accounted.length, h.procs ▸ hs.accounted.halts⟩⟩
  allocator {s s' s'' name ret params b} h hb hrun hs := by
    obtain ⟨params', ret', hhalts⟩ := hb.haltsFor
    obtain ⟨q, hq, rfl⟩ := (ends_defineProc hhalts _ _).result hrun
    have hdeclared := (hs.accounted.withDeclared name ret params).congr h.procs
    refine ⟨hs.numbers.congr h.functionProcs h.methodProcs, hdeclared.withBody ?_⟩
    -- The allocator stands behind the procedures of all bodies.
    rw [List.getElem?_eq_none hs.accounted.length]
    exact hq

/-! ## Bodies -/

/-- **The procedure of a function** halts for the faults of the function. -/
theorem ends_lowerBody {R : Session → Session → Prop} [Lenient R] (options : Options)
    (inMethod : Bool) (f : Source.FunctionDecl) (proc : Ir.ProcId) (s : Session) :
    Ends Error.Reported (lowerBody a options inMethod f proc) s fun _ s' =>
      ∃ (s₁ : Session) (q : Ir.Proc), R s s₁ ∧ q.HaltsFor (f.faults lineAfter) ∧
        s' = s₁.withBody proc q := by
  refine (ends_procDecl (Q := fun _ s' => s' = s) fun _ _ => rfl).bind fun decl s₁ hs =>
    .get_bind ?_
  subst hs
  have hbody := adds_lowerFunction (R := R) (J := Builder.HaltsFor) a [] (Semantics.lineOf 0 f.pos)
    options (if inMethod then 1 else 0) f
    ⟨s₁, .start decl.params decl.ret, [], inMethod, Semantics.lineOf 0 f.pos⟩ rfl
  refine Ends.bind (P := fun r _ => R s₁ r.2.session ∧
      Builder.HaltsFor [] [] (f.faults lineAfter) (.start decl.params decl.ret) r.2.builder)
    (.lift (fun r hr => ?_) fun _ he => hbody.fault he) fun r s₂ ⟨hsession, hadded⟩ => ?_
  · obtain ⟨-, hadded, hsession⟩ := hbody.result hr
    exact ⟨hsession, hadded⟩
  · exact (ends_defineProc hadded proc r.2.session).mono fun _ s₃ ⟨q, hq, hs₃⟩ =>
      ⟨r.2.session, q, hsession, hq, hs₃⟩

/-- Procedures that are accounted for stay so, if the body is that of the
procedure. -/
theorem ends_accounts_lowerBody (options : Options) (inMethod : Bool) {f : Source.FunctionDecl}
    {proc : Ir.ProcId} (hproc : s.Accounts p → p.bodies[proc]? = some f) :
    Ends Error.Reported (lowerBody a options inMethod f proc) s fun _ s' =>
      s.Accounts p → s'.Accounts p := by
  refine (ends_lowerBody (R := fun s s' => s.Accounts p → s'.Accounts p) options inMethod f proc
    s).mono fun _ s' ⟨s₁, q, hs₁, hq, hs'⟩ hs => ?_
  subst hs'
  refine ⟨(hs₁ hs).numbers.congr rfl rfl, (hs₁ hs).accounted.withBody ?_⟩
  rw [List.getElem?_map, hproc hs]
  exact hq

/-! ## Declarations -/

variable (p) in
/-- What holds while procedures are declared: they are numbered like what is
listed, and have no bodies. -/
structure Session.Lists (listed : List Source.FunctionDecl) (s : Session) : Prop where
  numbers : s.Numbers p listed
  length : s.ir.procs.length = listed.length
  bare : ∀ q ∈ s.ir.procs, q.blocks = []

theorem Session.Lists.congr {listed : List Source.FunctionDecl} (hs : s.Lists p listed)
    (h : s.SameProcs s') : s'.Lists p listed :=
  ⟨hs.numbers.congr h.functionProcs h.methodProcs, h.procs ▸ hs.length, h.procs ▸ hs.bare⟩

theorem Session.Lists.withDeclared {listed : List Source.FunctionDecl} (hs : s.Lists p listed)
    {f : Source.FunctionDecl} {name : String} {ret : Ir.Ty} {params : List Ir.Field}
    (hir : s'.ir = (s.withDeclared name ret params).ir) (hnumbers : s'.Numbers p (listed ++ [f])) :
    s'.Lists p (listed ++ [f]) := by
  have hprocs : s'.ir.procs = s.ir.procs ++ [⟨name, ret, params, [], []⟩] := by rw [hir]; rfl
  refine ⟨hnumbers, by rw [hprocs, List.length_append, List.length_append, hs.length]; rfl, ?_⟩
  rw [hprocs, List.forall_mem_append, List.forall_mem_singleton]
  exact ⟨hs.bare, rfl⟩

/-- One more function has a procedure. -/
theorem Session.Lists.function {listed : List Source.FunctionDecl} (hs : s.Lists p listed)
    {f : Source.FunctionDecl} (hf : p.functions[s.functionProcs.length]? = some f) (name : String)
    (ret : Ir.Ty) (params : List Ir.Field) : Session.Lists p (listed ++ [f])
      { s with
        ir := (s.withDeclared name ret params).ir
        functionProcs := s.functionProcs ++ [s.ir.procs.length] } := by
  refine hs.withDeclared rfl ⟨fun index proc hproc => ?_, fun ref proc hproc => ?_⟩
  · rcases getElem?_append_singleton hproc with hproc | ⟨rfl, rfl⟩
    · obtain ⟨f', hf', hlisted⟩ := hs.numbers.functions index proc hproc
      exact ⟨f', hf', getElem?_of_initial (List.prefix_append _ _) hlisted⟩
    · exact ⟨f, hf, hs.length ▸ List.getElem?_concat_length ..⟩
  · obtain ⟨m, hm, hlisted⟩ := hs.numbers.methods ref proc hproc
    exact ⟨m, hm, getElem?_of_initial (List.prefix_append _ _) hlisted⟩

/-- One more method has a procedure. -/
theorem Session.Lists.method {listed : List Source.FunctionDecl} (hs : s.Lists p listed)
    {ref : MemberRef} {m : Source.FunctionDecl} (hm : methodDecl? p ref = some m) (name : String)
    (ret : Ir.Ty) (params : List Ir.Field) : Session.Lists p (listed ++ [m])
      { s with
        ir := (s.withDeclared name ret params).ir
        methodProcs := s.methodProcs.insert ref s.ir.procs.length } := by
  refine hs.withDeclared rfl ⟨fun index proc hproc => ?_, fun ref' proc hproc => ?_⟩
  · obtain ⟨f, hf, hlisted⟩ := hs.numbers.functions index proc hproc
    exact ⟨f, hf, getElem?_of_initial (List.prefix_append _ _) hlisted⟩
  · by_cases heq : ref = ref'
    · subst heq
      rw [Table.get?_insert_self] at hproc
      obtain rfl := Option.some.inj hproc
      exact ⟨m, hm, hs.length ▸ List.getElem?_concat_length ..⟩
    · rw [Table.get?_insert_of_ne _ _ heq] at hproc
      obtain ⟨m', hm', hlisted⟩ := hs.numbers.methods ref' proc hproc
      exact ⟨m', hm', getElem?_of_initial (List.prefix_append _ _) hlisted⟩

theorem ends_declareProc_bind {β : Type} {F : Error → Prop} {name : String} {ret : Ir.Ty}
    {params : List Ir.Field} {f : Ir.ProcId → Session → Session} {k : Build β}
    {P : β → Session → Prop}
    (h : Ends F k (f s.ir.procs.length (s.withDeclared name ret params)) P) :
    Ends F (declareProc name ret params >>= fun id => modify (f id) >>= fun _ => k) s P := h

/-- **Functions are declared** in their order. -/
theorem ends_declareFunctions (before : List Source.FunctionDecl) {fs : List Source.FunctionDecl}
    (hp : p.functions = before ++ fs) (hlength : s.functionProcs.length = before.length)
    (hs : s.Lists p before) :
    Ends Error.Reported (declareFunctions a fs) s fun _ s' => s'.Lists p (before ++ fs) := by
  induction fs generalizing before s with
  | nil =>
    rw [List.append_nil]
    exact hs
  | cons f rest ih =>
    refine ends_sameProcs_bind (refl_of Session.SameProcs s) (tame_irParams a _) fun _ s₁ h₁ =>
      ends_sameProcs_bind h₁ (tame_irTyOf a _) fun _ s₂ h₂ => ends_declareProc_bind ?_
    have hlength₂ : s₂.functionProcs.length = before.length := by rw [h₂.functionProcs, hlength]
    have hf : p.functions[s₂.functionProcs.length]? = some f := by
      rw [hp, hlength₂, List.getElem?_append_right (Nat.le_refl _), Nat.sub_self]
      rfl
    rw [List.append_cons before f rest]
    exact ih _ (by rw [hp, List.append_cons]) (by simp only [List.length_append]; exact congrArg (· + 1) hlength₂)
      ((hs.congr h₂).function hf _ _ _)

/-- **Methods are declared** in the order of a class. -/
theorem ends_declareMethodsOf {listed : List Source.FunctionDecl} (id : ClassId)
    {c : Source.ClassDecl} (hc : p.classes[id]? = some c) (this : Ir.Ty)
    {methods : List (Source.FunctionDecl × Nat)} (hmethods : ∀ m ∈ methods, c.methods[m.2]? = some m.1)
    (hs : s.Lists p listed) : Ends Error.Reported (declareMethodsOf a id c this methods) s
      fun _ s' => s'.Lists p (listed ++ methods.map (·.1)) := by
  induction methods generalizing listed s with
  | nil =>
    rw [List.map_nil, List.append_nil]
    exact hs
  | cons m rest ih =>
    rw [List.forall_mem_cons] at hmethods
    have hm : methodDecl? p ⟨id, m.2⟩ = some m.1 := by rw [methodDecl?, hc]; exact hmethods.1
    refine ends_sameProcs_bind (refl_of Session.SameProcs s) (tame_irParams a _) fun _ s₁ h₁ =>
      ends_sameProcs_bind h₁ (tame_irTyOf a _) fun _ s₂ h₂ => ends_declareProc_bind ?_
    rw [List.map_cons, List.append_cons listed]
    exact ih hmethods.2 ((hs.congr h₂).method hm _ _ _)

/-- **And in the order of the classes.** -/
theorem ends_declareMethods {listed : List Source.FunctionDecl} {cs : List (Source.ClassDecl × Nat)}
    (hcs : ∀ c ∈ cs, p.classes[c.2]? = some c.1) (hs : s.Lists p listed) :
    Ends Error.Reported (declareMethods a cs) s
      fun _ s' => s'.Lists p (listed ++ cs.flatMap (·.1.methods)) := by
  induction cs generalizing listed s with
  | nil =>
    rw [List.flatMap_nil, List.append_nil]
    exact hs
  | cons c rest ih =>
    rw [List.forall_mem_cons] at hcs
    refine ends_sameProcs_bind (refl_of Session.SameProcs s) (tame_classLayout _) fun _ s₁ h₁ =>
      (ends_declareMethodsOf c.2 hcs.1 _ (fun m hm => ?_) (hs.congr h₁)).bind fun _ s₂ h₂ => ?_
    · exact List.mem_zipIdx_iff_getElem?.1 hm
    · rw [List.zipIdx_map_fst] at h₂
      rw [List.flatMap_cons, ← List.append_assoc]
      exact ih hcs.2 h₂

/-- **What is declared** is numbered like the bodies of the program. -/
theorem ends_declare (p : Source.Program) :
    Ends Error.Reported (declareClasses p.classes >>= fun _ => declareFunctions a p.functions >>=
      fun _ => declareMethods a p.classes.zipIdx) .start fun _ s => s.Accounts p := by
  have hstart : Session.start.Lists p [] :=
    ⟨⟨fun _ _ h => (by cases h), fun _ _ h => (by cases h)⟩, rfl, fun _ h => (by cases h)⟩
  refine ends_sameProcs_bind (refl_of Session.SameProcs .start) (tame_declareClasses _)
    fun _ s₁ h₁ => (ends_declareFunctions [] rfl (by rw [h₁.functionProcs]; rfl)
      (hstart.congr h₁)).bind fun _ s₂ h₂ => ?_
  refine (ends_declareMethods (fun c hc => List.mem_zipIdx_iff_getElem?.1 hc) h₂).mono
    fun _ s₃ h₃ => ?_
  have hbodies : [] ++ p.functions ++ p.classes.zipIdx.flatMap (·.1.methods) = p.bodies := by
    have hclasses := List.flatMap_map (·.1) (fun c : Source.ClassDecl => c.methods) p.classes.zipIdx
    rw [List.zipIdx_map_fst] at hclasses
    rw [List.nil_append, Source.Program.bodies, hclasses]
  rw [hbodies] at h₃
  refine ⟨h₃.numbers, Nat.le_of_eq (by rw [List.length_map, h₃.length]), fun k q hq => ?_⟩
  exact Ir.Proc.haltsFor_of_blocks (h₃.bare q (List.mem_of_getElem? hq)) _

/-! ## Programs -/

theorem stays_layOutEach {R : Session → Session → Prop} [Lenient R] (ids : List ClassId) :
    Stays (fun _ => True) R (layOutEach a p ids) := by
  induction ids with
  | nil => exact .pure _
  | cons id rest ih =>
    unfold layOutEach
    cases p.classes[id]? with
    | none => exact .bind (.throw trivial) fun _ => ih
    | some c => exact .bind (fun s => (tame_layOutClass a id c s).weaken fun _ _ => trivial) fun _ => ih

/-- **Every procedure of a lowered program is accounted for**: those of functions
and methods halt for the faults of these, and allocators stand behind them. -/
theorem accounted_lowerProgram {options : Options} {ir : Ir.Program}
    (h : lowerProgram a p options = .ok ir) :
    Accounted (p.bodies.map (·.faults lineAfter)) ir := by
  have hfunctions (f) (hf : f ∈ p.functions.zipIdx) (s : Session) (proc)
      (hproc : s.functionProcs[f.2]? = some proc) (hs : s.Accounts p) :
      p.bodies[proc]? = some f.1 := by
    obtain ⟨f', hf', hbody⟩ := hs.numbers.functions f.2 proc hproc
    rw [hbody, ← hf', List.mem_zipIdx_iff_getElem?.1 hf]
  have hmethods (c) (hc : c ∈ p.classes.zipIdx) (m) (hm : m ∈ c.1.methods.zipIdx) (s : Session)
      (proc) (hproc : s.methodProcs.get? ⟨c.2, m.2⟩ = some proc) (hs : s.Accounts p) :
      p.bodies[proc]? = some m.1 := by
    obtain ⟨m', hm', hbody⟩ := hs.numbers.methods _ proc hproc
    rw [methodDecl?, List.mem_zipIdx_iff_getElem?.1 hc] at hm'
    rw [hbody, ← hm']
    exact List.mem_zipIdx_iff_getElem?.1 hm
  -- Behind the declarations every step keeps the account, so it holds at the end.
  have hrest : Stays (fun _ => True) (fun s s' => s.Accounts p → s'.Accounts p) (do
      layOutClasses a p
      lowerFunctions a options p.functions.zipIdx
      lowerClasses a options p.classes.zipIdx) :=
    .bind (.bind (.lift fun _ _ => trivial) fun order => stays_layOutEach order) fun _ =>
      .bind (fun s => (tame_lowerFunctions (fun f hf s proc hproc =>
        ends_accounts_lowerBody options false (hfunctions f hf s proc hproc)) s).weaken
          fun _ _ => trivial) fun _ s =>
      (tame_lowerClasses (fun c hc m hm s proc hproc =>
        ends_accounts_lowerBody options true (hmethods c hc m hm s proc hproc)) s).weaken
          fun _ _ => trivial
  have hbuild : buildProgram a p options = (do
      (do
        declareClasses p.classes
        declareFunctions a p.functions
        declareMethods a p.classes.zipIdx)
      layOutClasses a p
      lowerFunctions a options p.functions.zipIdx
      lowerClasses a options p.classes.zipIdx) := by
    simp [buildProgram]
  have hends : Ends (fun _ => True) (buildProgram a p options) .start fun _ s => s.Accounts p := by
    rw [hbuild]
    exact ((ends_declare p).weaken fun _ _ => trivial).bind fun _ s hs =>
      (hrest s).mono fun _ _ hs' => hs' hs
  obtain ⟨s, hrun, rfl⟩ := run_of_lowerProgram h
  exact (hends.result hrun).accounted

/-- **In even bodies halts name the line of their node**, or else that of the
nearest statement around it that has a position, or of the function. -/
theorem accounted_of_even {p : Source.Program} {options : Options} {ir : Ir.Program}
    (heven : ∀ f ∈ p.bodies, f.Even) (h : lowerProgram a p options = .ok ir) :
    Accounted (p.bodies.map (·.faults lineAround)) ir := by
  have haround : p.bodies.map (·.faults lineAfter) = p.bodies.map (·.faults lineAround) :=
    List.map_congr_left fun f hf => Source.FunctionDecl.faults_of_even (heven f hf)
  exact haround ▸ accounted_lowerProgram h

/-- A main function whose second statement divides by zero and has no position;
the first one may have one. -/
def dividing (pos : Option Pos) : Source.Program where
  functions := [⟨0, .int, "main", [], .mk
    [.expr pos (.null ⟨1, none⟩),
      .expr none (.binary ⟨2, none⟩ .div (.int ⟨3, none⟩ 1) (.int ⟨4, none⟩ 0)),
      .ret none (.int ⟨5, none⟩ 0)] none, some ⟨1, 1⟩⟩]
  classes := []
  pos := some ⟨1, 1⟩

theorem accounted_of_even_dividing : (∀ f ∈ (dividing none).bodies, f.Even) ∧
    ∃ ir, lowerProgram (Typing.analyze (dividing none) .default) (dividing none) .default = .ok ir ∧
      Accounted ((dividing none).bodies.map (·.faults lineAround)) ir := by
  have heven : ∀ f ∈ (dividing none).bodies, f.Even := by
    intro f hf
    obtain rfl := List.mem_singleton.1 hf
    exact .inr (by decide)
  have hok : (lowerProgram (Typing.analyze (dividing none) .default) (dividing none)
    .default).isOk = true := by decide +kernel
  cases hlower : lowerProgram (Typing.analyze (dividing none) .default) (dividing none)
      .default with
  | error e => rw [hlower] at hok; cases hok
  | ok ir => exact ⟨heven, ir, rfl, accounted_of_even heven hlower⟩

theorem messages_dividing : (lowerProgram (Typing.analyze (dividing (some ⟨5, 3⟩)) .default)
    (dividing (some ⟨5, 3⟩)) .default).map (fun ir => ir.procs.map fun q => (q.name, q.messages)) =
      .ok [("main", ["Division by zero in line 5"])] := by
  decide +kernel

/-- **A statement hands its line on** to the next one, which has no position: the
line is that of no statement around the division, nor of the function. -/
theorem not_accounted_dividing : (Typing.analyze (dividing (some ⟨5, 3⟩)) .default).ok = true ∧
    (dividing (some ⟨5, 3⟩)).bodies.map (·.faults lineAround) = [[.divisionByZero 1]] ∧
    ∃ ir, lowerProgram (Typing.analyze (dividing (some ⟨5, 3⟩)) .default) (dividing (some ⟨5, 3⟩))
        .default = .ok ir ∧
      ir.procs.map (·.messages) = [["Division by zero in line 5"]] ∧
      ¬ Accounted ((dividing (some ⟨5, 3⟩)).bodies.map (·.faults lineAround)) ir := by
  have hfaults : (dividing (some ⟨5, 3⟩)).bodies.map (·.faults lineAround) =
      [[.divisionByZero 1]] := rfl
  refine ⟨by decide +kernel, hfaults, ?_⟩
  have hmessages := messages_dividing
  cases hlower : lowerProgram (Typing.analyze (dividing (some ⟨5, 3⟩)) .default)
      (dividing (some ⟨5, 3⟩)) .default with
  | error e => rw [hlower] at hmessages; cases hmessages
  | ok ir =>
    rw [hlower] at hmessages
    obtain ⟨q, hprocs, hq⟩ := List.map_eq_singleton_iff.1 (Except.ok.inj hmessages)
    obtain ⟨hname, hline⟩ := Prod.mk.inj hq
    refine ⟨ir, rfl, by rw [hprocs, List.map_singleton, hline], fun haccounted => ?_⟩
    have hhalts := haccounted.halts 0 q (by rw [hprocs]; rfl)
    rw [hfaults, Ir.Proc.HaltsFor, hname, hline] at hhalts
    revert hhalts
    decide

end Lowering

end ClassLang
