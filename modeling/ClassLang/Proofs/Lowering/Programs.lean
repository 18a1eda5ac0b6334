import ClassLang.Proofs.Lowering.Functions
/-!
# Lowering — whole programs

Every function and every method gets its body (`yields_lowerBody`), and no
body is given twice, as no two of them share a procedure. So lowering
yields a program in which all is declared, laid out and defined
(`Session.Complete`, `yields_buildProgram`).
-/


namespace ClassLang.Lowering

open Source (Program FunctionDecl ClassDecl)
open Semantics (Fault lineOf)
open Typing (Analysis FunctionNoted Interned)
open Ir (Proc ProcId)

section Programs

variable {p : Program} {printName : String} {a : Analysis} {s s' : Session}

/-! ## Procedures that get their bodies -/

/-- The session where a procedure is another. -/
def Session.withProc (s : Session) (proc : ProcId) (q : Proc) : Session :=
  { s with ir := { s.ir with procs := s.ir.procs.set proc q } }

/-- What is known of the other procedures stays. -/
def Session.Keeps (s s' : Session) (proc : ProcId) : Prop :=
  ∀ other ≠ proc, ∀ q, s.ir.procs[other]? = some q → s'.ir.procs[other]? = some q

theorem Session.keeps_withProc (s : Session) (proc : ProcId) (q : Proc) :
    s.Keeps (s.withProc proc q) proc := fun _ hne _ hq =>
  (List.getElem?_set_ne (Ne.symm hne)).trans hq

/-- **A session stays ready** when a function or a method gets its body. -/
theorem Session.Ready.withProc (hs : s.Ready p a) {proc : ProcId} (hproc : ¬ s.Spare proc)
    {decl q : Proc} (hdecl : s.ir.procs[proc]? = some decl)
    (hbody : ∃ temps blocks, q = { decl with temps := temps, blocks := blocks })
    (htyped : q.Typed s.ir) :
    s.Grows (s.withProc proc q) ∧ (s.withProc proc q).Ready p a := by
  obtain ⟨temps, blocks, rfl⟩ := hbody
  obtain ⟨hkeeps, hir⟩ := hs.typed.ir.setBody hdecl htyped
  have hgrows : s.Grows (s.withProc proc { decl with temps := temps, blocks := blocks }) :=
    ⟨hkeeps, fun _ l h => ⟨l.entries, h⟩, rfl, rfl, .refl _, .refl _, List.prefix_rfl, .refl _,
      .refl _, .refl _⟩
  have hother := s.keeps_withProc proc { decl with temps := temps, blocks := blocks }
  have hlength : (s.withProc proc { decl with temps := temps, blocks := blocks }).ir.procs.length =
      s.ir.procs.length := List.length_set
  refine ⟨hgrows, hs.typed.mono hgrows hir rfl rfl, ⟨hs.apart.functions, hs.apart.methods,
    hs.apart.disjoint, fun id hid => hlength ▸ hs.apart.bounded id hid,
    fun ref id hid => hlength ▸ hs.apart.boundedMethods ref id hid,
    fun id hid => (hs.apart.known id (hlength ▸ hid)).mono List.prefix_rfl (.refl _) (.refl _)
      (.refl _)⟩,
    fun id hid => ?_, fun index f hf => ?_,
    fun id c hc index m hm => (hs.methods id c hc index m hm).mono hgrows,
    fun id made hmade => ?_, fun ty made hmade => ?_⟩
  · obtain ⟨entries, fields, slots, hlaid⟩ := hs.laid id hid
    exact ⟨entries, fields, slots, hlaid.mono hgrows rfl rfl rfl⟩
  · obtain ⟨id, hid, hhas⟩ := hs.functions index f hf
    exact ⟨id, hid, hhas.mono hgrows⟩
  · obtain ⟨hid, hspare, q, values, hq, hmakes⟩ := hs.objects id made hmade
    exact ⟨hid, hspare, q, values, hother made (fun heq => hproc (heq ▸ hspare)) q hq, hmakes⟩
  · obtain ⟨hspare, q, elem, struct, hq, hmakes⟩ := hs.arrays ty made hmade
    exact ⟨hspare, q, elem, struct, hother made (fun heq => hproc (heq ▸ hspare)) q hq, hmakes⟩

variable (p printName a) in
/-- **The procedure has the body of the function**, which is a method of the
class `this?`, if there is one. -/
def HasBody (s : Session) (this? : Option String) (f : FunctionDecl) (proc : ProcId) : Prop :=
  ∃ q, s.ir.procs[proc]? = some q ∧ q.Formed ∧ q.Single ∧
    ∀ S, s.Grows S → FunctionCode p printName a S q this? q.name f

theorem HasBody.mono {this? : Option String} {f : FunctionDecl} {proc lowered : ProcId}
    (h : HasBody p printName a s this? f proc) (hgrows : s.Grows s') (hs : s.Keeps s' lowered)
    (hne : proc ≠ lowered) : HasBody p printName a s' this? f proc := by
  obtain ⟨q, hq, hformed, hsingle, hcode⟩ := h
  exact ⟨q, hs proc hne q hq, hformed, hsingle, fun S hS => hcode S (hgrows.trans hS)⟩

/-- **A function or a method gets its body.** -/
theorem yields_lowerBody (ha : Supports p printName a) (hs : s.Ready p a) {name : String}
    {this? : Option String} {this : List Ir.Field} (hthis : Receives p this? this)
    {f : FunctionDecl} {proc : ProcId} (hproc : HasProc p a s name this f proc)
    (hmine : ¬ s.Spare proc) (hnoted : FunctionNoted p printName a.findings this? f)
    (hsane : f.Sane) (options : Options) :
    Yields (lowerBody a options this?.isSome f proc) s fun _ s' =>
      s.Grows s' ∧ s'.Ready p a ∧ s.Keeps s' proc ∧ HasBody p printName a s' this? f proc := by
  obtain ⟨decl, hdecl, hfor⟩ := hproc
  obtain ⟨fields, hparams, hfields⟩ := hfor.params
  have hsignature := Ir.Ty.within_proc.1 (hs.typed.ir.procs decl (List.mem_of_getElem? hdecl)).signature
  have hwithin : ∀ field ∈ this ++ fields, field.ty.Within s.ir := fun field hfield =>
    hsignature.2 _ (List.mem_map_of_mem (hparams ▸ hfield))
  obtain ⟨⟨⟩, body, hrun, hext, hready, hgrows, hcode⟩ :=
    yields_lowerFunction ha hs hthis hnoted hsane hfor.ret hfields hwithin options
  rw [← hparams] at hrun hgrows
  refine (yields_procDecl (P := fun d s' => d = decl ∧ s' = s) hdecl ⟨rfl, rfl⟩).bind
    fun d s₁ hd => ?_
  obtain ⟨rfl, rfl⟩ := hd
  refine .get_bind (.lift_bind hrun ?_)
  refine Yields.bind (P := fun _ s' => s' = body.session) (.set rfl) fun _ s₂ h₂ => ?_
  subst h₂
  have hdecl' : body.session.ir.procs[proc]? = some d := getElem?_of_initial hext.procs hdecl
  refine (yields_procDecl (P := fun d' s' => d' = d ∧ s' = body.session) hdecl' ⟨rfl, rfl⟩).bind
    fun d' s₂ hd => ?_
  obtain ⟨rfl, rfl⟩ := hd
  refine yields_modifyIr (setBody_ok hdecl' _ _) ?_
  generalize hq : ({ d' with
    temps := (body.builder.finish ("Missing return statement in " ++ d'.name)).1
    blocks := (body.builder.finish ("Missing return statement in " ++ d'.name)).2 } : Proc) = q
  -- The builder is finished into the procedure that was declared for the body.
  have hmade : q.MadeOf body.session.ir body.builder ("Missing return statement in " ++ d'.name) := by
    have hsignature := (hready.typed.ir.procs d' (List.mem_of_getElem? hdecl')).signature
    subst hq
    exact Ir.Builder.madeOf_finish hgrows.sound hsignature hgrows.into.params.symm
      hgrows.into.ret.symm rfl rfl
  have hmine' : ¬ body.session.Spare proc := fun hspare => hmine
    ⟨fun hmem => hspare.1 (hext.functionProcs.subset hmem),
      fun ref href => hspare.2 ref (hext.methodProcs _ _ href)⟩
  obtain ⟨hgrows', hready'⟩ := hready.withProc hmine' hdecl' ⟨_, _, hq.symm⟩ hmade.typed
  have hbody : HasBody p printName a (body.session.withProc proc q) this? f proc := by
    refine ⟨q, List.getElem?_set_self (List.getElem?_eq_some_iff.1 hdecl').1, hmade.formed,
      hmade.single, fun S hS => ?_⟩
    rw [← show d'.name = q.name by rw [← hq]]
    exact hcode S q d'.name (hgrows'.trans hS) hmade.covers hmade.missing
  -- Bodies of other procedures, allocators among them, stay as they are.
  have hkeeps : s₁.Keeps (body.session.withProc proc q) proc := fun other hne q' hq' =>
    body.session.keeps_withProc proc q other hne q' (getElem?_of_initial hext.procs hq')
  subst hq
  exact ⟨hext.grows.trans hgrows', hready', hkeeps, hbody⟩

/-! ## One body after the other -/

variable (p) in
/-- The function or method that a procedure was declared for, and the class
of a method. -/
inductive Session.Owner (s : Session) : Option String → FunctionDecl → ProcId → Prop
  | function {index : Nat} {f proc} : p.functions[index]? = some f → s.functionProcs[index]? = some proc →
      Owner s none f proc
  | method {id index : Nat} {c m proc} : p.classes[id]? = some c → c.methods[index]? = some m →
      s.methodProcs.get? ⟨id, index⟩ = some proc → Owner s (some c.name) m proc

theorem Session.Owner.mono (hs : s.Grows s') {this? : Option String} {f : FunctionDecl}
    {proc : ProcId} (h : s.Owner p this? f proc) : s'.Owner p this? f proc := by
  cases h with
  | function hf hproc => exact .function hf (getElem?_of_initial hs.functionProcs hproc)
  | method hc hm hproc => exact .method hc hm (hs.methodProcs _ _ hproc)

theorem Session.Owner.not_spare {this? : Option String} {f : FunctionDecl} {proc : ProcId}
    (h : s.Owner p this? f proc) : ¬ s.Spare proc := by
  rintro ⟨hfunctions, hmethods⟩
  cases h with
  | function _ hproc => exact hfunctions (List.mem_of_getElem? hproc)
  | method _ _ hproc => exact hmethods _ hproc

/-- A procedure has one owner. -/
theorem Session.Owner.unique (hs : s.Apart p) {this? this?' : Option String}
    {f f' : FunctionDecl} {proc : ProcId} (h : s.Owner p this? f proc)
    (h' : s.Owner p this?' f' proc) : this? = this?' ∧ f = f' := by
  cases h with
  | function hf hproc =>
    cases h' with
    | function hf' hproc' =>
      obtain rfl := (List.getElem?_inj (List.getElem?_eq_some_iff.1 hproc).1 hs.functions).1
        (hproc.trans hproc'.symm)
      exact ⟨rfl, Option.some.inj (hf.symm.trans hf')⟩
    | method _ _ hproc' => exact absurd (List.mem_of_getElem? hproc) (hs.disjoint _ _ hproc')
  | method hc hm hproc =>
    cases h' with
    | function _ hproc' => exact absurd (List.mem_of_getElem? hproc') (hs.disjoint _ _ hproc)
    | method hc' hm' hproc' =>
      obtain ⟨rfl, rfl⟩ := MemberRef.mk.inj (hs.methods _ _ _ hproc hproc')
      obtain rfl := Option.some.inj (hc.symm.trans hc')
      exact ⟨rfl, Option.some.inj (hm.symm.trans hm')⟩

variable (p printName a) in
/-- **Bodies stay** from the first session to the second. -/
structure Session.Proceeds (s s' : Session) : Prop where
  grows : s.Grows s'
  ready : s'.Ready p a
  bodies : ∀ this? f proc, s.Owner p this? f proc → HasBody p printName a s this? f proc →
    HasBody p printName a s' this? f proc

theorem Session.Proceeds.refl (hs : s.Ready p a) : s.Proceeds p printName a s :=
  ⟨.refl s, hs, fun _ _ _ _ h => h⟩

theorem Session.Proceeds.trans {s'' : Session} (h : s.Proceeds p printName a s')
    (h' : s'.Proceeds p printName a s'') : s.Proceeds p printName a s'' :=
  ⟨h.grows.trans h'.grows, h'.ready, fun this? f proc howner hbody =>
    h'.bodies this? f proc (howner.mono h.grows) (h.bodies this? f proc howner hbody)⟩

/-- A session in which one more procedure has its body. -/
theorem yields_lowerOwned (ha : Supports p printName a) (hp : p.Sane) (hs : s.Ready p a)
    {this? : Option String} {f : FunctionDecl} {proc : ProcId} (howner : s.Owner p this? f proc)
    (options : Options) :
    Yields (lowerBody a options this?.isSome f proc) s fun _ s' =>
      s.Proceeds p printName a s' ∧ HasBody p printName a s' this? f proc := by
  have hbody : Yields (lowerBody a options this?.isSome f proc) s fun _ s' =>
      s.Grows s' ∧ s'.Ready p a ∧ s.Keeps s' proc ∧ HasBody p printName a s' this? f proc := by
    cases howner with
    | function hf hproc =>
      obtain ⟨_, hproc', hhas⟩ := hs.functions _ _ hf
      obtain rfl := Option.some.inj (hproc.symm.trans hproc')
      have hmem := List.mem_of_getElem? hf
      exact yields_lowerBody ha hs .function hhas (Session.Owner.function hf hproc).not_spare
        (ha.covers.functions f hmem) (hp.functions f hmem) options
    | @method id index c _ _ hc hm hproc =>
      obtain ⟨_, hproc', hhas⟩ := hs.methods _ _ hc _ _ hm
      obtain rfl := Option.some.inj (hproc.symm.trans hproc')
      have hmem := List.mem_of_getElem? hc
      have hmem' := List.mem_of_getElem? hm
      exact yields_lowerBody ha hs (.method (Source.Program.classId?_name ha.sound.names hc))
        hhas (Session.Owner.method hc hm hproc).not_spare (ha.covers.methods c hmem f hmem')
        (hp.methods c hmem f hmem') options
  refine hbody.mono fun _ s' ⟨hgrows, hready, hkeeps, hhas⟩ => ⟨⟨hgrows, hready, ?_⟩, hhas⟩
  intro this?' f' other howner' hbody'
  by_cases heq : other = proc
  · subst heq
    obtain ⟨rfl, rfl⟩ := howner'.unique hs.apart howner
    exact hhas
  · exact hbody'.mono hgrows hkeeps heq

/-- **Every function gets its body.** -/
theorem yields_lowerFunctions (ha : Supports p printName a) (hp : p.Sane) (hs : s.Ready p a)
    (options : Options) (fs : List FunctionDecl) (k : Nat)
    (hdecl : ∀ index, p.functions[k + index]? = fs[index]?) :
    Yields (lowerFunctions a options (fs.zipIdx k)) s fun _ s' => s.Proceeds p printName a s' ∧
      ∀ (index : Nat) f, fs[index]? = some f → ∃ proc,
        s'.functionProcs[k + index]? = some proc ∧ HasBody p printName a s' none f proc := by
  induction fs generalizing s k with
  | nil => exact .pure ⟨.refl hs, by simp⟩
  | cons f rest ih =>
    have hf : p.functions[k]? = some f := hdecl 0
    obtain ⟨proc, hproc, -⟩ := hs.functions k f hf
    refine Yields.bind (P := fun id s' => id = proc ∧ s' = s)
      (.get_bind (.lift (orFault_ok hproc) ⟨rfl, rfl⟩)) fun id s₀ h => ?_
    obtain ⟨rfl, rfl⟩ := h
    have howner : s₀.Owner p none f id := .function hf hproc
    refine (yields_lowerOwned ha hp hs howner options).bind fun _ s₁ ⟨h₁, hbody⟩ => ?_
    refine (ih h₁.ready (k + 1) fun index => ?_).mono fun _ s' ⟨h', hrest⟩ =>
      ⟨h₁.trans h', fun index g hg => ?_⟩
    · rw [show k + 1 + index = k + (index + 1) by omega, hdecl, List.getElem?_cons_succ]
    · cases index with
      | zero =>
        obtain rfl := Option.some.inj hg
        exact ⟨id, getElem?_of_initial (h₁.trans h').grows.functionProcs hproc,
          h'.bodies _ _ _ (howner.mono h₁.grows) hbody⟩
      | succ index =>
        rw [show k + (index + 1) = k + 1 + index by omega]
        exact hrest index g hg

/-- **Every method of a class gets its body.** -/
theorem yields_lowerMethods (ha : Supports p printName a) (hp : p.Sane) (hs : s.Ready p a)
    (options : Options) {id : ClassId} {c : ClassDecl} (hc : p.classes[id]? = some c)
    (methods : List FunctionDecl) (k : Nat)
    (hdecl : ∀ index, c.methods[k + index]? = methods[index]?) :
    Yields (lowerMethods a options id (methods.zipIdx k)) s fun _ s' =>
      s.Proceeds p printName a s' ∧ ∀ (index : Nat) m, methods[index]? = some m → ∃ proc,
        s'.methodProcs.get? ⟨id, k + index⟩ = some proc ∧
          HasBody p printName a s' (some c.name) m proc := by
  induction methods generalizing s k with
  | nil => exact .pure ⟨.refl hs, by simp⟩
  | cons m rest ih =>
    have hm : c.methods[k]? = some m := hdecl 0
    obtain ⟨proc, hproc, -⟩ := hs.methods id c hc k m hm
    refine (yields_methodProc (P := fun q s' => q = proc ∧ s' = s) hproc ⟨rfl, rfl⟩).bind
      fun q s₀ h => ?_
    obtain ⟨rfl, rfl⟩ := h
    have howner : s₀.Owner p (some c.name) m q := .method hc hm hproc
    refine (yields_lowerOwned ha hp hs howner options).bind fun _ s₁ ⟨h₁, hbody⟩ => ?_
    refine (ih h₁.ready (k + 1) fun index => ?_).mono fun _ s' ⟨h', hrest⟩ =>
      ⟨h₁.trans h', fun index g hg => ?_⟩
    · rw [show k + 1 + index = k + (index + 1) by omega, hdecl, List.getElem?_cons_succ]
    · cases index with
      | zero =>
        obtain rfl := Option.some.inj hg
        exact ⟨q, (h₁.trans h').grows.methodProcs _ _ hproc,
          h'.bodies _ _ _ (howner.mono h₁.grows) hbody⟩
      | succ index =>
        rw [show k + (index + 1) = k + 1 + index by omega]
        exact hrest index g hg

/-- **Every method gets its body.** -/
theorem yields_lowerClasses (ha : Supports p printName a) (hp : p.Sane) (hs : s.Ready p a)
    (options : Options) (cs : List ClassDecl) (k : Nat)
    (hdecl : ∀ i, p.classes[k + i]? = cs[i]?) :
    Yields (lowerClasses a options (cs.zipIdx k)) s fun _ s' => s.Proceeds p printName a s' ∧
      ∀ i c, cs[i]? = some c → ∀ (index : Nat) m, c.methods[index]? = some m → ∃ proc,
        s'.methodProcs.get? ⟨k + i, index⟩ = some proc ∧
          HasBody p printName a s' (some c.name) m proc := by
  induction cs generalizing s k with
  | nil => exact .pure ⟨.refl hs, by simp⟩
  | cons c rest ih =>
    have hc : p.classes[k]? = some c := hdecl 0
    refine (yields_lowerMethods ha hp hs options hc c.methods 0
      fun index => by rw [Nat.zero_add]).bind fun _ s₁ ⟨h₁, hfirst⟩ => ?_
    refine (ih h₁.ready (k + 1) fun i => ?_).mono fun _ s' ⟨h', hrest⟩ =>
      ⟨h₁.trans h', fun i c' hc' index m hm => ?_⟩
    · rw [show k + 1 + i = k + (i + 1) by omega, hdecl, List.getElem?_cons_succ]
    · cases i with
      | zero =>
        obtain rfl := Option.some.inj hc'
        obtain ⟨proc, hproc, hbody⟩ := hfirst index m hm
        rw [Nat.zero_add] at hproc
        exact ⟨proc, h'.grows.methodProcs _ _ hproc,
          h'.bodies _ _ _ (.method hc hm hproc) hbody⟩
      | succ i =>
        rw [show k + (i + 1) = k + 1 + i by omega]
        exact hrest i c' hc' index m hm

/-! ## The whole program -/

/-- Where the classes are declared and nothing else, no function or method
has a procedure. -/
theorem DeclaresClasses.apart {n : Nat} (hs : DeclaresClasses p n s) : s.Apart p := by
  refine ⟨?_, ?_, ?_, ?_, ?_, ?_⟩ <;>
    simp [hs.functionProcs, hs.methodProcs, hs.procs]

theorem DeclaresClasses.typed (hs : DeclaresClasses p p.classes.length s) : s.Typed p a := by
  refine ⟨hs.ir, hs.size, hs.globals, fun id layout h => ?_, by simp [hs.arrayStructs],
    fun i hi => .inl (hs.structs ▸ hi)⟩
  have hid : id < p.classes.length := hs.size ▸ (List.getElem?_eq_some_iff.1 h).1
  have hdeclared := hs.declared id _ hid (List.getElem?_eq_getElem hid)
  rw [Option.some.inj (h.symm.trans hdeclared.layout)]
  exact (List.getElem?_eq_some_iff.1 hdeclared.instance_).1

theorem signatureInterned {this? : Option String} {f : FunctionDecl}
    (h : FunctionNoted p printName a.findings this? f) : SignatureInterned p a f :=
  ⟨h.returnType, h.paramTypes⟩

/-- **All is declared**, and no class is laid out. -/
theorem yields_declareProgram (ha : Supports p printName a) :
    Yields (do
      declareClasses p.classes
      declareFunctions a p.functions
      declareMethods a p.classes.zipIdx) .start fun _ s => LaysOut p a [] s ∧
        s.classAllocators = [] ∧ s.arrayAllocators = [] ∧
          ∀ (index : Nat) f, p.functions[index]? = some f →
            ∃ proc, s.functionProcs[index]? = some proc ∧ HasProc p a s f.name [] f proc := by
  have ht := ha.covers.table
  have hlookup := ha.classes.lookup
  refine (yields_declareClasses [] rfl (declaresClasses_start p)).bind fun _ s₁ h₁ => ?_
  have htyped₁ : s₁.Typed p a := h₁.typed
  refine (yields_declareFunctions ht hlookup htyped₁ h₁.apart
    (fun f hf => signatureInterned (ha.covers.functions f hf)) fun index => by
      rw [h₁.functionProcs, List.length_nil, Nat.zero_add]).bind
    fun _ s₂ ⟨hext₂, hsame₂, htyped₂, hapart₂, hmethods₂, ids, hids, hprocs⟩ => ?_
  refine (yields_declareMethods ht hlookup htyped₂ hapart₂ 0
    (fun c hc m hm => signatureInterned (ha.covers.methods c hc m hm))
    (fun i => by rw [Nat.zero_add]) (fun i c hc => ?_) fun ref _ => ?_).mono
    fun _ s ⟨hext, hsame, htyped, hapart, hfunctions, hmethods⟩ => ?_
  · have hi : i < p.classes.length := (List.getElem?_eq_some_iff.1 hc).1
    rw [hext₂.classes, Nat.zero_add]
    exact ⟨_, (h₁.declared i c hi hc).layout, rfl⟩
  · simp [hmethods₂, h₁.methodProcs]
  have hall := hsame₂.trans hsame
  refine ⟨⟨htyped, hapart, fun id c hc index m hm => ?_, fun id c _ hc => ?_, by simp,
    fun ref _ => ?_⟩, by rw [hall.classes, h₁.classAllocators],
    by rw [hall.arrays, h₁.arrayAllocators], fun index f hf => ?_⟩
  · rw [← Nat.zero_add id]
    exact hmethods id c hc index m hm
  · exact ((h₁.declared id c (List.getElem?_eq_some_iff.1 hc).1 hc).extends_ hext₂).extends_ hext
  · simp [hall.fields, h₁.fieldSlots]
  · obtain ⟨proc, hproc, hhas⟩ := getElem?_of_forall₂ hprocs hf
    refine ⟨proc, ?_, hhas.mono hext.grows⟩
    rw [hfunctions, hids, h₁.functionProcs, List.nil_append, hproc]

variable (p printName a) in
/-- **The session of a lowered program**: every function and every method has
its body. -/
structure Session.Complete (s : Session) : Prop where
  ready : s.Ready p a
  functions : ∀ (index : Nat) f, p.functions[index]? = some f →
    ∃ proc, s.functionProcs[index]? = some proc ∧ HasBody p printName a s none f proc
  methods : ∀ (id : ClassId) c, p.classes[id]? = some c → ∀ (index : Nat) m,
    c.methods[index]? = some m → ∃ proc, s.methodProcs.get? ⟨id, index⟩ = some proc ∧
      HasBody p printName a s (some c.name) m proc

/-- **All is declared and laid out**, and nothing asked for an allocator. -/
theorem yields_layOutProgram (ha : Supports p printName a) :
    Yields (do
      declareClasses p.classes
      declareFunctions a p.functions
      declareMethods a p.classes.zipIdx
      layOutClasses a p) .start fun _ s =>
        s.Ready p a ∧ s.classAllocators = [] ∧ s.arrayAllocators = [] := by
  obtain ⟨⟨⟩, s₁, hrun, hlays₁, hobjects₁, harrays₁, hfunctions₁⟩ := yields_declareProgram ha
  have hdeclare : (do
      declareClasses p.classes
      declareFunctions a p.functions
      declareMethods a p.classes.zipIdx
      layOutClasses a p) = (do
      (do
        declareClasses p.classes
        declareFunctions a p.functions
        declareMethods a p.classes.zipIdx)
      layOutClasses a p) := by
    simp
  rw [hdeclare]
  refine Yields.bind (P := fun _ s => s = s₁) ⟨_, _, hrun, rfl⟩ fun _ s h => ?_
  subst h
  refine (yields_layOutClasses ha.covers.table ha.classes ha.sound ha.covers.fieldTypes hlays₁).mono
    fun _ s₂ ⟨hgrows, hsame, hfunctions, order, hlays, hall⟩ =>
      ⟨⟨hlays.typed, hlays.apart, fun id hid => hlays.laid id (hall id hid),
        fun index f hf => ?_, hlays.methods, ?_, ?_⟩, by rw [hsame.classes, hobjects₁],
        by rw [hsame.arrays, harrays₁]⟩
  · obtain ⟨proc, hproc, hhas⟩ := hfunctions₁ index f hf
    exact ⟨proc, by rw [hfunctions, hproc], hhas.mono hgrows⟩
  · simp [hsame.classes, hobjects₁]
  · simp [hsame.arrays, harrays₁]

/-- A program is declared and laid out before bodies are lowered. -/
theorem buildProgram_eq_bodies (options : Options) : buildProgram a p options = (do
    (do
      declareClasses p.classes
      declareFunctions a p.functions
      declareMethods a p.classes.zipIdx
      layOutClasses a p)
    lowerFunctions a options p.functions.zipIdx
    lowerClasses a options p.classes.zipIdx) := by
  simp [buildProgram]

/-- **Programs that the analysis accepts are lowered**: all is declared, laid
out and defined. -/
theorem yields_buildProgram (ha : Supports p printName a) (hp : p.Sane) (options : Options) :
    Yields (buildProgram a p options) .start fun _ s => s.Complete p printName a := by
  rw [buildProgram_eq_bodies]
  refine (yields_layOutProgram ha).bind fun _ s₂ ⟨hready, _, _⟩ => ?_
  refine (yields_lowerFunctions ha hp hready options p.functions 0
    fun index => by rw [Nat.zero_add]).bind fun _ s₃ ⟨h₃, hbodies₃⟩ => ?_
  refine (yields_lowerClasses ha hp h₃.ready options p.classes 0
    fun i => by rw [Nat.zero_add]).mono fun _ s₄ ⟨h₄, hbodies₄⟩ => ⟨h₄.ready, ?_, ?_⟩
  · intro index f hf
    obtain ⟨proc, hproc, hbody⟩ := hbodies₃ index f hf
    rw [Nat.zero_add] at hproc
    exact ⟨proc, getElem?_of_initial h₄.grows.functionProcs hproc,
      h₄.bodies _ _ _ (.function hf hproc) hbody⟩
  · intro id c hc index m hm
    rw [← Nat.zero_add id]
    exact hbodies₄ id c hc index m hm

end Programs

end ClassLang.Lowering
