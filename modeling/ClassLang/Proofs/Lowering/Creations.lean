import ClassLang.Proofs.Lowering.Courses
import ClassLang.Proofs.Source.Parts
/-!
# Lowering — which allocators come in

A body asks for the allocators of the `new` expressions in it, and nothing else
does: lowering it adds just these to the tables (`gains_lowerBody`). That no
argument of a call is left out takes that procedures have the parameters of
their functions and methods (`Session.Serves`).
-/


namespace ClassLang.Lowering

open Source (Expr Place Stmt FunctionDecl ClassDecl Program TypeExpr)
open Typing (Analysis ExprTy Names ExprNoted PlaceNoted ArgsNoted StmtNoted StmtsNoted FunctionNoted)
open Ir (ProcId BlockId Builder)
open Semantics (Fault)

/-! ## What parts make -/

section Parts

variable (a : Analysis)

/-- What a part makes when it is evaluated. -/
def made? : Source.Part → Option Made
  | .expr (.newObject _ name) => (a.classes.lookup name).map .object
  | .expr (.newArray _ elem _) => (a.lookupType elem).map .array
  | _ => none

/-- What parts make. -/
def madeIn (parts : List Source.Part) : List Made := parts.filterMap (made? a)

variable {a}

theorem madeIn_append (parts parts' : List Source.Part) :
    madeIn a (parts ++ parts') = madeIn a parts ++ madeIn a parts' := List.filterMap_append

theorem madeIn_cons {part : Source.Part} (h : made? a part = none) (parts : List Source.Part) :
    madeIn a (part :: parts) = madeIn a parts := List.filterMap_cons_none h

/-- Objects are made by `new` with the name of their class. -/
theorem object_mem_madeIn {parts : List Source.Part} {id : ClassId} : .object id ∈ madeIn a parts ↔
    ∃ m name, .expr (.newObject m name) ∈ parts ∧ a.classes.lookup name = some id := by
  rw [madeIn, List.mem_filterMap]
  constructor
  · rintro ⟨part, hpart, hmade⟩
    unfold made? at hmade
    split at hmade
    next m name =>
      obtain ⟨found, hfound, heq⟩ := Option.map_eq_some_iff.1 hmade
      exact ⟨m, name, hpart, by rw [hfound, Made.object.inj heq]⟩
    next => obtain ⟨_, -, heq⟩ := Option.map_eq_some_iff.1 hmade; cases heq
    next => cases hmade
  · rintro ⟨m, name, hpart, hname⟩
    exact ⟨_, hpart, by rw [made?, hname]; rfl⟩

/-- Arrays are made by `new` with their type of elements. -/
theorem array_mem_madeIn {parts : List Source.Part} {ty : Ty} : .array ty ∈ madeIn a parts ↔
    ∃ m elem size, .expr (.newArray m elem size) ∈ parts ∧ a.lookupType elem = some ty := by
  rw [madeIn, List.mem_filterMap]
  constructor
  · rintro ⟨part, hpart, hmade⟩
    unfold made? at hmade
    split at hmade
    next => obtain ⟨_, -, heq⟩ := Option.map_eq_some_iff.1 hmade; cases heq
    next m elem size =>
      obtain ⟨found, hfound, heq⟩ := Option.map_eq_some_iff.1 hmade
      exact ⟨m, elem, size, hpart, by rw [hfound, Made.array.inj heq]⟩
    next => cases hmade
  · rintro ⟨m, elem, size, hpart, helem⟩
    exact ⟨_, hpart, by rw [made?, helem]; rfl⟩

end Parts

/-! ## Procedures serve their owners -/

section Creations

variable {p : Program} {printName : String} {a : Analysis} {s t u : Session}

variable (p) in
/-- **Functions and methods have procedures with their parameters**, to which
methods add the receiver. -/
structure Session.Serves (s : Session) : Prop where
  functions : ∀ (index : Nat) g proc, p.functions[index]? = some g →
    s.functionProcs[index]? = some proc →
      ∃ q, s.ir.procs[proc]? = some q ∧ q.params.length = g.params.length
  methods : ∀ ref g proc, methodDecl? p ref = some g → s.methodProcs.get? ref = some proc →
    ∃ q, s.ir.procs[proc]? = some q ∧ q.params.length = g.params.length + 1

theorem Session.Serves.congr (h : s.Serves p) (hfunctions : t.functionProcs = s.functionProcs)
    (hmethods : t.methodProcs = s.methodProcs)
    (hprocs : ∀ (proc : ProcId) q, s.ir.procs[proc]? = some q →
      ∃ q', t.ir.procs[proc]? = some q' ∧ q'.params = q.params) : t.Serves p := by
  refine ⟨fun index g proc hg hproc => ?_, fun ref g proc hg hproc => ?_⟩
  · obtain ⟨q, hq, hlength⟩ := h.functions index g proc hg (hfunctions ▸ hproc)
    obtain ⟨q', hq', hparams⟩ := hprocs proc q hq
    exact ⟨q', hq', by rw [hparams, hlength]⟩
  · rw [hmethods] at hproc
    obtain ⟨q, hq, hlength⟩ := h.methods ref g proc hg hproc
    obtain ⟨q', hq', hparams⟩ := hprocs proc q hq
    exact ⟨q', hq', by rw [hparams, hlength]⟩

/-- A body that comes in changes no parameters. -/
theorem Session.Serves.setBody {proc : ProcId} {temps : List Ir.Field} {blocks : List Ir.Block}
    (h : s.Serves p) (hrun : (Change.setBody proc temps blocks).perform.run s = .ok ((), t)) :
    t.Serves p := by
  obtain ⟨decl, hdecl, rfl⟩ := Change.eq_of_setBody hrun
  refine h.congr rfl rfl fun other q hq => ?_
  by_cases heq : proc = other
  · subst heq
    obtain rfl := Option.some.inj (hdecl.symm.trans hq)
    exact ⟨_, List.getElem?_set_self (List.getElem?_eq_some_iff.1 hdecl).1, rfl⟩
  · exact ⟨q, (List.getElem?_set_ne heq).trans hq, rfl⟩

instance : Lenient fun s t => s.Serves p → t.Serves p where
  refl _ := id
  trans _ _ _ h h' := h' ∘ h
  beside h hs := hs.congr h.functionProcs h.methodProcs fun _ q hq => ⟨q, h.procs ▸ hq, rfl⟩
  allocator h _ hrun hs := by
    obtain ⟨missing, hset⟩ := (ends_defineProc_change _ _ _).result hrun
    refine Session.Serves.setBody (hs.congr h.functionProcs h.methodProcs fun _ q hq => ⟨q, ?_, rfl⟩) hset
    rw [h.procs]
    exact getElem?_of_initial (List.prefix_append _ _) hq

/-- Where bodies can be lowered, procedures serve their functions and methods. -/
theorem Session.Ready.serves (hs : s.Ready p a) : s.Serves p := by
  have hlength {this : List Ir.Field} {name : String} {g : FunctionDecl} {q : Ir.Proc}
      (h : ProcFor p a s name this g q) : q.params.length = this.length + g.params.length := by
    obtain ⟨fields, hparams, hfields⟩ := h.params
    rw [hparams, List.length_append, hfields.length_eq]
  refine ⟨fun index g proc hg hproc => ?_, fun ref g proc hg hproc => ?_⟩
  · obtain ⟨_, hproc', q, hq, hfor⟩ := hs.functions index g hg
    obtain rfl := Option.some.inj (hproc.symm.trans hproc')
    exact ⟨q, hq, by rw [hlength hfor, List.length_nil, Nat.zero_add]⟩
  · obtain ⟨_, hproc', q, hq, name, hfor⟩ := hs.method hg
    obtain rfl := Option.some.inj (hproc.symm.trans hproc')
    exact ⟨q, hq, by rw [hlength hfor, Nat.add_comm]; rfl⟩

/-! ## Allocators come in -/

variable (p) in
/-- **From the first session to the second, the allocators of what is made come
in**, those that were missing, and no others. -/
structure Session.Gains (made : List Made) (s t : Session) : Prop where
  serves : s.Serves p → t.Serves p
  allocators : ∀ m, (t.allocator? m).isSome = true ↔ (s.allocator? m).isSome = true ∨ m ∈ made

namespace Session.Gains

variable {made made' : List Made}

theorem of_same (hserves : s.Serves p → t.Serves p) (h : s.SameAllocators t) : s.Gains p [] t :=
  ⟨hserves, fun m => by rw [allocator?_congr h]; simp⟩

theorem refl (s : Session) : s.Gains p [] s := of_same id (.refl s)

theorem trans (h : s.Gains p made t) (h' : t.Gains p made' u) : s.Gains p (made ++ made') u :=
  ⟨h'.serves ∘ h.serves, fun m => by
    rw [h'.allocators, h.allocators, List.mem_append, or_assoc]⟩

/-- What is made counts as a set. -/
theorem congr (h : s.Gains p made t) (hmade : ∀ m, m ∈ made' ↔ m ∈ made) : s.Gains p made' t :=
  ⟨h.serves, fun m => by rw [h.allocators, hmade]⟩

theorem of_finds {m : Made} {proc : ProcId} (hserves : s.Serves p → t.Serves p)
    (h : s.Finds a m proc t) : s.Gains p [m] t := by
  refine ⟨hserves, fun other => ?_⟩
  rw [List.mem_singleton]
  by_cases heq : other = m
  · subst heq
    exact ⟨fun _ => .inr rfl, fun _ => by rw [h.found]; rfl⟩
  · rw [h.others other heq]
    exact ⟨.inl, fun hor => hor.resolve_right heq⟩

end Session.Gains

variable (p) in
/-- **The computation creates**: the allocators of what is made come in. -/
def Creates {α : Type} (made : List Made) (x : Lower α) : Prop :=
  ∀ b, b.session.Serves p → Ends (fun _ => True) x b fun _ b' => b.session.Gains p made b'.session

namespace Creates

variable {α β : Type} {x : Lower α} {k : α → Lower β} {made made' : List Made}

theorem pure (v : α) : Creates p [] (Pure.pure v : Lower α) := fun b _ => .refl b.session

theorem congr (h : Creates p made x) (hmade : ∀ m, m ∈ made' ↔ m ∈ made) : Creates p made' x :=
  fun b hb => (h b hb).mono fun _ _ hgains => hgains.congr hmade

/-- **Computations in turn.** -/
theorem append (h : Creates p made x) (hk : ∀ v, Creates p made' (k v)) :
    Creates p (made ++ made') (x >>= k) := fun b hb =>
  (h b hb).bind fun v b' hgains => (hk v b' (hgains.serves hb)).mono fun _ _ => hgains.trans

/-- What creates nothing comes first. -/
theorem bind (h : Creates p [] x) (hk : ∀ v, Creates p made (k v)) : Creates p made (x >>= k) :=
  h.append hk

/-- What creates nothing comes last. -/
theorem last (h : Creates p made x) (hk : ∀ v, Creates p [] (k v)) : Creates p made (x >>= k) :=
  (h.append hk).congr fun m => by rw [List.append_nil]

theorem get : Creates p [] (MonadState.get : Lower Body) := fun b _ => .refl b.session

theorem lift {r : Except Error α} : Creates p [] (liftM r) := fun b _ =>
  .lift (fun _ _ => .refl b.session) fun _ _ => trivial

theorem lift_bind {r : Except Error α} {v : α} (hr : r = .ok v) (hk : Creates p made (k v)) :
    Creates p made (liftM r >>= k) := by
  subst hr
  exact hk

theorem session {x : Build α} (h : ∀ s : Session, s.Serves p →
    Ends (fun _ => True) x s fun _ t => s.Gains p made t) : Creates p made (Lower.session x) :=
  fun b hb => (Lower.ends_session (h b.session hb)).mono fun _ _ ⟨_, heq, hgains⟩ => heq ▸ hgains

/-- What leaves the session alone creates nothing. -/
theorem of_adds {faults : Nat → List Fault} {line' : Nat → Nat} {l : Nat → α → List BlockId}
    (h : ∀ line, Lower.Adds Eq (fun ks ks' _ => Builder.Ranges ks ks') [] line (faults line) x
      (line' line) (l line)) : Creates p [] x := fun b _ =>
  (h b.line b rfl).any.mono fun _ _ ⟨_, _, heq⟩ => heq ▸ .refl b.session

theorem emit (x : Ir.Program → Emit α) : Creates p [] (Lower.emit x) := fun b _ =>
  (Lower.ends_emit (fun _ => trivial) (Ends.run (x b.session.ir) b.builder)).mono
    fun _ _ ⟨_, heq, _⟩ => heq ▸ .refl b.session

end Creates

/-! ## Calls -/

/-- **A call of a function** needs as many arguments as the function has parameters. -/
theorem creates_functionDecl_bind {β : Type} {made : List Made} {index : Nat} {g : FunctionDecl}
    (hg : p.functions[index]? = some g) {k : ProcId → Ir.Proc → Lower β}
    (hk : ∀ proc decl, decl.params.length = g.params.length → Creates p made (k proc decl)) :
    Creates p made (Lower.session (functionProc index) >>= fun proc =>
      Lower.session (procDecl proc) >>= fun decl => k proc decl) := fun b hb => by
  refine (Lower.ends_session (ends_functionProc index b.session)).any.bind
    fun proc b₁ ⟨t, hb₁, hproc, ht⟩ => ?_
  obtain rfl : b₁ = b := by rw [hb₁, ht]
  obtain ⟨q, hq, hlength⟩ := hb.functions index g proc hg hproc
  have hdecl : Ends Error.Reported (procDecl proc) b₁.session fun decl t => t = b₁.session ∧ decl = q :=
    ends_procDecl fun q' hq' => ⟨rfl, Option.some.inj (hq'.symm.trans hq)⟩
  refine (Lower.ends_session hdecl).any.bind fun decl b₂ ⟨u, hb₂, hu, heq⟩ => ?_
  obtain rfl : b₂ = b₁ := by rw [hb₂, hu]
  exact hk proc decl (by rw [heq, hlength]) b₂ hb

/-- **A method call** needs as many arguments as the method has parameters. -/
theorem ends_callTarget (hs : s.Serves p) {ref : MemberRef} {g : FunctionDecl}
    (hg : methodDecl? p ref = some g) (receiver : Source.NodeId) (method : String) :
    Ends Error.Reported (callTarget a receiver method ref) s fun r t =>
      t = s ∧ r.2.2.length = g.params.length := by
  have hfault {fault : Error} {α : Type} {o : Option α} (h : fault.Reported) :
      Ends Error.Reported (liftM (orFault fault o) : Build α) s fun _ t => t = s :=
    .lift (fun _ _ => rfl) (reported_orFault h)
  refine Ends.bind (hfault fun _ _ h => nomatch h) fun ty s₀ h₀ => ?_
  subst h₀
  cases ty with
  | class_ id =>
    refine Ends.bind (P := fun _ t => t = s₀) rfl fun _ s₁ h₁ => ?_
    subst h₁
    refine (ends_classLayout _ s₁).bind fun layout s₂ ⟨_, h₂⟩ => ?_
    subst h₂
    refine Ends.bind (hfault fun _ _ h => nomatch h) fun slot s₃ h₃ => ?_
    subst h₃
    refine (ends_methodProc ref s₃).bind fun proc s₄ ⟨hproc, h₄⟩ => ?_
    subst h₄
    obtain ⟨q, hq, hlength⟩ := hs.methods ref g proc hg hproc
    refine (ends_procDecl (Q := fun decl t => t = s₄ ∧ decl = q) fun q' hq' =>
      ⟨rfl, Option.some.inj (hq'.symm.trans hq)⟩).bind fun decl s₅ ⟨h₅, hdecl⟩ => ?_
    subst h₅ hdecl
    split
    next hparams => rw [hparams] at hlength; cases hlength
    next hparams =>
      rw [hparams] at hlength
      exact ⟨rfl, by rw [List.length_map]; exact Nat.succ.inj hlength⟩
  | _ => exact fun _ _ h => nomatch h

theorem creates_callTarget_bind {β : Type} {made : List Made} {ref : MemberRef} {g : FunctionDecl}
    (hg : methodDecl? p ref = some g) {receiver : Source.NodeId} {method : String}
    {k : Nat × Ir.Ty × List Ir.Ty → Lower β}
    (hk : ∀ r, r.2.2.length = g.params.length → Creates p made (k r)) :
    Creates p made (Lower.session (callTarget a receiver method ref) >>= k) := fun b hb => by
  refine (Lower.ends_session (ends_callTarget hb hg receiver method)).any.bind
    fun r b₁ ⟨t, hb₁, ht, hlength⟩ => ?_
  obtain rfl : b₁ = b := by rw [hb₁, ht]
  exact hk r hlength b₁ hb

/-! ## Bodies -/

/-- The type of new elements is the one that is written. -/
theorem exists_newElem {id : Source.NodeId} {elem : TypeExpr}
    (h : Typing.TypeNoted p a.findings id (.written (.array elem))) : ∃ ty,
      newElem a id = .ok ty ∧ Typing.Denotes p a.findings.table ty elem := by
  obtain ⟨ty, hty, hd⟩ := h
  cases hd with
  | written hd =>
    cases hd with
    | @array array ty _ helem hd =>
      have htype : a.type? id = some (.array array) := hty
      refine ⟨ty, ?_, hd⟩
      rw [newElem, htype]
      exact congrArg Except.ok (by rw [TypeTable.elem, helem]; rfl)

section Bodies

variable {names : Names}

theorem creates_irTyOf (ha : Supports p printName a) (ty : TypeExpr) :
    Creates p [] (Lower.session (irTyOf a ty)) :=
  .session fun s _ => ((ends_irTyOf (rank_elem_le ha.covers.table) ty s).and
    (tame_irTyOf (R := fun s t => s.Serves p → t.Serves p) a ty s)).any.mono
    fun _ _ h => .of_same h.2 h.1.2

theorem creates_arrayAllocator (ha : Supports p printName a) (elem : Ty) :
    Creates p [.array elem] (Lower.session (arrayAllocator a elem)) :=
  .session fun s _ => ((ends_arrayAllocator (rank_elem_le ha.covers.table) elem s).and
    (tame_arrayAllocator (R := fun s t => s.Serves p → t.Serves p) a elem s)).any.mono
    fun _ _ h => .of_finds h.2 h.1

theorem creates_classAllocator (a : Analysis) (id : ClassId) :
    Creates p [.object id] (Lower.session (classAllocator id)) :=
  .session fun s _ => ((ends_classAllocator (a := a) id s).and
    (tame_classAllocator (R := fun s t => s.Serves p → t.Serves p) id s)).any.mono
    fun _ _ h => .of_finds h.2 h.1

mutual

/-- **An expression creates** what the expressions in it make. -/
theorem creates_rvalue (ha : Supports p printName a) : (e : Expr) → {τ : ExprTy} →
    ExprNoted p printName a.findings names e τ →
    Creates p (madeIn a e.parts) (rvalue a e)
  | .int _ _, _, _ | .bool _ _, _, _ | .null _, _, _ => .pure _
  | .this _, _, _ => .of_adds fun _ => Lower.adds_this
  | .read m place, _, h => by
    cases h with
    | read hplace => exact .last (creates_placeAddr ha place hplace) fun _ => .emit _
  | .arrayLength m array, _, h => by
    cases h with
    | arrayLength harray =>
      exact .last (creates_rvalue ha array harray) fun value =>
        .bind (.of_adds fun _ => Lower.adds_nullCheck value m.pos) fun _ => .emit _
  | .unary m op operand, _, h => by
    have hoperand : ∃ τ, ExprNoted p printName a.findings names operand τ := by
      cases h <;> exact ⟨_, ‹_›⟩
    obtain ⟨τ, hoperand⟩ := hoperand
    exact .last (creates_rvalue ha operand hoperand) fun value =>
      .of_adds fun _ => Lower.adds_unary op value
  | .binary m op lhs rhs, _, h => by
    have hoperands : ∃ τ τ', ExprNoted p printName a.findings names lhs τ ∧
        ExprNoted p printName a.findings names rhs τ' := by
      cases h <;> exact ⟨_, _, ‹_›, ‹_›⟩
    obtain ⟨τ, τ', hl, hr⟩ := hoperands
    rw [Expr.parts, madeIn_cons rfl, madeIn_append]
    unfold rvalue
    split
    · exact .bind (.emit _) fun _ => .append (creates_rvalue ha lhs hl) fun _ =>
        .bind (.emit _) fun _ => .last (creates_rvalue ha rhs hr) fun _ => .emit _
    · exact .append (creates_rvalue ha lhs hl) fun left => .last (creates_rvalue ha rhs hr) fun right =>
        .of_adds fun _ => Lower.adds_binary op left right m.pos
  | .call m name args, _, h => by
    -- The one argument of a print is taken from the list, so that the recursion sees it.
    have hfirst {arg : Expr} {rest : List Expr} (heq : args = arg :: rest) {τ : ExprTy}
        (h : ExprNoted p printName a.findings names arg τ) :
        Creates p (madeIn a arg.parts) (rvalue a arg) := by
      cases args with
      | nil => cases heq
      | cons e rest' =>
        obtain ⟨rfl, -⟩ := List.cons.inj heq
        exact creates_rvalue ha e h
    rw [Expr.parts, madeIn_cons rfl]
    unfold rvalue
    cases h with
    | print hcall harg =>
      rw [Source.argParts, Source.argParts, List.append_nil]
      exact .lift_bind (orFault_ok hcall) <| .last (hfirst rfl harg) fun _ => .bind (.emit _) fun _ => .pure _
    | call hname hcall hindex hg hargs =>
      refine .lift_bind (orFault_ok hcall) <| creates_functionDecl_bind hg fun proc decl hlength =>
        .last (creates_castArgs ha args hargs _ ?_) fun _ => .emit _
      rw [List.length_map, List.length_map, hlength]
  | .methodCall m receiver method args, _, h => by
    cases h with
    | methodCall hreceiver htype hcall hid href hg hargs =>
      have hcallee : a.callee? m.id = some (.method _) := hcall
      rw [Expr.parts, madeIn_cons rfl, madeIn_append]
      unfold rvalue
      rw [hcallee]
      refine .append (creates_rvalue ha receiver hreceiver) fun object =>
        .bind (.of_adds fun _ => Lower.adds_nullCheck object m.pos) fun _ =>
        creates_callTarget_bind hg fun r hlength => .bind (.emit _) fun this =>
        .last (creates_castArgs ha args hargs r.2.2 ?_) fun values => .emit _
      rw [List.length_map, hlength]
  | .newObject m name, _, h => by
    cases h with
    | newObject hid =>
      have hclass := (ha.classes.lookup name).trans hid
      rw [Expr.parts, madeIn, List.filterMap_cons_some (by rw [made?, hclass]; rfl), List.filterMap_nil]
      exact .lift_bind (orFault_ok hclass) <| .last (creates_classAllocator a _) fun _ => .emit _
  | .newArray m elem size, _, h => by
    cases h with
    | newArray htype hsize =>
      obtain ⟨target, helem, hd⟩ := exists_newElem htype
      have hlookup := Typing.lookupType_of_denotes ha.covers.table ha.classes.lookup hd
      rw [Expr.parts, madeIn, List.filterMap_cons_some (by rw [made?, hlookup]; rfl)]
      -- The allocator comes in behind those that the size asks for.
      refine .congr (.lift_bind helem <| .append (creates_rvalue ha size hsize) fun _ =>
        .last (creates_arrayAllocator ha target) fun _ => .emit _) fun m => ?_
      rw [List.mem_append, List.mem_singleton, List.mem_cons, or_comm]
      rfl

theorem creates_placeAddr (ha : Supports p printName a) : (place : Place) → {ty : TypeExpr} →
    PlaceNoted p printName a.findings names place ty →
    Creates p (madeIn a place.parts) (placeAddr a place)
  | .var m name, _, h => by
    unfold placeAddr
    refine .bind .lift fun decl => ?_
    cases decl with
    | local_ id => exact .of_adds fun _ => Lower.adds_localSlot id
    | field ref =>
      exact .bind (.of_adds fun _ => Lower.adds_this) fun object =>
        .of_adds fun _ => Lower.adds_fieldAddr object ref
  | .field m receiver name, _, h => by
    cases h with
    | field hreceiver =>
      exact .bind .lift fun ref => .last (creates_rvalue ha receiver hreceiver) fun object =>
        .bind (.of_adds fun _ => Lower.adds_nullCheck object m.pos) fun _ =>
        .of_adds fun _ => Lower.adds_fieldAddr object ref
  | .index m array index, _, h => by
    cases h with
    | index harray hindex =>
      rw [Place.parts, madeIn_cons rfl, madeIn_append]
      exact .append (creates_rvalue ha array harray) fun value =>
        .bind (.of_adds fun _ => Lower.adds_nullCheck value m.pos) fun _ =>
        .last (creates_rvalue ha index hindex) fun found =>
        .of_adds fun _ => Lower.adds_elementAddr value found m.pos

theorem creates_castArgs (ha : Supports p printName a) : (args : List Expr) → {tys : List TypeExpr} →
    ArgsNoted p printName a.findings names args tys → (targets : List Ir.Ty) →
    targets.length = tys.length → Creates p (madeIn a (Source.argParts args)) (castArgs a args targets)
  | [], _, _, _, _ => by
    unfold castArgs
    exact .pure _
  | arg :: args, _, h, [], hlength => by
    cases h
    cases hlength
  | arg :: args, _, h, target :: targets, hlength => by
    cases h with
    | cons harg _ hargs =>
      rw [Source.argParts, madeIn_append]
      exact .append (creates_rvalue ha arg harg) fun _ => .bind (.emit _) fun _ =>
        .last (creates_castArgs ha args hargs targets (Nat.succ.inj hlength)) fun _ => .pure _

end

/-! ### Statements -/

variable (comments : Bool)

theorem creates_enterStmt (stmt : Source.Stmt) : Creates p [] (enterStmt comments stmt) :=
  .of_adds fun _ => adds_enterStmt comments stmt

theorem creates_branchIf (ha : Supports p printName a) {cond : Expr} {τ : ExprTy}
    (h : ExprNoted p printName a.findings names cond τ) :
    Creates p (madeIn a cond.parts) (branchIf a cond) :=
  .last (creates_rvalue ha cond h) fun _ => .emit _

mutual

/-- **A statement creates** what the expressions in it make. -/
theorem creates_lowerStmt (ha : Supports p printName a) {ret : TypeExpr} {names behind : Names} :
    (stmt : Source.Stmt) → StmtNoted p printName a.findings ret names stmt behind →
    Creates p (madeIn a stmt.parts) (lowerStmt a comments stmt)
  | .block _ (.mk stmts _), h => by
    cases h with
    | block h => exact .bind (creates_enterStmt comments _) fun _ => creates_lowerStmts ha stmts h
  | .decl _ var, _ => .bind (creates_enterStmt comments _) fun _ =>
    .bind (.of_adds fun _ => Lower.adds_localSlot var.id) fun _ =>
    .bind (creates_irTyOf ha var.ty) fun _ => .emit _
  | .assign _ target value, h => by
    cases h with
    | assign htarget hvalue =>
      rw [Stmt.parts, madeIn_append]
      -- Stores and casts create nothing: only expressions do, in the order of their code.
      exact .bind (creates_enterStmt comments _) fun _ => .append (creates_placeAddr ha target htarget)
        fun _ => .last (creates_rvalue ha value hvalue) fun _ => .bind (.emit _) fun _ =>
        .bind (.emit _) fun _ => .emit _
  | .expr _ value, h => by
    cases h with
    | expr h =>
      exact .bind (creates_enterStmt comments _) fun _ => .last (creates_rvalue ha value h) fun _ => .pure _
  | .ifThen _ cond body, h => by
    cases h with
    | ifThen hcond hbody =>
      rw [Stmt.parts, madeIn_append]
      exact .bind (creates_enterStmt comments _) fun _ => .append (creates_branchIf ha hcond) fun _ =>
        .last (creates_lowerStmt ha body hbody) fun _ => .bind (.emit _) fun _ => .emit _
  | .ifElse _ cond yes no, h => by
    cases h with
    | ifElse hcond hyes hno =>
      rw [Stmt.parts, madeIn_append, madeIn_append]
      exact .bind (creates_enterStmt comments _) fun _ => .append (creates_branchIf ha hcond) fun _ =>
        .append (creates_lowerStmt ha yes hyes) fun _ => .bind (.emit _) fun _ =>
        .last (creates_lowerStmt ha no hno) fun _ => .emit _
  | .loop _ cond body, h => by
    cases h with
    | loop hcond hbody =>
      rw [Stmt.parts, madeIn_append]
      exact .bind (creates_enterStmt comments _) fun _ => .bind (.emit _) fun _ =>
        .append (creates_rvalue ha cond hcond) fun _ => .bind (.emit _) fun _ =>
        .last (creates_lowerStmt ha body hbody) fun _ => .emit _
  | .ret _ value, h => by
    cases h with
    | ret h =>
      exact .bind (creates_enterStmt comments _) fun _ => .last (creates_rvalue ha value h) fun _ =>
        .bind .get fun _ => .bind (.emit _) fun _ => .emit _

theorem creates_lowerStmts (ha : Supports p printName a) {ret : TypeExpr} {names : Names} :
    (stmts : List Source.Stmt) → StmtsNoted p printName a.findings ret names stmts →
    Creates p (madeIn a (Source.stmtParts stmts)) (lowerStmts a comments stmts)
  | [], _ => .pure _
  | stmt :: rest, h => by
    cases h with
    | cons hstmt hrest =>
      rw [Source.stmtParts, madeIn_append]
      exact .append (creates_lowerStmt ha stmt hstmt) fun _ => creates_lowerStmts ha rest hrest

end

end Bodies

/-! ## Functions -/

theorem creates_makeSlot (ha : Supports p printName a) (var : Source.VarDecl) :
    Creates p [] (makeSlot a var) := by
  refine .bind (creates_irTyOf ha var.ty) fun _ => .bind (.emit _) fun slot => ?_
  have hnoted : Creates p [] (modify fun b => { b with locals := b.locals.insert var.id slot }) :=
    fun b _ => .refl b.session
  exact .bind hnoted fun _ => .pure slot

theorem creates_copyParams (ha : Supports p printName a) (index : Nat) (params : List Source.VarDecl) :
    Creates p [] (copyParams a index params) := by
  induction params generalizing index with
  | nil => exact .pure _
  | cons param rest ih => exact .bind (creates_makeSlot ha param) fun _ => .bind (.emit _) fun _ => ih _

theorem creates_makeSlots (ha : Supports p printName a) (vars : List Source.VarDecl) :
    Creates p [] (makeSlots a vars) := by
  induction vars with
  | nil => exact .pure _
  | cons var rest ih => exact .bind (creates_makeSlot ha var) fun _ => ih

/-- **A function creates** what the expressions in its body make. -/
theorem creates_lowerFunction (ha : Supports p printName a) (options : Options) (first : Nat)
    {this? : Option String} {f : FunctionDecl} (hf : FunctionNoted p printName a.findings this? f) :
    Creates p (madeIn a f.parts) (lowerFunction a options first f) := by
  refine .bind (creates_copyParams ha first f.params) fun _ =>
    .bind (creates_makeSlots ha f.body.varDecls) fun _ => ?_
  have hbody := creates_lowerStmts options.comments ha f.body.stmts hf.body
  rw [FunctionDecl.parts]
  cases hblock : f.body with
  | mk stmts pos =>
    rw [hblock] at hbody
    exact hbody

theorem gains_defineProc (id : ProcId) (body : Builder) (s : Session) :
    Ends (fun _ => True) (defineProc id body) s fun _ t => s.Gains p [] t :=
  (ends_defineProc_change id body s).any.mono fun _ t ⟨_, hrun⟩ => by
    refine .of_same (fun hs => hs.setBody hrun) ?_
    obtain ⟨_, -, rfl⟩ := Change.eq_of_setBody hrun
    exact ⟨rfl, rfl⟩

/-- **A function that is lowered** adds the allocators of what its body makes. -/
theorem gains_lowerBody (ha : Supports p printName a) (hs : s.Serves p) (options : Options)
    (inMethod : Bool) {this? : Option String} {f : FunctionDecl}
    (hf : FunctionNoted p printName a.findings this? f) (proc : ProcId) :
    Ends (fun _ => True) (lowerBody a options inMethod f proc) s fun _ t =>
      s.Gains p (madeIn a f.parts) t := by
  refine (ends_procDecl (Q := fun _ t => t = s) fun _ _ => rfl).any.bind fun decl s₁ h₁ => .get_bind ?_
  subst h₁
  have hbody := creates_lowerFunction ha options (if inMethod then 1 else 0) hf
    ⟨s₁, .start decl.params decl.ret, [], inMethod, Semantics.lineOf 0 f.pos⟩ hs
  refine Ends.bind (P := fun r _ => s₁.Gains p (madeIn a f.parts) r.2.session)
    (.lift (fun r hr => hbody.result hr) fun _ _ => trivial) fun r _ hr => ?_
  exact (gains_defineProc proc r.2.builder r.2.session).mono fun _ t h =>
    (hr.trans h).congr fun m => by rw [List.append_nil]

/-- **In turn** they add all of this. -/
theorem gains_forM {α : Type} {xs : List α} {k : α → Build Unit} {parts : α → List Source.Part}
    (h : ∀ x ∈ xs, ∀ s : Session, s.Serves p →
      Ends (fun _ => True) (k x) s fun _ t => s.Gains p (madeIn a (parts x)) t) (hs : s.Serves p) :
    Ends (fun _ => True) (forM xs k) s fun _ t => s.Gains p (madeIn a (xs.flatMap parts)) t := by
  induction xs generalizing s with
  | nil => exact .refl s
  | cons x rest ih =>
    rw [List.forall_mem_cons] at h
    rw [List.forM_cons]
    refine (h.1 s hs).bind fun ⟨⟩ t ht => (ih h.2 (ht.serves hs)).mono fun _ u hu => ?_
    rw [List.flatMap_cons, madeIn_append]
    exact ht.trans hu

theorem gains_functions (ha : Supports p printName a) (options : Options) (hs : s.Serves p) :
    Ends (fun _ => True) (forM p.functions.zipIdx (functionLowering a options)) s fun _ t =>
      s.Gains p (madeIn a (p.functions.zipIdx.flatMap fun f => f.1.parts)) t :=
  gains_forM (fun f hf s hs => (ends_functionProc f.2 s).any.bind fun proc t ⟨_, ht⟩ => by
    subst ht
    exact gains_lowerBody ha hs options false
      (ha.covers.functions f.1 (List.fst_mem_of_mem_zipIdx hf)) proc) hs

theorem gains_methods (ha : Supports p printName a) (options : Options) {c : ClassDecl}
    (hc : c ∈ p.classes) (id : ClassId) (hs : s.Serves p) :
    Ends (fun _ => True) (forM c.methods.zipIdx (methodLowering a options id)) s fun _ t =>
      s.Gains p (madeIn a (c.methods.zipIdx.flatMap fun m => m.1.parts)) t :=
  gains_forM (fun m hm s hs => (ends_methodProc ⟨id, m.2⟩ s).any.bind fun proc t ⟨_, ht⟩ => by
    subst ht
    exact gains_lowerBody ha hs options true
      (ha.covers.methods c hc m.1 (List.fst_mem_of_mem_zipIdx hm)) proc) hs

/-- The parts of a program are those of its bodies, in the order in which they are
lowered. -/
theorem parts_eq (p : Program) : p.parts = (p.functions.zipIdx.flatMap fun f => f.1.parts) ++
    p.classes.zipIdx.flatMap fun c => c.1.methods.zipIdx.flatMap fun m => m.1.parts := by
  have hfst {α : Type} (xs : List α) (g : α → List Source.Part) :
      (xs.zipIdx.flatMap fun x => g x.1) = xs.flatMap g := by
    rw [← List.flatMap_map Prod.fst g, List.zipIdx_map_fst]
  simp only [hfst]
  rw [hfst p.classes fun c => c.methods.flatMap fun m => m.parts]
  rfl

/-- **In a lowered program there are the allocators** of what its expressions
make, and no others. -/
theorem allocators_buildProgram (ha : Supports p printName a) (options : Options) {s : Session}
    (hrun : (buildProgram a p options).run .start = .ok ((), s)) (m : Made) :
    (s.allocator? m).isSome = true ↔ m ∈ madeIn a p.parts := by
  have hbuilt : Ends (fun _ => True) (buildProgram a p options) .start fun _ t =>
      ∃ s₁ : Session, s₁.allocator? m = none ∧ s₁.Gains p (madeIn a p.parts) t := by
    rw [buildProgram_eq_bodies]
    refine (Ends.of_yields (yields_layOutProgram ha)).bind fun _ s₁ ⟨hready, hobjects, harrays⟩ => ?_
    -- Before the bodies nothing asks for an allocator.
    have hnone : s₁.allocator? m = none := by
      cases m with
      | object id => rw [Session.allocator?, hobjects]; rfl
      | array elem => rw [Session.allocator?, harrays]; rfl
    rw [lowerFunctions_eq, lowerClasses_eq]
    refine (gains_functions ha options hready.serves).bind fun _ s₂ h₂ => ?_
    refine (gains_forM (fun c hc s hs => gains_methods ha options (List.fst_mem_of_mem_zipIdx hc) c.2 hs)
      (h₂.serves hready.serves)).mono fun _ t h => ⟨s₁, hnone, ?_⟩
    rw [parts_eq, madeIn_append]
    exact h₂.trans h
  obtain ⟨s₁, hnone, hgains⟩ := hbuilt.result hrun
  rw [hgains.allocators, hnone]
  simp

end Creations

end ClassLang.Lowering
