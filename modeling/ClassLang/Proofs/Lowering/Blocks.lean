import Mathlib.Order.Defs.Unbundled
import ClassLang.Proofs.Ir.Emissions
import ClassLang.Proofs.Lowering.Yields
import ClassLang.Proofs.Source.Semantics
/-!
# Lowering — code goes into blocks that are there

`Ends` says of a computation how it ends, be it with a result or with a fault,
and `Stays` that the state that it ends with stands in a relation to the one
that it starts with. Code is added to a body in few ways; a judgement on what is
added (`Judges`) has to hold of each of them only, and then holds of all
emissions (`Emit.Adds`). The first judgement is that blocks that are used are
there (`Builder.Ranges`).
-/


namespace ClassLang

section Ends

variable {σ ε α β : Type} {F : ε → Prop} {x : StateT σ (Except ε) α} {s : σ} {P : α → σ → Prop}

/-- The computation ends with a result and a state as `P` says, or with a
fault as `F` says. -/
def Ends (F : ε → Prop) (x : StateT σ (Except ε) α) (s : σ) (P : α → σ → Prop) : Prop :=
  match x.run s with
  | .ok (a, s') => P a s'
  | .error e => F e

namespace Ends

/-- Every result may be weakened. -/
theorem mono {P' : α → σ → Prop} (h : Ends F x s P) (hP : ∀ a s', P a s' → P' a s') :
    Ends F x s P' := by
  unfold Ends at h ⊢
  cases hx : x.run s with
  | ok r => rw [hx] at h; exact hP _ _ h
  | error e => rw [hx] at h; exact h

/-- More errors may be allowed. -/
theorem weaken {F' : ε → Prop} (h : Ends F x s P) (hF : ∀ e, F e → F' e) : Ends F' x s P := by
  unfold Ends at h ⊢
  cases hx : x.run s with
  | ok r => rw [hx] at h; exact h
  | error e => rw [hx] at h; exact hF e h

/-- Where it does not count what is a fault. -/
theorem any (h : Ends F x s P) : Ends (fun _ => True) x s P := h.weaken fun _ _ => trivial

theorem and {P' : α → σ → Prop} (h : Ends F x s P) (h' : Ends F x s P') :
    Ends F x s fun a s' => P a s' ∧ P' a s' := by
  unfold Ends at h h' ⊢
  cases hx : x.run s with
  | ok r => rw [hx] at h h'; exact ⟨h, h'⟩
  | error e => rw [hx] at h; exact h

/-- **Computations in turn.** -/
theorem bind {k : α → StateT σ (Except ε) β} {Q : β → σ → Prop} (h : Ends F x s P)
    (hk : ∀ a s', P a s' → Ends F (k a) s' Q) : Ends F (x >>= k) s Q := by
  unfold Ends at h ⊢
  show match (x.run s >>= fun r => (k r.1).run r.2) with | .ok (b, s') => Q b s' | .error e => F e
  cases hx : x.run s with
  | ok r => rw [hx] at h; exact hk _ _ h
  | error e => rw [hx] at h; exact h

theorem get_bind {k : σ → StateT σ (Except ε) β} {P : β → σ → Prop} (h : Ends F (k s) s P) :
    Ends F (MonadState.get >>= k) s P := h

/-- What does not depend on the state. -/
theorem lift {r : Except ε α} (hok : ∀ a, r = .ok a → P a s) (herror : ∀ e, r = .error e → F e) :
    Ends F (liftM r : StateT σ (Except ε) α) s P := by
  cases r with
  | ok a => exact hok a rfl
  | error e => exact herror e rfl

theorem of_ok {a : α} {s' : σ} (hrun : x.run s = .ok (a, s')) (h : P a s') : Ends F x s P := by
  unfold Ends
  rw [hrun]
  exact h

theorem of_error {e : ε} (hrun : x.run s = .error e) (h : F e) : Ends F x s P := by
  unfold Ends
  rw [hrun]
  exact h

/-- A computation ends with what it comes to. -/
theorem run (x : StateT σ (Except ε) α) (s : σ) :
    Ends (fun _ => True) x s fun a s' => x.run s = .ok (a, s') := by
  cases hx : x.run s with
  | ok r => exact .of_ok hx rfl
  | error e => exact .of_error hx trivial

/-- Code that yields a result ends, whatever errors are allowed. -/
theorem of_yields (h : Yields x s P) : Ends F x s P := by
  obtain ⟨a, s', hrun, ha⟩ := h
  exact .of_ok hrun ha

/-- **What ends with a result** ends with one as `P` says. -/
theorem result {a : α} {s' : σ} (h : Ends F x s P) (hrun : x.run s = .ok (a, s')) : P a s' := by
  unfold Ends at h
  rw [hrun] at h
  exact h

/-- **What ends with a fault** ends with one as `F` says. -/
theorem fault {e : ε} (h : Ends F x s P) (hrun : x.run s = .error e) : F e := by
  unfold Ends at h
  rw [hrun] at h
  exact h

end Ends

/-- **The computation stays**: the state that it ends with, if any, stands in
the relation `R` to the state that it starts with, and a fault is as `F`
says. -/
def Stays (F : ε → Prop) (R : σ → σ → Prop) (x : StateT σ (Except ε) α) : Prop :=
  ∀ s, Ends F x s fun _ s' => R s s'

namespace Stays

variable {R : σ → σ → Prop} [IsPreorder σ R]

theorem pure (a : α) : Stays F R (Pure.pure a) := fun s => refl_of R s

/-- A transitive relation that both parts keep is kept by them in turn. -/
theorem bind {k : α → StateT σ (Except ε) β} (h : Stays F R x) (hk : ∀ a, Stays F R (k a)) :
    Stays F R (x >>= k) := fun s =>
  (h s).bind fun a s' hs => (hk a s').mono fun _ _ hs' => trans_of R hs hs'

theorem get : Stays F R (MonadState.get : StateT σ (Except ε) σ) := fun s => refl_of R s

theorem lift {r : Except ε α} (herror : ∀ e, r = .error e → F e) :
    Stays F R (liftM r : StateT σ (Except ε) α) := fun s => .lift (fun _ _ => refl_of R s) herror

omit [IsPreorder σ R] in
theorem throw {e : ε} (h : F e) : Stays F R (throw e : StateT σ (Except ε) α) := fun _ => h

end Stays

end Ends

/-! ## The body that is built -/

namespace Ir.Builder

variable {b b' : Builder}

/-! ## Judgements on code -/

open Semantics (Fault)

/-- Goes on in a fresh block, and in another one halts with the message if the
condition holds. -/
def check (b : Builder) (cond : Operand) (fail ok message : String) : Builder :=
  let (failBlock, b) := b.newBlock fail
  let (okBlock, b) := b.newBlock ok
  let b := (b.terminate (.branch cond failBlock okBlock)).switchTo failBlock
  (b.terminate (.halt message)).switchTo okBlock

/-- **A judgement on code that is added**: `J ks ks' faults b b'` says that the
body `b'` is made of `b` by code that halts for the faults, where the blocks `ks`
wait for code before, and `ks'` behind it. It holds of what code is added with. -/
class Judges (J : List BlockId → List BlockId → List Fault → Builder → Builder → Prop) :
    Prop where
  refl : ∀ ks b, J ks ks [] b b
  trans : ∀ {ks ks' ks'' faults faults' b b' b''}, J ks ks' faults b b' →
    J ks' ks'' faults' b' b'' → J ks ks'' (faults ++ faults') b b''
  mono : ∀ {ks ks' faults faults' b b'}, J ks ks' faults b b' → faults.Sublist faults' →
    J ks ks' faults' b b'
  newTemp : ∀ ks b name ty, J ks ks [] b (b.newTemp name ty).2
  append : ∀ ks b k i, J ks ks [] b (b.append k i)
  newBlock : ∀ ks b name, J ks (b.blocks.length :: ks) [] b (b.newBlock name).2
  switchTo : ∀ ks ks' b k, J (ks ++ k :: ks') (ks ++ ks') [] b (b.switchTo k)
  terminate : ∀ ks b t, (∀ message, t ≠ .halt message) → J ks ks [] b (b.terminate t)
  check : ∀ ks b cond fail ok fault, J ks ks [fault] b (b.check cond fail ok (Fault.message fault))

namespace Judges

variable (J : List BlockId → List BlockId → List Fault → Builder → Builder → Prop) [Judges J]
variable (ks : List BlockId)

theorem emit (b : Builder) (i : Instr) : J ks ks [] b (b.emit i) := by
  have hinsertion : J ks ks [] b b.insertion.2 := by
    unfold insertion
    cases b.current with
    | some k => exact refl ks b
    | none => exact trans (newBlock ks b "dead") (switchTo [] ks _ _)
  exact trans hinsertion (append ks _ _ _)

theorem comment (b : Builder) (text : String) : J ks ks [] b (b.comment text) := by
  unfold Builder.comment
  cases b.current with
  | some k => exact append ks b k _
  | none => exact refl ks b

theorem define (b : Builder) (name : String) (ty : Ty) (i : TempId → Instr) :
    J ks ks [] b (b.define name ty i).2 :=
  trans (newTemp ks b name ty) (emit J ks _ _)

theorem entryAlloca (b : Builder) (name : String) (ty : Ty) :
    J ks ks [] b (b.entryAlloca name ty).2 :=
  trans (newTemp ks b name _) (append ks _ _ _)

end Judges

/-- **A judgement on what emissions add**: it need not hold of an instruction that
goes into any block, but of one in the current block, and of a slot. -/
class Builds (J : List BlockId → List BlockId → List Fault → Builder → Builder → Prop) :
    Prop where
  refl : ∀ ks b, J ks ks [] b b
  trans : ∀ {ks ks' ks'' faults faults' b b' b''}, J ks ks' faults b b' →
    J ks' ks'' faults' b' b'' → J ks ks'' (faults ++ faults') b b''
  mono : ∀ {ks ks' faults faults' b b'}, J ks ks' faults b b' → faults.Sublist faults' →
    J ks ks' faults' b b'
  emit : ∀ ks b i, J ks ks [] b (b.emit i)
  comment : ∀ ks b text, J ks ks [] b (b.comment text)
  define : ∀ ks b name ty i, J ks ks [] b (b.define name ty i).2
  entryAlloca : ∀ ks b name ty, J ks ks [] b (b.entryAlloca name ty).2
  newBlock : ∀ ks b name, J ks (b.blocks.length :: ks) [] b (b.newBlock name).2
  switchTo : ∀ ks ks' b k, J (ks ++ k :: ks') (ks ++ ks') [] b (b.switchTo k)
  terminate : ∀ ks b t, (∀ message, t ≠ .halt message) → J ks ks [] b (b.terminate t)
  check : ∀ ks b cond fail ok fault, J ks ks [fault] b (b.check cond fail ok (Fault.message fault))

instance (J : List BlockId → List BlockId → List Fault → Builder → Builder → Prop) [Judges J] :
    Builds J where
  refl := Judges.refl
  trans := Judges.trans
  mono := Judges.mono
  emit := Judges.emit J
  comment := Judges.comment J
  define := Judges.define J
  entryAlloca := Judges.entryAlloca J
  newBlock := Judges.newBlock
  switchTo := Judges.switchTo
  terminate := Judges.terminate
  check := Judges.check

/-- A definition leaves the blocks that wait and halts for nothing. -/
theorem Builds.of_define (J : List BlockId → List BlockId → List Fault → Builder → Builder → Prop)
    [Builds J] (ks : List BlockId) {name : String} {ty : Ty} {i : TempId → Instr} {v : Operand}
    (h : b.define name ty i = (v, b')) : J ks ks [] b b' := by
  have hdefine : J ks ks [] b (b.define name ty i).2 := define ks b name ty i
  rwa [h] at hdefine

/-! ## The blocks are there -/

/-- **Blocks that are used are there**, and so are those that wait. -/
def Ranges (ks ks' : List BlockId) (b b' : Builder) : Prop :=
  b.InRange ∧ (∀ k ∈ ks, k < b.blocks.length) → b'.InRange ∧ ∀ k ∈ ks', k < b'.blocks.length

theorem Ranges.trans {ks ks' ks'' : List BlockId} {b'' : Builder} (h : Ranges ks ks' b b')
    (h' : Ranges ks' ks'' b' b'') : Ranges ks ks'' b b'' := h' ∘ h

/-- Blocks that change stay where they are. -/
theorem ranges_of_length {ks : List BlockId} (hlength : b'.blocks.length = b.blocks.length)
    (hcurrent : ∀ k, b'.current = some k → b.current = some k) : Ranges ks ks b b' :=
  fun h => ⟨⟨fun k hk => hlength ▸ h.1.current k (hcurrent k hk), hlength ▸ h.1.entry⟩,
    fun k hk => hlength ▸ h.2 k hk⟩

/-- The label of a new block is in range. -/
theorem ranges_newBlock (ks : List BlockId) (b : Builder) (name : String) :
    Ranges ks (b.blocks.length :: ks) b (b.newBlock name).2 := by
  rintro ⟨h, hks⟩
  have hlt (k) (hk : k < b.blocks.length) : k < (b.newBlock name).2.blocks.length := by
    rw [length_newBlock]
    exact Nat.lt_succ_of_lt hk
  refine ⟨⟨fun k hk => hlt k (h.current k hk), hlt 0 h.entry⟩,
    List.forall_mem_cons.2 ⟨?_, fun k hk => hlt k (hks k hk)⟩⟩
  rw [length_newBlock]
  exact Nat.lt_succ_self _

/-- The block that is gone on in is one that waits, so it is there. -/
theorem ranges_switchTo (ks ks' : List BlockId) (b : Builder) (k : BlockId) :
    Ranges (ks ++ k :: ks') (ks ++ ks') b (b.switchTo k) := by
  rintro ⟨h, hks⟩
  rw [List.forall_mem_append, List.forall_mem_cons] at hks
  obtain ⟨hks, hk, hks'⟩ := hks
  exact ⟨⟨fun _ heq => Option.some.inj heq ▸ hk, h.entry⟩, List.forall_mem_append.2 ⟨hks, hks'⟩⟩

theorem ranges_terminate (ks : List BlockId) (b : Builder) (t : Terminator) :
    Ranges ks ks b (b.terminate t) := by
  have hinsertion : Ranges ks ks b b.insertion.2 := by
    unfold insertion
    cases b.current with
    | some k => exact id
    | none => exact (ranges_newBlock ks b "dead").trans (ranges_switchTo [] ks _ _)
  exact hinsertion.trans (ranges_of_length (by simp [terminate]) fun _ h => nomatch h)

instance : Judges fun ks ks' _ => Ranges ks ks' where
  refl _ _ := id
  trans := .trans
  mono h _ := h
  newTemp _ _ _ _ := ranges_of_length rfl fun _ => id
  append _ b k i := ranges_of_length (by simp [append]) fun _ => id
  newBlock := ranges_newBlock
  switchTo := ranges_switchTo
  terminate ks b t _ := ranges_terminate ks b t
  check ks b _ fail ok _ :=
    (((((ranges_newBlock ks b fail).trans (ranges_newBlock _ _ ok)).trans
      (ranges_terminate _ _ _)).trans (ranges_switchTo [_] ks _ _)).trans
      (ranges_terminate _ _ _)).trans (ranges_switchTo [] ks _ _)

end Ir.Builder

namespace Lowering

open Ir (Operand BlockId Builder)
open Semantics (Fault)

/-! ## Emitting code -/

namespace Emit

variable {α β : Type}
variable {J : List BlockId → List BlockId → List Fault → Builder → Builder → Prop}
variable {ks : List BlockId} {faults faults' : List Fault} {fault : Fault}

variable (J) in
/-- **What the emission adds is as `J` says**, whatever body it is added to; the
blocks `l v` wait behind it if it yields `v`. -/
def Adds (ks : List BlockId) (faults : List Fault) (x : Emit α) (l : α → List BlockId) : Prop :=
  ∀ b, Ends (fun _ => True) x b fun v b' => J ks (l v) faults b b'

namespace Adds

variable {x : Emit α} {k : α → Emit β} {l : α → List BlockId} {l' : β → List BlockId}

/-- Only the runs that yield a value have to be judged. -/
theorem of_ok (h : ∀ b v b', x b = .ok (v, b') → J ks (l v) faults b b') :
    Adds J ks faults x l := fun b => (Ends.run x b).mono (h b)

variable [Builder.Builds J]

theorem pure (v : α) : Adds J (l v) [] (Pure.pure v) l := fun b => Builder.Builds.refl _ b

/-- **Emissions in turn.** -/
theorem append (h : Adds J ks faults x l) (hk : ∀ v, Adds J (l v) faults' (k v) l') :
    Adds J ks (faults ++ faults') (x >>= k) l' := fun b =>
  (h b).bind fun v b' hb' => (hk v b').mono fun _ _ => Builder.Builds.trans hb'

/-- What halts for nothing comes first. -/
theorem bind (h : Adds J ks [] x l) (hk : ∀ v, Adds J (l v) faults (k v) l') :
    Adds J ks faults (x >>= k) l' := h.append hk

/-- What halts for one fault comes first. -/
theorem halt (h : Adds J ks [fault] x l) (hk : ∀ v, Adds J (l v) faults (k v) l') :
    Adds J ks (fault :: faults) (x >>= k) l' := h.append hk

end Adds

variable [Builder.Builds J]

/-! ### Instructions -/

theorem adds_comment (text : String) : Adds J ks [] (comment text) fun _ => ks := fun b =>
  Builder.Builds.comment ks b text

theorem adds_define (name : String) (ty : Ir.Ty) (i : Ir.TempId → Ir.Instr) :
    Adds J ks [] (fun b => .ok (b.define name ty i) : Emit Operand) fun _ => ks := fun b =>
  Builder.Builds.define ks b name ty i

theorem adds_entryAlloca (name : String) (ty : Ir.Ty) :
    Adds J ks [] (entryAlloca name ty) fun _ => ks := fun b =>
  Builder.Builds.entryAlloca ks b name ty

theorem adds_emit (i : Ir.Instr) : Adds J ks [] (modify (·.emit i) : Emit PUnit) fun _ => ks :=
  fun b => Builder.Builds.emit ks b i

section Results

variable {p : Ir.Program} {b : Builder} {r : Operand × Builder} {name : String}

/-- What is loaded is a temporary of its own. -/
theorem define_of_load {addr : Operand} (h : (load p name addr).run b = .ok r) :
    ∃ ty, b.define name ty (.load · addr) = r := by
  unfold load Builder.load at h
  cases hty : b.pointee p addr with
  | error e => rw [StateT.run, hty] at h; cases h
  | ok ty => rw [StateT.run, hty] at h; exact ⟨ty, Except.ok.inj h⟩

/-- The address of an element is one definition. -/
theorem define_of_elementPtr {base : Operand} {indices : List Operand}
    (h : (elementPtr p name base indices).run b = .ok r) :
    ∃ ty, b.define name ty (.elementPtr · base indices) = r := by
  unfold elementPtr Builder.elementPtr at h
  cases hty : (b.pointee p base >>= fun ty => (indices.drop 1).foldlM (Builder.selectTy p) ty) with
  | error e => rw [StateT.run, ← bind_assoc, hty] at h; cases h
  | ok ty => rw [StateT.run, ← bind_assoc, hty] at h; exact ⟨.ptr ty, Except.ok.inj h⟩

/-- A call is one definition. -/
theorem define_of_call {callee : Operand} {args : List Operand}
    (h : (call p name callee args).run b = .ok r) :
    ∃ ty, b.define name ty (.call · callee args) = r := by
  unfold call Builder.call at h
  cases hty : b.typeOf p callee with
  | error e => rw [StateT.run, hty] at h; cases h
  | ok ty =>
    rw [StateT.run, hty] at h
    cases ty with
    | proc ret params => exact ⟨ret, Except.ok.inj h⟩
    | _ => cases h

end Results

section Program

variable (p : Ir.Program)

theorem adds_typeOf (v : Operand) : Adds J ks [] (typeOf p v) fun _ => ks :=
  .of_ok fun b ty b' h => by
    unfold typeOf at h
    cases hty : b.typeOf p v with
    | error e => rw [hty] at h; cases h
    | ok ty => rw [hty] at h; cases h; exact Builder.Builds.refl ks b

theorem adds_pointee (v : Operand) : Adds J ks [] (pointee p v) fun _ => ks :=
  .of_ok fun b ty b' h => by
    unfold pointee at h
    cases hty : b.pointee p v with
    | error e => rw [hty] at h; cases h
    | ok ty => rw [hty] at h; cases h; exact Builder.Builds.refl ks b

theorem adds_load (name : String) (addr : Operand) :
    Adds J ks [] (load p name addr) fun _ => ks := .of_ok fun _ _ _ h =>
  have ⟨_, hdefine⟩ := define_of_load h
  Builder.Builds.of_define J ks hdefine

theorem adds_elementPtr (name : String) (base : Operand) (indices : List Operand) :
    Adds J ks [] (elementPtr p name base indices) fun _ => ks := .of_ok fun _ _ _ h =>
  have ⟨_, hdefine⟩ := define_of_elementPtr h
  Builder.Builds.of_define J ks hdefine

theorem adds_call (name : String) (callee : Operand) (args : List Operand) :
    Adds J ks [] (call p name callee args) fun _ => ks := .of_ok fun _ _ _ h =>
  have ⟨_, hdefine⟩ := define_of_call h
  Builder.Builds.of_define J ks hdefine

theorem adds_cast (value : Operand) (ty : Ir.Ty) : Adds J ks [] (cast p value ty) fun _ => ks :=
  .bind (adds_typeOf p value) fun found => by
    split
    · exact .pure value
    · exact adds_define _ _ _

theorem adds_storeDefaults (object : Operand) (index : Nat) (fields : List Ir.Field) :
    Adds J ks [] (storeDefaults p object index fields) fun _ => ks := by
  induction fields generalizing index with
  | nil => exact .pure ()
  | cons field rest ih =>
    exact .bind (adds_elementPtr _ _ _ _) fun _ => .bind (adds_emit _) fun _ => ih _

end Program

/-! ### Blocks -/

theorem adds_newBlock (name : String) : Adds J ks [] (newBlock name) (· :: ks) := fun b =>
  Builder.Builds.newBlock ks b name

theorem adds_switchTo (ks : List BlockId) {k : BlockId} {ks' : List BlockId} :
    Adds J (ks ++ k :: ks') [] (switchTo k) fun _ => ks ++ ks' := fun b =>
  Builder.Builds.switchTo ks ks' b k

/-- A terminator other than a halt adds no fault. -/
theorem adds_terminate {t : Ir.Terminator} (h : ∀ message, t ≠ .halt message) :
    Adds J ks [] (terminate t) fun _ => ks := fun b => Builder.Builds.terminate ks b t h

theorem adds_jump (k : BlockId) : Adds J ks [] (terminate (.jump k)) fun _ => ks :=
  adds_terminate fun _ h => nomatch h

theorem adds_branch (cond : Operand) (yes no : BlockId) :
    Adds J ks [] (terminate (.branch cond yes no)) fun _ => ks :=
  adds_terminate fun _ h => nomatch h

theorem adds_ret (value : Operand) : Adds J ks [] (terminate (.ret value)) fun _ => ks :=
  adds_terminate fun _ h => nomatch h

theorem adds_jumpIfOpen (target : BlockId) : Adds J ks [] (jumpIfOpen target) fun _ => ks :=
  fun b => .get_bind <| by
    split
    · exact adds_jump target b
    · exact Adds.pure () b

/-- **A check** halts for its fault. -/
theorem adds_haltIf (cond : Operand) (fail ok : String) (fault : Fault) :
    Adds J ks [fault] (haltIf cond fail ok fault.message) fun _ => ks := fun b =>
  Builder.Builds.check ks b cond fail ok fault

/-- A null check adds its own fault and no other. -/
theorem adds_haltIfNull (value : Operand) (fault : Fault) :
    Adds J ks [fault] (haltIfNull value fault.message) fun _ => ks :=
  .bind (adds_define _ _ _) fun _ => adds_haltIf _ _ _ fault

variable (p : Ir.Program)

/-- **The body of an allocator of objects** halts if there is no memory. -/
theorem adds_objectBody (struct : Ir.StructId) (vtable : Ir.GlobalId) (fields : List Ir.Field) :
    Adds J ks [.outOfMemory] (objectBody p struct vtable fields) fun _ => ks :=
  .bind (adds_define _ _ _) fun _ => .halt (adds_haltIfNull _ .outOfMemory) fun _ =>
    .bind (adds_define _ _ _) fun _ => .bind (adds_elementPtr _ _ _ _) fun _ =>
    .bind (adds_emit _) fun _ => .bind (adds_storeDefaults _ _ _ _) fun _ => adds_ret _

/-- **The body of an allocator of arrays** halts for a negative size, and if there
is no memory. -/
theorem adds_arrayBody (struct : Ir.StructId) (elemTy : Ir.Ty) :
    Adds J ks [.negativeSize, .outOfMemory, .outOfMemory] (arrayBody p struct elemTy) fun _ => ks :=
  .bind (adds_define _ _ _) fun _ => .halt (adds_haltIf _ _ _ .negativeSize) fun _ =>
    .bind (adds_define _ _ _) fun _ => .halt (adds_haltIf _ _ _ .outOfMemory) fun _ =>
    .bind (adds_define _ _ _) fun _ => .bind (adds_define _ _ _) fun _ =>
    .bind (adds_define _ _ _) fun _ => .halt (adds_haltIfNull _ .outOfMemory) fun _ =>
    .bind (adds_define _ _ _) fun _ => .bind (adds_elementPtr _ _ _ _) fun _ =>
    .bind (adds_emit _) fun _ => .bind (adds_entryAlloca _ _) fun _ =>
    .bind (adds_emit _) fun _ => .bind (adds_newBlock _) fun _ =>
    .bind (adds_newBlock _) fun body => .bind (adds_newBlock _) fun done =>
    .bind (adds_jump _) fun _ => .bind (adds_switchTo [done, body]) fun _ =>
    .bind (adds_load _ _ _) fun _ => .bind (adds_define _ _ _) fun _ =>
    .bind (adds_branch _ _ _) fun _ => .bind (adds_switchTo [done]) fun _ =>
    .bind (adds_elementPtr _ _ _ _) fun _ => .bind (adds_emit _) fun _ =>
    .bind (adds_define _ _ _) fun _ => .bind (adds_emit _) fun _ =>
    .bind (adds_jump _) fun _ => .bind (adds_switchTo []) fun _ => adds_ret _

end Emit

end Lowering

end ClassLang
