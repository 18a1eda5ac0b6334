import ClassLang.Proofs.Ir.Runs
import ClassLang.Proofs.Lowering.Additions
import ClassLang.Proofs.Lowering.Messages
/-!
# Lowering — building goes on

What is emitted goes into blocks that are open, so what is there stays
(`Builder.Continues`). This holds of all that lowering adds, whatever analysis it
is done with; hence a procedure that is made of a later body is made of the
earlier ones (`continues_rvalue`). The operand that an expression yields is no
temporary that is still to come (`known_rvalue`).
-/


namespace ClassLang

namespace Ir.Builder

open Semantics (Fault)

variable {b b' : Builder} {ks ks' : List BlockId} {k : BlockId} {t : Terminator}

/-! ## What is there stays -/

/-- Opening a block to insert into keeps what the builder holds. -/
theorem into_insertion (b : Builder) : b.Into b.insertion.2 := by
  rcases b.insertion_cases with ⟨-, heq⟩ | ⟨-, -, heq⟩
  · rw [heq]
    exact .refl b
  · rw [heq]
    exact (Into.newBlock b "dead").trans (.switchTo _ _)

/-- **The block that code goes into** is open. -/
theorem Awaits.openAt (h : b.Awaits ks) : b.insertion.2.OpenAt b.insertion.1 := by
  obtain ⟨h, hcurrent⟩ := h.insertion
  exact h.opened _ (by rw [hcurrent]; exact List.mem_cons_self)

theorem Awaits.into_add (h : b.Awaits ks) (fields : List Field) (i : Instr) :
    b.Into (b.insertion.2.add fields b.insertion.1 i) := by
  obtain ⟨o, ho, hopen⟩ := h.openAt
  exact b.into_insertion.trans (.add ho (.inl hopen))

theorem Awaits.into_terminate (h : b.Awaits ks) (t : Terminator) : b.Into (b.terminate t) := by
  obtain ⟨o, ho, hopen⟩ := h.openAt
  exact b.into_insertion.trans (.close ho hopen t)

/-- A slot comes into the entry block, also behind its end. -/
theorem into_entryAlloca (b : Builder) (name : String) (ty : Ty) :
    b.Into (b.entryAlloca name ty).2 := by
  have heq : (b.entryAlloca name ty).2 = b.add [⟨name, .ptr ty⟩] 0 (.alloca b.temps.length ty) := rfl
  rw [heq]
  cases ho : b.blocks[0]? with
  -- The entry block may have got its end: slots may stand behind it.
  | some o => exact .add ho (.inr ⟨_, ty, rfl, Nat.le_refl _⟩)
  | none =>
    have hnil : b.blocks = [] := List.length_eq_zero_iff.1 (Nat.le_zero.1 (List.getElem?_eq_none_iff.1 ho))
    refine ⟨rfl, rfl, List.prefix_append _ _, fun k o ho => ?_⟩
    rw [hnil] at ho
    cases ho

/-! ## The judgement -/

/-- **Building goes on**: what is there stays, and the blocks that wait are open. -/
def Continues (ks ks' : List BlockId) (_ : List Fault) (b b' : Builder) : Prop :=
  b.Awaits ks → b'.Awaits ks' ∧ b.Into b'

variable {faults faults' : List Fault}

/-- Building goes on over two parts in turn. -/
theorem Continues.trans {ks'' : List BlockId} {b'' : Builder} (h : Continues ks ks' faults b b')
    (h' : Continues ks' ks'' faults' b' b'') :
    Continues ks ks'' (faults ++ faults') b b'' := fun hb =>
  have ⟨hb', hinto⟩ := h hb
  have ⟨hb'', hinto'⟩ := h' hb'
  ⟨hb'', hinto.trans hinto'⟩

/-- A new block waits to be gone on in. -/
theorem continues_newBlock (ks : List BlockId) (b : Builder) (name : String) :
    Continues ks (b.blocks.length :: ks) [] b (b.newBlock name).2 := fun h =>
  ⟨h.newBlock name, .newBlock b name⟩

/-- The block that is gone on in waits no longer. -/
theorem continues_switchTo (ks ks' : List BlockId) (b : Builder) (k : BlockId) :
    Continues (ks ++ k :: ks') (ks ++ ks') [] b (b.switchTo k) := fun h =>
  ⟨h.switchTo ks, .switchTo b k⟩

/-- The blocks that wait stay open when another one ends. -/
theorem continues_terminate (ks : List BlockId) (b : Builder) (t : Terminator) :
    Continues ks ks [] b (b.terminate t) := fun h => ⟨h.terminate t, h.into_terminate t⟩

/-- Both blocks of a check wait until they are gone on in. -/
theorem continues_check (ks : List BlockId) (b : Builder) (cond : Operand)
    (fail ok message : String) : Continues ks ks faults b (b.check cond fail ok message) :=
  (((((continues_newBlock ks b fail).trans (continues_newBlock _ _ ok)).trans
    (continues_terminate _ _ _)).trans (continues_switchTo [_] ks _ _)).trans
    (continues_terminate _ _ _)).trans (continues_switchTo [] ks _ _)

instance : Builds Continues where
  refl _ b h := ⟨h, .refl b⟩
  trans := .trans
  mono h _ := h
  emit ks b i h := ⟨(Builds.emit (J := HaltsFor) ks b i h).1, emit_eq b i ▸ h.into_add [] i⟩
  comment ks b text h := by
    refine ⟨(Builds.comment (J := HaltsFor) ks b text h).1, ?_⟩
    unfold Builder.comment
    split
    next k hk =>
      obtain ⟨o, ho, hopen⟩ := h.opened k (by simp [hk])
      have hadd : b.append k (.comment text) = b.add [] k (.comment text) := by simp [add, append]
      exact hadd ▸ .add ho (.inl hopen)
    next => exact .refl b
  define ks b name ty i h :=
    ⟨(Builds.define (J := HaltsFor) ks b name ty i h).1, define_eq b name ty i ▸ h.into_add _ _⟩
  entryAlloca ks b name ty h :=
    ⟨(Builds.entryAlloca (J := HaltsFor) ks b name ty h).1, b.into_entryAlloca name ty⟩
  newBlock := continues_newBlock
  switchTo := continues_switchTo
  terminate ks b t _ := continues_terminate ks b t
  check ks b cond fail ok fault := continues_check ks b cond fail ok fault.message

end Ir.Builder

namespace Lowering

open Ir (Operand Builder BlockId)
open Lower

variable (a : Typing.Analysis)

/-- **A later body** is what the code of an expression leads to. -/
theorem continues_rvalue {ks : List BlockId} {e : Source.Expr} {s s' : Body} {v : Operand}
    (h : (rvalue a e).run s = .ok (v, s')) (hs : s.builder.Awaits ks) :
    s'.builder.Awaits ks ∧ s.builder.Into s'.builder ∧ s'.line = s.line := by
  have hadds : Adds (fun _ _ => True) Builder.Continues ks s.line (e.faults s.line) (rvalue a e)
      s.line fun _ => ks := adds_rvalue a ks e
  obtain ⟨hline, hcontinues, -⟩ := (hadds s rfl).result h
  obtain ⟨hawaits, hinto⟩ := hcontinues hs
  exact ⟨hawaits, hinto, hline⟩

/-! ## Results -/

/-- Whatever the computation starts with, what it ends with is as `P` says. -/
def Always {σ ε α : Type} (P : α → σ → Prop) (x : StateT σ (Except ε) α) : Prop :=
  ∀ s, Ends (fun _ => True) x s P

namespace Always

variable {σ ε α β : Type} {P : β → σ → Prop}

/-- What comes last decides. -/
theorem bind {x : StateT σ (Except ε) α} {k : α → StateT σ (Except ε) β}
    (h : ∀ v, Always P (k v)) : Always P (x >>= k) := fun s =>
  (Ends.run x s).bind fun v s' _ => h v s'

theorem pure {v : β} (h : ∀ s, P v s) : Always P (Pure.pure v : StateT σ (Except ε) β) := h

theorem throw {e : ε} : Always P (throw e : StateT σ (Except ε) β) := fun _ => trivial

end Always

/-- The operand that code yields is no temporary that is still to come. -/
abbrev Emit.Known : Emit Operand → Prop := Always fun v b => v.Before b.temps.length

namespace Emit

/-- A temporary is defined before the next one is numbered. -/
theorem before_define {b : Builder} {name : String} {ty : Ir.Ty} {i : Ir.TempId → Ir.Instr}
    {r : Operand × Builder} (h : b.define name ty i = r) : r.1.Before r.2.temps.length := by
  subst h
  rw [Builder.define_eq]
  rintro t ht
  obtain rfl : b.temps.length = t := Operand.temp.inj ht
  simpa [Builder.add] using Nat.lt_succ_of_le b.into_insertion.temps.length_le

theorem Known.of_ok {x : Emit Operand}
    (h : ∀ b r, x.run b = .ok r → r.1.Before r.2.temps.length) : Known x := fun b =>
  (Ends.run x b).mono fun _ _ => h b _

theorem known_define (name : String) (ty : Ir.Ty) (i : Ir.TempId → Ir.Instr) :
    Known fun b => .ok (b.define name ty i) := .of_ok fun _ _ h => before_define (Except.ok.inj h)

theorem known_load (p : Ir.Program) (name : String) (addr : Operand) : Known (load p name addr) :=
  .of_ok fun _ _ h =>
    have ⟨_, hdefine⟩ := define_of_load h
    before_define hdefine

theorem known_call (p : Ir.Program) (name : String) (callee : Operand) (args : List Operand) :
    Known (call p name callee args) := .of_ok fun _ _ h =>
  have ⟨_, hdefine⟩ := define_of_call h
  before_define hdefine

end Emit

/-- The same of an expression. -/
abbrev Lower.Known : Lower Operand → Prop := Always fun v s => v.Before s.builder.temps.length

namespace Lower

/-- What an emission yields is known in a body as well. -/
theorem known_emit {x : Ir.Program → Emit Operand} (h : ∀ p, Emit.Known (x p)) :
    Known (emit x) := fun s =>
  (ends_emit (fun _ => trivial) (h s.session.ir s.builder)).mono fun _ _ ⟨_, heq, hv⟩ => heq ▸ hv

theorem known_equals (left right : Operand) : Known (equals left right) :=
  known_emit fun p => .bind fun leftTy => .bind fun rightTy => by
    split
    · exact Emit.known_define _ _ _
    · split <;> exact .bind fun _ => Emit.known_define _ _ _

theorem known_divide (left right : Operand) (pos : Option Pos) : Known (divide left right pos) :=
  .bind fun _ => known_emit fun p => .bind fun _ => .bind fun _ => .bind fun _ => .bind fun _ =>
    .bind fun _ => .bind fun _ => .bind fun _ => .bind fun _ => .bind fun _ => .bind fun _ =>
    .bind fun _ => .bind fun _ => .bind fun _ => .bind fun _ => .bind fun _ =>
    Emit.known_load p _ _

theorem known_binary (op : Source.BinaryOp) (left right : Operand) (pos : Option Pos) :
    Known (binary op left right pos) := by
  cases op with
  | div => exact known_divide left right pos
  | equals => exact known_equals left right
  | _ => exact known_emit fun _ => Emit.known_define _ _ _

theorem known_unary (op : Source.UnaryOp) (value : Operand) : Known (unary op value) := by
  cases op <;> exact known_emit fun _ => Emit.known_define _ _ _

/-- An operand that is no temporary needs no definition. -/
theorem known_of_ne_temp {v : Operand} (h : ∀ t, v ≠ .temp t) : Known (pure v) :=
  .pure fun _ t ht => absurd ht (h t)

theorem known_this : Known this := .bind fun s => by
  split
  · exact known_of_ne_temp (by simp)
  · exact .throw

end Lower

open Lower in
/-- **What an expression yields** is a constant, a parameter or a temporary that is
there. -/
theorem known_rvalue (e : Source.Expr) : Known (rvalue a e) := by
  -- The cases suffice, as the parts of the expression come before its last operation.
  cases e with
  | int | bool | null => exact known_of_ne_temp (by simp)
  | this => exact known_this
  | read => exact .bind fun _ => known_emit fun p => Emit.known_load p _ _
  | arrayLength => exact .bind fun _ => .bind fun _ => known_emit fun p => .bind fun _ =>
      Emit.known_load p _ _
  | unary => exact .bind fun _ => known_unary _ _
  | binary =>
    unfold rvalue
    split
    · exact .bind fun _ => .bind fun _ => .bind fun _ => .bind fun _ => known_emit fun p =>
        .bind fun _ => .bind fun _ => .bind fun _ => Emit.known_load p _ _
    · exact .bind fun _ => .bind fun _ => known_binary _ _ _ _
  | call m name args =>
    unfold rvalue
    refine .bind fun callee => ?_
    cases callee with
    | builtin b =>
      dsimp only
      split
      · exact .bind fun _ => .bind fun _ => known_of_ne_temp (by simp)
      · exact .throw
    | function => exact .bind fun _ => .bind fun _ => .bind fun _ => known_emit fun p =>
        Emit.known_call p _ _ _
    | method => exact .throw
  | methodCall =>
    unfold rvalue
    split
    · exact .bind fun _ => .bind fun _ => .bind fun _ => .bind fun _ => .bind fun _ =>
        known_emit fun p => .bind fun _ => .bind fun _ => .bind fun _ => .bind fun _ =>
        Emit.known_call p _ _ _
    · exact .throw
  | newObject => exact .bind fun _ => .bind fun _ => known_emit fun p => Emit.known_call p _ _ _
  | newArray => exact .bind fun _ => .bind fun _ => .bind fun _ => known_emit fun p =>
      Emit.known_call p _ _ _

end Lowering

end ClassLang
