import ClassLang.Proofs.Ir.Emissions
import ClassLang.Proofs.Lowering.Blocks
/-!
# Lowering — code that is written out

A body that has got new blocks is a `tail`: those it had, and behind them the
new ones, in one of which it goes on. What is emitted there goes into that
block, so the code that an emission adds can be written down block by block.
-/


namespace ClassLang

namespace Ir

section Modify

variable {α : Type*} {l l' : List α} {k : Nat}

theorem modify_append_left (h : k < l.length) (f : α → α) :
    (l ++ l').modify k f = l.modify k f ++ l' := by
  induction l generalizing k with
  | nil => cases h
  | cons a l ih =>
    cases k with
    | zero => rfl
    | succ k => simpa using ih (Nat.lt_of_succ_lt_succ h)

theorem modify_append_right (f : α → α) :
    (l ++ l').modify (l.length + k) f = l ++ l'.modify k f := by
  induction l with
  | nil => simp
  | cons a l ih => simpa [Nat.add_right_comm] using ih

end Modify

/-- The block with one more instruction. -/
def OpenBlock.push (o : OpenBlock) (i : Instr) : OpenBlock := { o with instrs := o.instrs ++ [i] }

/-- The block with its end. -/
def OpenBlock.seal (t : Terminator) (o : OpenBlock) : OpenBlock := { o with terminator := some t }

/-- The label of a block behind others. -/
def numbered (name : String) (k : BlockId) : String := name ++ "." ++ toString k

namespace Builder

theorem current_of_insertion {b c : Builder} {k : BlockId} (h : b.insertion = (k, c)) :
    c.current = some k ∧ c.temps = b.temps := by
  have hcurrent := b.current_insertion
  have htemps := b.temps_insertion
  rw [h] at hcurrent htemps
  exact ⟨hcurrent, htemps⟩

/-- The body with these blocks, going on in one of those behind the first. -/
def tail (b : Builder) (temps : List Field) (front back : List OpenBlock) (j : Nat) : Builder :=
  { b with temps := temps, blocks := front ++ back, current := some (front.length + j) }

variable {b : Builder} {temps : List Field} {front back : List OpenBlock} {j : Nat}

theorem tail_emit (i : Instr) : (b.tail temps front back j).emit i =
    b.tail temps front (back.modify j (·.push i)) j := by
  simp [tail, emit, insertion, append, modify_append_right, OpenBlock.push]

theorem tail_define (name : String) (ty : Ty) (i : TempId → Instr) :
    (b.tail temps front back j).define name ty i = (.temp temps.length,
      b.tail (temps ++ [⟨name, ty⟩]) front (back.modify j (·.push (i temps.length))) j) := by
  simp [tail, define, newTemp, emit, insertion, append, modify_append_right, OpenBlock.push]

theorem tail_newBlock (h : 0 < front.length) (name : String) :
    (b.tail temps front back j).newBlock name = (front.length + back.length,
      b.tail temps front (back ++ [⟨numbered name (front.length + back.length), [], none⟩]) j) := by
  simp [tail, newBlock, numbered, List.length_pos_iff.1 h]

theorem tail_entryAlloca (h : 0 < front.length) (name : String) (ty : Ty) :
    (b.tail temps front back j).entryAlloca name ty = (.temp temps.length,
      b.tail (temps ++ [⟨name, .ptr ty⟩])
        (front.modify 0 (·.push (.alloca temps.length ty))) back j) := by
  simp [tail, entryAlloca, newTemp, append, modify_append_left h, OpenBlock.push]

theorem tail_moveTo (t : Terminator) {k j' : Nat} (hk : k = front.length + j') :
    ((b.tail temps front back j).terminate t).switchTo k =
      b.tail temps front (back.modify j (.seal t)) j' := by
  subst hk
  simp only [tail, terminate, switchTo, insertion, modify_append_right]
  rfl

theorem tail_load (p : Program) (name old : String) (ty : Ty) {d : TempId}
    (hd : temps[d]? = some ⟨old, .ptr ty⟩) :
    (b.tail temps front back j).load p name (.temp d) = .ok (.temp temps.length,
      b.tail (temps ++ [⟨name, ty⟩]) front
        (back.modify j (·.push (.load temps.length (.temp d)))) j) := by
  have hpointee : (b.tail temps front back j).pointee p (.temp d) = .ok ty := by
    simp only [pointee, typeOf, tail, Program.operandTy, Program.find, hd]
    rfl
  rw [load, hpointee]
  exact congrArg Except.ok (tail_define ..)

/-- **A check** opens the blocks of a tail. -/
theorem check_eq_tail {k : BlockId} (hk : b.current = some k) (hlt : k < b.blocks.length)
    (cond : Operand) (fail ok message : String) :
    b.check cond fail ok message = b.tail b.temps
      (b.blocks.modify k (.seal (.branch cond b.blocks.length (b.blocks.length + 1))))
      [⟨numbered fail b.blocks.length, [], some (.halt message)⟩,
        ⟨numbered ok (b.blocks.length + 1), [], none⟩] 1 := by
  have hne : b.blocks.length ≠ 0 := Nat.ne_zero_of_lt hlt
  have hfail : (((b.newBlock fail).2.newBlock ok).2.terminate
      (.branch cond b.blocks.length (b.blocks.length + 1))).switchTo b.blocks.length =
      b.tail b.temps (b.blocks.modify k (.seal (.branch cond b.blocks.length (b.blocks.length + 1))))
        [⟨numbered fail b.blocks.length, [], none⟩,
          ⟨numbered ok (b.blocks.length + 1), [], none⟩] 0 := by
    simp only [newBlock, if_neg hne, List.length_append, List.length_singleton, Nat.succ_ne_zero,
      if_false, terminate, insertion, hk, switchTo, tail, List.append_assoc,
      modify_append_left hlt, List.length_modify, Nat.add_zero]
    rfl
  have hid : ((b.newBlock fail).2.newBlock ok).1 = b.blocks.length + 1 := by simp [newBlock]
  show (((((b.newBlock fail).2.newBlock ok).2.terminate (.branch cond b.blocks.length
    ((b.newBlock fail).2.newBlock ok).1)).switchTo b.blocks.length).terminate
      (.halt message)).switchTo ((b.newBlock fail).2.newBlock ok).1 = _
  rw [hid, hfail]
  exact tail_moveTo _ (by rw [List.length_modify])

end Builder

end Ir

namespace Lowering.Emit

open Ir (Operand BinOp BlockId Terminator Builder OpenBlock TempId numbered)

variable {b : Builder} {temps : List Ir.Field} {front back : List OpenBlock} {j : Nat}

theorem ok_bind {ε α β : Type} (a : α) (k : α → Except ε β) : (Except.ok a >>= k) = k a := rfl

theorem run_binary_tail (name : String) (op : BinOp) (lhs rhs : Operand) :
    (binary name op lhs rhs).run (b.tail temps front back j) = .ok (.temp temps.length,
      b.tail (temps ++ [⟨name, op.resultTy⟩]) front
        (back.modify j (·.push (.binary temps.length op lhs rhs))) j) :=
  congrArg Except.ok (Builder.tail_define ..)

theorem run_store_tail (addr value : Operand) :
    (store addr value).run (b.tail temps front back j) =
      .ok ((), b.tail temps front (back.modify j (·.push (.store addr value))) j) :=
  congrArg (fun b => Except.ok ((), b)) (Builder.tail_emit _)

theorem run_newBlock_tail (h : 0 < front.length) (name : String) :
    (newBlock name).run (b.tail temps front back j) = .ok (front.length + back.length,
      b.tail temps front (back ++ [⟨numbered name (front.length + back.length), [], none⟩]) j) :=
  congrArg Except.ok (Builder.tail_newBlock h name)

theorem run_entryAlloca_tail (h : 0 < front.length) (name : String) (ty : Ir.Ty) :
    (entryAlloca name ty).run (b.tail temps front back j) = .ok (.temp temps.length,
      b.tail (temps ++ [⟨name, .ptr ty⟩])
        (front.modify 0 (·.push (.alloca temps.length ty))) back j) :=
  congrArg Except.ok (Builder.tail_entryAlloca h name ty)

/-- The end of a block, and on in another one. -/
theorem run_moveTo_tail {α : Type} {k : BlockId} (hk : front.length ≤ k) (t : Terminator)
    (x : PUnit × Builder → Except Ir.Error α) :
    ((terminate t).run (b.tail temps front back j) >>= fun r => (switchTo k).run r.2 >>= x) =
      x ((), b.tail temps front (back.modify j (.seal t)) (k - front.length)) :=
  congrArg (fun b => x ((), b)) (Builder.tail_moveTo t (Nat.add_sub_cancel' hk).symm)

/-- **A comparison and a check for it**, wherever the body goes on, open the
blocks of a tail. -/
theorem run_check {α : Type} {c : Builder} {k : BlockId} (hc : b.insertion = (k, c))
    (hk : k < c.blocks.length) (name : String) (op : BinOp) (lhs rhs : Operand)
    (fail ok message : String) (x : PUnit × Builder → Except Ir.Error α) :
    ((binary name op lhs rhs).run b >>= fun r => (haltIf r.1 fail ok message).run r.2 >>= x) =
      x ((), c.tail (c.temps ++ [⟨name, op.resultTy⟩])
        ((c.blocks.modify k (·.push (.binary c.temps.length op lhs rhs))).modify k
          (.seal (.branch (.temp c.temps.length) c.blocks.length (c.blocks.length + 1))))
        [⟨numbered fail c.blocks.length, [], some (.halt message)⟩,
          ⟨numbered ok (c.blocks.length + 1), [], none⟩] 1) := by
  obtain ⟨hcurrent, htemps⟩ := Builder.current_of_insertion hc
  have hbinary : b.binary name op lhs rhs = (.temp c.temps.length,
      c.add [⟨name, op.resultTy⟩] k (.binary c.temps.length op lhs rhs)) := by
    rw [htemps]
    refine Prod.ext rfl ?_
    rw [Builder.binary, Builder.define_eq, hc]
  have hlength : (c.add [⟨name, op.resultTy⟩] k
      (.binary c.temps.length op lhs rhs)).blocks.length = c.blocks.length := List.length_modify ..
  show x ((), (b.binary name op lhs rhs).2.check (b.binary name op lhs rhs).1 fail ok message) = _
  have hcheck := Builder.check_eq_tail
    (b := c.add [⟨name, op.resultTy⟩] k (.binary c.temps.length op lhs rhs)) hcurrent
    (hlength ▸ hk) (.temp c.temps.length) fail ok message
  rw [hlength] at hcheck
  rw [hbinary]
  exact congrArg (fun b => x ((), b)) hcheck

end Lowering.Emit

end ClassLang
