import ClassLang.Lowering.Expr
import ClassLang.Proofs.Lowering.Listings
import ClassLang.Proofs.Lowering.Quotients
/-!
# Lowering — division

The code of a quotient is written out block by block (`quotientBody`), as it is
added to any body, whether a block of it is open or not (`Lower.run_divide`).
Whatever procedure is made of the body has that code (`quotient_of_covers`), so
the quotient is that of the integers, truncated and reduced, or the machine halts
for a divisor that is zero (`division_total`). The slot that the quotient goes
through has to be there when the code is come to, which it is in all that a run
reaches (`Reaches.slotted`).
-/


namespace ClassLang

namespace Ir

section Covers

variable {q : Proc} {b : Builder} {pt : Point} {i : Instr} {o : OpenBlock} {t : Terminator}

/-- An instruction of the body is one of the procedure. -/
theorem Proc.Covers.instr? {k index : Nat} (hq : q.Covers b) (ho : b.blocks[k]? = some o)
    (hi : o.instrs[index]? = some i) : q.instr? k index = some i := by
  obtain ⟨o', more, ho', hinstrs, -⟩ := hq k o ho
  rw [Proc.instr?, ho', Option.bind_some, hinstrs,
    List.getElem?_append_left (List.getElem?_eq_some_iff.1 hi).1, hi]

/-- So is the end of a block, behind which there are newer slots only. -/
theorem Proc.Covers.ends (hq : q.Covers b) (ho : b.blocks[pt.block]? = some o)
    (ht : o.terminator = some t) (hindex : pt.index ≤ o.instrs.length)
    (hslots : ∀ i ∈ o.instrs.drop pt.index, i.SlotFrom pt.temps) (htemps : pt.temps ≤ b.temps.length) :
    q.Ends pt t := by
  obtain ⟨o', more, ho', hinstrs, hend⟩ := hq pt.block o ho
  obtain ⟨ht', hmore⟩ := hend t ht
  refine ⟨o', ho', ht', by rw [hinstrs, List.length_append]; omega, fun i hi => ?_⟩
  rw [hinstrs, List.drop_append_of_le_length hindex, List.mem_append] at hi
  exact hi.elim (hslots i) fun hi => (hmore i hi).mono htemps

theorem Proc.Covers.ends_last (hq : q.Covers b) (ho : b.blocks[pt.block]? = some o)
    (ht : o.terminator = some t) (hindex : pt.index = o.instrs.length)
    (htemps : pt.temps ≤ b.temps.length) : q.Ends pt t :=
  hq.ends ho ht (Nat.le_of_eq hindex) (by rw [hindex, List.drop_length]; simp) htemps

end Covers

end Ir

namespace Lowering

open Ir (Operand BlockId Builder OpenBlock Instr Terminator TempId Proc Point numbered)
open Semantics (Fault)

/-! ## The code of a quotient -/

section Code

variable (left right : Operand) (message : String)

/-- The temporaries of a quotient. -/
def quotientTemps : List Ir.Field :=
  [⟨"is_zero", .bool⟩, ⟨"quotient", .ptr .int⟩, ⟨"is_minus_one", .bool⟩, ⟨"is_min", .bool⟩,
    ⟨"overflow", .bool⟩, ⟨"quotient", .int⟩, ⟨"quotient", .int⟩]

/-- The blocks of a body where a quotient starts, with so many temporaries: the
block that it starts in ends with the check, and its slot is in the entry. -/
def quotientFront (blocks : List OpenBlock) (k : BlockId) (n : TempId) : List OpenBlock :=
  ((blocks.modify k (·.push (.binary n .eq right (.int 0)))).modify k
    (.seal (.branch (.temp n) blocks.length (blocks.length + 1)))).modify 0
      (·.push (.alloca (n + 1) .int))

/-- The blocks that it adds behind so many. -/
def quotientBlocks (n : TempId) (k : BlockId) : List OpenBlock :=
  [⟨numbered "div_by_zero" k, [], some (.halt message)⟩,
    ⟨numbered "div_nonzero" (k + 1), [.store (.temp (n + 1)) (.int Int32.minValue),
      .binary (n + 2) .eq right (.int (-1)), .binary (n + 3) .eq left (.int Int32.minValue),
      .binary (n + 4) .and (.temp (n + 3)) (.temp (n + 2))],
      some (.branch (.temp (n + 4)) (k + 3) (k + 2))⟩,
    ⟨numbered "div" (k + 2), [.binary (n + 5) .div left right,
      .store (.temp (n + 1)) (.temp (n + 5))], some (.jump (k + 3))⟩,
    ⟨numbered "div_end" (k + 3), [.load (n + 6) (.temp (n + 1))], none⟩]

/-- **The body behind a quotient** that starts in a block of it. -/
def quotientBody (c : Builder) (k : BlockId) : Builder :=
  c.tail (c.temps ++ quotientTemps) (quotientFront right c.blocks k c.temps.length)
    (quotientBlocks left right message c.temps.length c.blocks.length) 3

end Code

section Emitted

variable {b c : Builder} {k : BlockId} {left right : Operand}

theorem Lower.run_emit {s : Body} {x : Ir.Program → Emit Operand} {v : Operand}
    (h : (x s.session.ir).run s.builder = .ok (v, b)) :
    (Lower.emit x).run s = .ok (v, { s with builder := b }) := by
  show (ofIr ((x s.session.ir).run s.builder) >>= fun r => _) = _
  rw [h]
  rfl

/-- **The code of a quotient**, block by block. -/
theorem Lower.run_divide {s : Body} (hc : s.builder.insertion = (k, c)) (hk : k < c.blocks.length)
    (left right : Operand) (pos : Option Pos) :
    (Lower.divide left right pos).run s = .ok (.temp (c.temps.length + 6), { s with
      builder := quotientBody left right
        (Fault.divisionByZero (Semantics.lineOf s.line pos)).message c k }) := by
  have hline : (Lower.lineOf pos).run s = .ok (Semantics.lineOf s.line pos, s) := rfl
  have h0 : 0 < c.blocks.length := Nat.zero_lt_of_lt hk
  rw [Lower.divide, StateT.run_bind, hline, Emit.ok_bind]
  refine Lower.run_emit ?_
  simp only [StateT.run_bind, Emit.run_check hc hk, Emit.ok_bind, Emit.run_binary_tail,
    Emit.run_store_tail, Emit.run_newBlock_tail, Emit.run_entryAlloca_tail, Emit.run_moveTo_tail,
    h0, List.length_append, List.length_cons, List.length_nil, List.length_modify,
    Nat.le_add_right, Nat.add_sub_cancel_left]
  refine (Builder.tail_load _ "quotient" "quotient" .int (by simp)).trans ?_
  simp only [List.append_assoc, List.length_append, List.length_cons, List.length_nil]
  rfl

section Blocks

variable (left right : Operand) (message : String)

theorem length_quotientFront (blocks : List OpenBlock) (k : BlockId) (n : TempId) :
    (quotientFront right blocks k n).length = blocks.length := by
  simp [quotientFront]

/-- The blocks behind those of the body. -/
theorem newBlock_quotientBody (i : Nat) :
    (quotientBody left right message c k).blocks[c.blocks.length + i]? =
      (quotientBlocks left right message c.temps.length c.blocks.length)[i]? := by
  show (_ ++ _)[_]? = _
  rw [List.getElem?_append_right (by rw [length_quotientFront]; exact Nat.le_add_right _ _),
    length_quotientFront, Nat.add_sub_cancel_left]

theorem oldBlock_quotientBody {j : Nat} (hj : j < c.blocks.length) :
    (quotientBody left right message c k).blocks[j]? =
      (quotientFront right c.blocks k c.temps.length)[j]? :=
  List.getElem?_append_left (by rwa [length_quotientFront])

/-- Where the body goes on. -/
theorem here?_quotientBody : (quotientBody left right message c k).here? =
    some ⟨c.temps.length + 7, c.blocks.length + 3, 1⟩ := by
  have hcurrent : (quotientBody left right message c k).current = some (c.blocks.length + 3) := by
    rw [← length_quotientFront right c.blocks k c.temps.length]
    rfl
  rw [Builder.here?, hcurrent, Option.map_some, newBlock_quotientBody]
  simp [quotientBody, Builder.tail, quotientTemps, quotientBlocks]

/-- The block that the quotient starts in. -/
theorem first_quotientBody {o : OpenBlock} (ho : c.blocks[k]? = some o) :
    ∃ slots : List Instr, (quotientBody left right message c k).blocks[k]? = some ⟨o.name,
      o.instrs ++ Instr.binary c.temps.length .eq right (.int 0) :: slots,
      some (.branch (.temp c.temps.length) c.blocks.length (c.blocks.length + 1))⟩ ∧
      ∀ i ∈ slots, i.SlotFrom (c.temps.length + 1) := by
  rw [oldBlock_quotientBody _ _ _ (List.getElem?_eq_some_iff.1 ho).1]
  by_cases h0 : k = 0
  · subst h0
    exact ⟨[.alloca (c.temps.length + 1) .int],
      by simp [quotientFront, ho, OpenBlock.push, OpenBlock.seal],
      List.forall_mem_singleton.2 ⟨_, _, rfl, Nat.le_refl _⟩⟩
  · exact ⟨[], by simp [quotientFront, ho, OpenBlock.push, OpenBlock.seal, Ne.symm h0], by simp⟩

/-- The slot of the quotient. -/
theorem slot_quotientBody (h0 : 0 < c.blocks.length) : ∃ (o : OpenBlock) (index : Nat),
    (quotientBody left right message c k).blocks[0]? = some o ∧
      o.instrs[index]? = some (Instr.alloca (c.temps.length + 1) .int) := by
  rw [oldBlock_quotientBody _ _ _ h0, quotientFront]
  generalize hl : (c.blocks.modify k _).modify k _ = blocks
  have hlt : 0 < blocks.length := by rw [← hl]; simpa using h0
  refine ⟨blocks[0].push (.alloca (c.temps.length + 1) .int), blocks[0].instrs.length, ?_, ?_⟩
  · simp [List.getElem?_eq_getElem hlt]
  · simp [OpenBlock.push]

end Blocks

/-- **A procedure made of the body has the code of the quotient.** -/
theorem quotient_of_covers {message : String} {q : Proc} {o : OpenBlock} (ho : c.blocks[k]? = some o)
    (hq : q.Covers (quotientBody left right message c k)) :
    q.Quotient left right message ⟨c.temps.length, k, o.instrs.length⟩
      (.temp (c.temps.length + 6)) ⟨c.temps.length + 7, c.blocks.length + 3, 1⟩ := by
  have h0 : 0 < c.blocks.length := Nat.zero_lt_of_lt (List.getElem?_eq_some_iff.1 ho).1
  have htemps : (quotientBody left right message c k).temps.length = c.temps.length + 7 :=
    List.length_append
  have hnew (i : Nat) := newBlock_quotientBody (k := k) (c := c) left right message i
  obtain ⟨slots, hfirst, hslots⟩ := first_quotientBody left right message ho
  obtain ⟨entry, index, hentry, hslot⟩ := slot_quotientBody (k := k) left right message h0
  have hcheck : q.HaltsIf (.temp c.temps.length) message
      ⟨c.temps.length + 1, k, o.instrs.length + 1⟩ ⟨c.temps.length + 1, c.blocks.length + 1, 0⟩ := by
    refine .mk (hq.ends hfirst rfl (by simp) (by simpa using hslots) ?_)
      (hq.ends_last (hnew 0) rfl rfl ?_) (Nat.ne_of_gt h0) (Nat.succ_ne_zero _)
    all_goals exact htemps ▸ Nat.le_add_right _ 6
  exact .mk ⟨hq.instr? hfirst (by simp), rfl, rfl⟩ hcheck
    (.inr ⟨Nat.succ_ne_zero _, ⟨index, hq.instr? hentry hslot⟩, rfl⟩) ⟨hq.instr? (hnew 1) rfl, rfl⟩
    ⟨hq.instr? (hnew 1) rfl, rfl, rfl⟩ ⟨hq.instr? (hnew 1) rfl, rfl, rfl⟩
    ⟨hq.instr? (hnew 1) rfl, rfl, rfl⟩
    (hq.ends_last (hnew 1) rfl rfl (htemps ▸ Nat.le_add_right _ 2)) (Nat.succ_ne_zero _)
    (Nat.succ_ne_zero _) ⟨hq.instr? (hnew 2) rfl, rfl, rfl⟩ ⟨hq.instr? (hnew 2) rfl, rfl⟩
    (hq.ends_last (hnew 2) rfl rfl (htemps ▸ Nat.le_add_right _ 1))
    ⟨hq.instr? (hnew 3) rfl, rfl, rfl⟩

end Emitted

/-! ## What it does -/

theorem lt_of_insertion {b c : Builder} {k : BlockId} (hb : b.InRange)
    (hc : b.insertion = (k, c)) : k < c.blocks.length := by
  obtain ⟨o, ho⟩ := hb.insertion
  rw [hc] at ho
  exact (List.getElem?_eq_some_iff.1 ho).1

theorem before_of_typeOf {b : Builder} {p : Ir.Program} {v : Operand} {ty : Ir.Ty}
    (h : b.typeOf p v = .ok ty) : v.Before b.temps.length := by
  rintro t rfl
  refine Nat.lt_of_not_le fun hle => ?_
  rw [Builder.typeOf, Ir.Program.operandTy, Ir.Program.find, List.getElem?_eq_none hle] at h
  cases h

/-- **A quotient is total**: wherever a body goes on, the code of a quotient of
two integers halts with its message if the divisor is zero. Otherwise the machine
goes on behind it with the quotient of the integers, truncated toward zero and
reduced. It never divides by zero nor with an overflow, and all that changes is
the slot of the quotient. -/
theorem division_total {s : Body} (hs : s.builder.InRange) {left right : Operand}
    (hleft : s.builder.typeOf s.session.ir left = .ok .int)
    (hright : s.builder.typeOf s.session.ir right = .ok .int) (pos : Option Pos) :
    ∃ v s' pt pt', (Lower.divide left right pos).run s = .ok (v, s') ∧
      s.builder.insertion.2.here? = some pt ∧ s'.builder.here? = some pt' ∧
      ∀ q : Proc, q.Covers s'.builder → ∀ (p : Ir.Program) (grant : Nat → Bool) (m : Ir.State)
        (l r : Int32), m.At p q pt → m.HasSlot q pt (pt.temps + 1) →
        m.frame.eval? p left = some (.int l) → m.frame.eval? p right = some (.int r) →
        if r = 0 then
          Ir.HaltsAfter p grant (Ir.State.Within p m.callers) [] m
            (Fault.divisionByZero (Semantics.lineOf s.line pos)).message
        else
          ∃ log m' c, Ir.Passes p grant q (· < pt.temps) log m pt' m' ∧
            m'.frame.eval? p v = some (.int (Int32.ofInt (l.toInt.tdiv r.toInt))) ∧
            (m.SlotAt (pt.temps + 1) c ∨ m.memory.length ≤ c) ∧ m'.SlotAt (pt.temps + 1) c ∧
            (∀ o < m.memory.length, o ≠ c → m'.memory[o]? = m.memory[o]?) ∧
            m'.requests = m.requests := by
  -- `k` is the block the code goes into: the current one, or a new one if that is closed.
  obtain ⟨⟨k, c⟩, hc⟩ : ∃ r, s.builder.insertion = r := ⟨_, rfl⟩
  have hk := lt_of_insertion hs hc
  obtain ⟨hcurrent, htemps⟩ := Builder.current_of_insertion hc
  have ho := List.getElem?_eq_getElem hk
  refine ⟨_, _, ⟨c.temps.length, k, c.blocks[k].instrs.length⟩,
    ⟨c.temps.length + 7, c.blocks.length + 3, 1⟩, Lower.run_divide hc hk left right pos, ?_, ?_,
    fun q hq p grant m l r hm hslot hl hr => ?_⟩
  · simp [hc, Builder.here?, hcurrent, ho]
  · exact here?_quotientBody left right _
  · have h := hm.divides grant (quotient_of_covers ho hq) (htemps ▸ before_of_typeOf hleft)
      (htemps ▸ before_of_typeOf hright) hl hr hslot
    split
    next hzero => rwa [if_pos hzero] at h
    next hzero =>
      rw [if_neg hzero] at h
      obtain ⟨o, log, m', hpass, hlog, hold, hnew, hv⟩ := h
      refine ⟨log, m', o, hpass, Ir.div_eq_ofInt_tdiv l r ▸ hv, hold, hnew, fun o' ho' hne => ?_, ?_⟩
      · refine hpass.logs.accounts.kept o' ho' fun path value hmem => ?_
        obtain ⟨x, hx⟩ := hlog _ hmem
        obtain ⟨hx, -⟩ := Ir.Access.write.inj hx
        exact hne (congrArg Ir.Addr.object hx)
      · rw [hpass.logs.accounts.requests, List.countP_eq_zero.2 fun a ha => ?_]
        · rfl
        · obtain ⟨x, rfl⟩ := hlog a ha
          exact Bool.false_ne_true

/-- A body that has two integers, where nothing was added. -/
def twoIntegers : Body :=
  ⟨.start, .start [⟨"left", .int⟩, ⟨"right", .int⟩] .int, [], false, 1⟩

/-- The procedure that divides the one by the other. -/
def divider : Proc :=
  let b := quotientBody (.param 0) (.param 1) (Fault.divisionByZero 1).message
    twoIntegers.builder 0
  ⟨"divide", .int, b.params, b.temps, b.blocks.map (Builder.OpenBlock.close "")⟩

theorem division_total_least : ∃ v pt' log m', Ir.Passes ⟨[], [], [divider]⟩ (fun _ => true)
    divider (· < 0) log (.call [] 0 [.int Int32.minValue, .int (-1)]) pt' m' ∧
      m'.frame.eval? ⟨[], [], [divider]⟩ v = some (.int Int32.minValue) := by
  have hleft : twoIntegers.builder.typeOf twoIntegers.session.ir (.param 0) = .ok .int := rfl
  have hright : twoIntegers.builder.typeOf twoIntegers.session.ir (.param 1) = .ok .int := rfl
  have hcloses : divider.Closes (quotientBody (.param 0) (.param 1)
      (Fault.divisionByZero 1).message twoIntegers.builder 0) "" := ⟨rfl, rfl, rfl, rfl⟩
  obtain ⟨v, s', pt, pt', hrun, hpt, -, h⟩ :=
    division_total (Builder.inRange_start _ _) hleft hright none
  obtain ⟨-, rfl⟩ := Prod.mk.inj (Except.ok.inj (hrun.symm.trans
    (Lower.run_divide (s := twoIntegers) (k := 0) rfl Nat.one_pos (.param 0) (.param 1) none)))
  obtain rfl := Option.some.inj hpt
  have h := h divider hcloses.covers ⟨[], [], [divider]⟩ (fun _ => true)
    (.call [] 0 [.int Int32.minValue, .int (-1)]) Int32.minValue (-1) ⟨rfl, rfl, rfl⟩
    (fun ⟨_, _, _, hj⟩ => absurd (hj rfl) (Nat.not_lt_zero _)) rfl rfl
  rw [if_neg (by decide)] at h
  obtain ⟨log, m', _, hpass, hv, -⟩ := h
  exact ⟨v, pt', log, m', hpass, hv⟩

end Lowering

end ClassLang
