import ClassLang.Proofs.Ir.Slots
import ClassLang.Proofs.Lowering.Passages
/-!
# Lowering — passing a quotient

What the code of a quotient does, wherever it stands and whatever the operands
are (`State.At.divides`): it halts if the divisor is zero, and otherwise passes
with the quotient. The quotient goes through a slot, since two ways lead to the
end: the least integer is written to it before the test for the one overflow
that there is, and what is divided after it.
-/


namespace ClassLang.Ir

variable {p : Program} {grant : Nat → Bool} {q : Proc} {m m' : State} {pt pt' : Point}
variable {left right v : Operand} {message : String} {l r : Int32}

/-- The quotient, truncated toward zero and reduced to the integers. -/
theorem div_eq_ofInt_tdiv (l r : Int32) : l / r = Int32.ofInt (l.toInt.tdiv r.toInt) := by
  rw [← Int32.toInt_inj, Int32.toInt_div, Int32.toInt_ofInt]

/-- **A slot of its own** is there behind the check, made before or behind it. -/
theorem State.At.branches_slot {cond : Operand} {d : TempId} {ty : Ty} {yes no : BlockId} {b : Bool}
    {j : Nat} (hs : m.At p q pt) (hends : q.Ends pt (.branch cond yes no))
    (hcond : m.frame.eval? p cond = some (.bool b)) (hbefore : cond.Before pt.temps)
    (hslot : q.instr? 0 j = some (.alloca d ty)) (hhas : m.HasSlot q pt d) :
    ∃ m' c, Passes p grant q (· < pt.temps) [] m (pt.enter (if b then yes else no)) m' ∧
      m'.SlotAt d c ∧ c < m'.memory.length ∧ (m.SlotAt d c ∨ m.memory.length ≤ c) := by
  by_cases hbehind : q.SlotBehind pt d
  · obtain ⟨m', hpass, hnew⟩ := hs.branches grant hends hcond hbefore hends.spares
    obtain ⟨c, hc, hc', hat⟩ := hnew d hbehind
    exact ⟨m', c, hpass, hat, hc', .inr hc⟩
  · have hK : q.Spares pt fun t => t < pt.temps ∨ t = d :=
      hends.spares.or fun _ he heq => hbehind (heq ▸ he)
    obtain ⟨c, hc, hat⟩ := hhas ⟨j, ty, hslot, fun h0 => Nat.lt_of_not_le fun hle =>
      hbehind ⟨j, ty, hle, h0 ▸ hslot⟩⟩
    obtain ⟨m', hpass, -⟩ := hs.branches grant hends hcond hbefore hK
    exact ⟨m', c, hpass.mono fun _ => .inl, (hpass.temps d (.inr rfl)).trans hat,
      Nat.lt_of_lt_of_le hc hpass.logs.accounts.length, .inl hat⟩

section Nonzero

variable {n c : Nat} {pt₁ pt₂ pt₃ pt₄ : Point} {isMinusOne isMin overflow quotient : Operand}
variable {division done : BlockId}

variable (grant) in
/-- **The overflow test** leads to the end of the division if there is an
overflow, and to the instruction if there is none. -/
theorem State.At.testsOverflow (hs : m.At p q pt)
    (hminus : q.Defines (.binary · .eq right (.int (-1))) pt isMinusOne pt₁)
    (hisMin : q.Defines (.binary · .eq left (.int Int32.minValue)) pt₁ isMin pt₂)
    (hoverflow : q.Defines (.binary · .and isMin isMinusOne) pt₂ overflow pt₃)
    (hbranch : q.Ends pt₃ (.branch overflow done division)) (hl : left.Before pt.temps)
    (hleft : m.frame.eval? p left = some (.int l)) (hright : m.frame.eval? p right = some (.int r)) :
    ∃ m', Passes p grant q (· < pt.temps) [] m
      (pt₃.enter (if l = Int32.minValue ∧ r = -1 then done else division)) m' := by
  obtain ⟨m₁, h₁, hx⟩ := hs.operates grant (K := (· < pt.temps)) hminus hright rfl rfl
    (fun _ _ _ _ => trivial) (Nat.lt_irrefl _)
  obtain ⟨-, rfl, rfl⟩ := hminus
  obtain ⟨m₂, h₂, hy⟩ := h₁.at_.operates grant (K := (· < pt.temps + 1)) hisMin
    ((h₁.eval? hl).trans hleft) rfl rfl (fun _ _ _ _ => trivial) (Nat.lt_irrefl _)
  obtain ⟨-, rfl, rfl⟩ := hisMin
  have hx := (h₂.eval? (v := .temp pt.temps) (by rintro _ ⟨⟩; exact Nat.lt_succ_self _)).trans hx
  obtain ⟨m₃, h₃, hz⟩ := h₂.at_.operates grant (K := (· < pt.temps + 2)) hoverflow
    hy hx rfl (fun _ _ _ _ => trivial) (Nat.lt_irrefl _)
  obtain ⟨-, rfl, rfl⟩ := hoverflow
  obtain ⟨m₄, h₄, -⟩ := h₃.at_.branches grant (K := (· < pt.temps + 3)) hbranch hz
    (by rintro _ ⟨⟩; exact Nat.lt_succ_self _) hbranch.spares
  have h := ((h₁.then_ h₂ (Nat.le_succ _)).then_ h₃ (Nat.le_add_right _ 2)).then_ h₄
    (Nat.le_add_right _ 3)
  exact ⟨m₄, by simpa using h⟩

variable (grant) in
/-- **The division itself**, whose quotient goes to the slot. -/
theorem State.At.dividesExactly (hs : m.At p q pt)
    (hquotient : q.Defines (.binary · .div left right) pt quotient pt₁)
    (hstore : q.Stores (.temp n) quotient pt₁ pt₂) (hjump : q.Ends pt₂ (.jump done))
    (hleft : m.frame.eval? p left = some (.int l)) (hright : m.frame.eval? p right = some (.int r))
    (hn : n < pt.temps) (hslot : m.SlotAt n c) (hc : c < m.memory.length) (hzero : r ≠ 0)
    (hover : ¬ (l = Int32.minValue ∧ r = -1)) :
    ∃ m', Passes p grant q (· < pt.temps) [.write ⟨c, []⟩ (.int (l / r))] m (pt₂.enter done) m' ∧
      m'.memory[c]? = some (.scalar (.int (l / r))) := by
  have hop : BinOp.eval? .div (.int l) (.int r) = some (.int (l / r)) :=
    if_neg (not_or.2 ⟨hzero, hover⟩)
  obtain ⟨m₁, h₁, hx⟩ := hs.operates grant (K := (· < pt.temps)) hquotient hleft hright hop
    (by rintro _ _ ⟨⟩ ⟨⟩; exact ⟨hzero, hover⟩) (Nat.lt_irrefl _)
  have hc := Nat.lt_of_lt_of_le hc h₁.logs.accounts.length
  obtain ⟨-, rfl, rfl⟩ := hquotient
  obtain ⟨m₂, h₂, hcell⟩ := h₁.at_.writes grant (K := (· < pt.temps)) hstore
    ((h₁.temps n hn).trans hslot) hx (List.getElem?_eq_getElem hc)
  obtain rfl := hstore.2
  obtain ⟨m₃, h₃, -⟩ := h₂.at_.jumps grant (K := (· < pt.temps + 1)) hjump hjump.spares
  exact ⟨m₃, (h₁.trans h₂).then_ h₃ (Nat.le_succ _), h₃.held hcell (by simp)⟩

variable (grant) in
/-- **The quotient by a divisor that is not zero**, once there is a slot for it:
the least integer, which is there from the start, or what is divided. -/
theorem State.At.dividesNonzero {pt₅ pt₆ : Point} (hs : m.At p q pt)
    (hmin : q.Stores (.temp n) (.int Int32.minValue) pt pt₁)
    (hminus : q.Defines (.binary · .eq right (.int (-1))) pt₁ isMinusOne pt₂)
    (hisMin : q.Defines (.binary · .eq left (.int Int32.minValue)) pt₂ isMin pt₃)
    (hoverflow : q.Defines (.binary · .and isMin isMinusOne) pt₃ overflow pt₄)
    (hbranch : q.Ends pt₄ (.branch overflow done division))
    (hquotient : q.Defines (.binary · .div left right) (pt₄.enter division) quotient pt₅)
    (hstore : q.Stores (.temp n) quotient pt₅ pt₆) (hjump : q.Ends pt₆ (.jump done))
    (hload : q.Defines (.load · (.temp n)) (pt₆.enter done) v pt')
    (hn : n < pt.temps) (hl : left.Before pt.temps) (hr : right.Before pt.temps)
    (hleft : m.frame.eval? p left = some (.int l)) (hright : m.frame.eval? p right = some (.int r))
    (hslot : m.SlotAt n c) (hc : c < m.memory.length) (hzero : r ≠ 0) :
    ∃ log m', Passes p grant q (· < pt.temps) log m pt' m' ∧
      (∀ a ∈ log, ∃ x, a = .write ⟨c, []⟩ x) ∧ m'.frame.eval? p v = some (.int (l / r)) := by
  obtain ⟨m₁, h₁, hcell⟩ := hs.writes grant (K := (· < pt.temps)) hmin hslot rfl
    (List.getElem?_eq_getElem hc)
  obtain rfl := hmin.2
  obtain ⟨m₂, h₂⟩ := h₁.at_.testsOverflow grant hminus hisMin hoverflow hbranch hl
    ((h₁.eval? hl).trans hleft) ((h₁.eval? hr).trans hright)
  have hcell := h₂.held hcell (by simp)
  obtain ⟨-, rfl, rfl⟩ := hminus
  obtain ⟨-, rfl, rfl⟩ := hisMin
  obtain ⟨-, rfl, rfl⟩ := hoverflow
  have htemps : pt₆.temps = pt.temps + 4 := by rw [hstore.2, hquotient.2.2]; rfl
  have h := h₁.trans h₂
  have hslot₂ := (h.temps n hn).trans hslot
  -- Both ways lead to the read, with the quotient in the slot.
  suffices ∃ log m', Passes p grant q (· < pt.temps) log m (pt₆.enter done) m' ∧
      (∀ a ∈ log, ∃ x, a = .write ⟨c, []⟩ x) ∧ m'.memory[c]? = some (.scalar (.int (l / r))) by
    obtain ⟨log, m₃, h₃, hlog, hcell⟩ := this
    obtain ⟨m₄, h₄, hx⟩ := h₃.at_.loads grant (K := (· < pt.temps)) hload
      ((h₃.temps n hn).trans hslot) hcell rfl (by show ¬ pt₆.temps < pt.temps; omega)
    exact ⟨log ++ [], m₄, h₃.trans h₄, by simpa using hlog, hx⟩
  by_cases hover : l = Int32.minValue ∧ r = -1
  · rw [if_pos hover] at h
    have hquotient : l / r = Int32.minValue := by rw [hover.1, hover.2]; rfl
    exact ⟨_, m₂, h.at_temps pt₆.temps, by simp, hquotient ▸ hcell⟩
  · rw [if_neg hover] at h
    obtain ⟨m₃, h₃, hcell⟩ := h.at_.dividesExactly grant hquotient hstore hjump
      ((h.eval? hl).trans hleft) ((h.eval? hr).trans hright) (Nat.lt_add_right 3 hn) hslot₂
      (Nat.lt_of_lt_of_le hc h.logs.accounts.length) hzero hover
    exact ⟨_, m₃, h.then_ h₃ (Nat.le_add_right _ 3), by simp, hcell⟩

end Nonzero

variable (grant) in
/-- **The quotient**, unless the divisor is zero. -/
theorem State.At.divides (hs : m.At p q pt) (hdiv : q.Quotient left right message pt v pt')
    (hl : left.Before pt.temps) (hr : right.Before pt.temps)
    (hleft : m.frame.eval? p left = some (.int l)) (hright : m.frame.eval? p right = some (.int r))
    (hslot : m.HasSlot q pt (pt.temps + 1)) :
    if r = 0 then HaltsAfter p grant (State.Within p m.callers) [] m message
    else ∃ c log m', Passes p grant q (· < pt.temps) log m pt' m' ∧
      (∀ a ∈ log, ∃ x, a = .write ⟨c, []⟩ x) ∧
      (m.SlotAt (pt.temps + 1) c ∨ m.memory.length ≤ c) ∧ m'.SlotAt (pt.temps + 1) c ∧
      m'.frame.eval? p v = some (.int (l / r)) := by
  cases hdiv with
  | mk hzero hhalts hslots hmin hminus hisMin hoverflow hbranch _ _ hquotient hstore hjump hload =>
    obtain ⟨m₁, h₁, hcond⟩ := hs.operates grant (K := (· ≠ pt.temps)) hzero hright
      (y := .int 0) rfl rfl (fun _ _ _ _ => trivial) (fun h => h rfl)
    have hat := hzero.1
    obtain ⟨-, rfl, rfl⟩ := hzero
    have hbefore : (Operand.temp pt.temps).Before pt.define.temps := by
      rintro _ ⟨⟩
      exact Nat.lt_succ_self _
    split
    next hr0 =>
      rw [hr0] at hcond
      exact h₁.halts (h₁.at_.fails grant hhalts hcond hbefore)
    next hr0 =>
      rw [decide_eq_false (by simpa using hr0)] at hcond
      cases hhalts with
      | @mk _ ok hcheck _ _ hok =>
        obtain ⟨h0, -⟩ | ⟨-, ⟨j, hj⟩, rfl⟩ := hslots
        · exact absurd h0 hok
        -- The slot may be there from an earlier turn of a loop; then it is used again.
        have hkept : m₁.frame.temps (pt.temps + 1) = m.frame.temps (pt.temps + 1) :=
          h₁.temps _ (Nat.succ_ne_self _)
        have hhas : m₁.HasSlot q pt.define (pt.temps + 1) := fun hbefore => by
          obtain ⟨o, ho, hat'⟩ := hslot (hbefore.of_step hat fun _ _ => nofun)
          exact ⟨o, Nat.lt_of_lt_of_le ho h₁.logs.accounts.length, hkept.trans hat'⟩
        obtain ⟨m₂, c, h₂, hslot₂, hc, hnew⟩ := h₁.at_.branches_slot hcheck hcond hbefore hj hhas
        have h₂ : Passes p grant q (· < pt.temps) [] m ⟨pt.temps + 2, ok, 0⟩ m₂ :=
          ((h₁.mono fun _ => Nat.ne_of_lt).trans (h₂.mono fun _ => Nat.lt_succ_of_lt)).at_temps _
        obtain ⟨log, m₃, h₃, hlog, hv⟩ := h₂.at_.dividesNonzero grant hmin hminus hisMin hoverflow
          hbranch hquotient hstore hjump hload (Nat.lt_succ_self _) (hl.mono (Nat.le_add_right _ 2))
          (hr.mono (Nat.le_add_right _ 2)) ((h₂.eval? hl).trans hleft) ((h₂.eval? hr).trans hright)
          hslot₂ hc hr0
        refine ⟨c, _, m₃, h₂.then_ h₃ (Nat.le_add_right _ 2), by simpa using hlog, ?_,
          (h₃.temps _ (Nat.lt_succ_self _)).trans hslot₂, hv⟩
        exact hnew.imp hkept.symm.trans (Nat.le_trans h₁.logs.accounts.length)

end ClassLang.Ir
