import ClassLang.Proofs.Lowering.Crossings
import ClassLang.Proofs.Lowering.Pieces
/-!
# Lowering — reaching an element

What the code before an element does, wherever it stands: the check for null halts
or is passed, without reading or writing (`State.At.checksNull`), and the code of
the address halts if there is no element of the index, and otherwise gives its
address (`State.At.reachesElement`). All that it reads is the length of the array,
and the last index is computed without wrapping around, even if there is none.
-/


namespace ClassLang.Ir

open Lowering.Call.Holds (toInt_last outside_iff part?_eq)

variable {p : Program} {q : Proc} {S : Addr → Prop} {m : State} {pt pt' : Point}
variable {array index v : Operand} {message : String} {x : Value} {i : Int32} {o length : Nat}

/-- **An array of so many elements**: the length stands in front of them. -/
def State.HasArray (m : State) (o length : Nat) : Prop :=
  length < 2 ^ 31 ∧ ∃ cell, m.memory[o]? = some cell ∧ cell.load? [0] = some (.int (.ofNat length))

/-- Where nothing is written, arrays stay. -/
theorem State.HasArray.crosses {grant : Nat → Bool} {K : TempId → Prop} {m' : State}
    (h : m.HasArray o length) (hcross : Crosses p grant q K S [] m pt m') :
    m'.HasArray o length := by
  obtain ⟨hsmall, cell, hcell, hlength⟩ := h
  refine ⟨hsmall, cell, ?_, hlength⟩
  exact (hcross.logs.accounts.kept o (List.getElem?_eq_some_iff.1 hcell).1 (by simp)).trans hcell

theorem Operand.before_temp {t n : Nat} (h : t < n) : (Operand.temp t).Before n := by
  rintro _ ⟨⟩
  exact h

variable (grant : Nat → Bool)

/-- **The check for null.** -/
theorem State.At.checksNull (hs : m.At p q pt) (hcheck : q.HaltsIfNull v message pt pt')
    (hv : m.frame.eval? p v = some x) :
    if x = .null then HaltsAfter p grant (State.Confined p S m.callers) [] m message
    else ∃ m', Crosses p grant q (· < pt.temps) S [] m pt' m' := by
  cases hcheck with
  | mk htest hhalts =>
    have h := hs.crosses_check grant (K := (· < pt.temps)) (S := S) htest hhalts hv (y := .null) rfl
      rfl (fun _ _ _ _ => trivial) (Nat.lt_irrefl _) <| hhalts.spares.mono fun t ht => by
        rw [htest.2.2]
        exact Nat.lt_succ_of_lt ht
    by_cases hnull : x = .null
    · rw [if_pos (decide_eq_true hnull)] at h
      rwa [if_pos hnull]
    · rw [if_neg (by simp [hnull])] at h
      rw [if_neg hnull]
      exact h.imp fun _ h => h.1

/-- **The length of an array** is read. -/
theorem State.At.crosses_length (hs : m.At p q pt) (hlength : q.Length array pt v pt')
    (harray : m.frame.eval? p array = some (.ptr ⟨o, []⟩)) (ho : m.HasArray o length)
    (hS : S ⟨o, [0]⟩) :
    pt'.temps = pt.temps + 2 ∧ v = .temp (pt.temps + 1) ∧
      ∃ m', Crosses p grant q (· < pt.temps) S [] m pt' m' ∧
        m'.frame.eval? p v = some (.int (.ofNat length)) := by
  cases hlength with
  | mk hmember hload =>
    obtain ⟨-, cell, hcell, hread⟩ := ho
    have hzero : m.frame.part? p (.int 0) = some 0 := part?_eq (i := 0) rfl (by decide)
    have hpath : [.int 0].mapM (m.frame.part? p) = some [0] := by simp [hzero]
    obtain ⟨m₁, h₁, haddr⟩ := hs.crosses_select grant (K := (· < pt.temps)) (S := S) hmember harray
      hpath hcell trivial (Nat.lt_irrefl _)
    have hcell := (h₁.logs.accounts.kept o (List.getElem?_eq_some_iff.1 hcell).1 (by simp)).trans hcell
    obtain ⟨-, rfl, rfl⟩ := hmember
    obtain ⟨m₂, h₂, hv⟩ := h₁.at_.crosses_load grant (K := (· < pt.temps)) (S := S) hload haddr hS hcell
      hread (Nat.not_lt.2 (Nat.le_succ _))
    obtain ⟨-, rfl, rfl⟩ := hload
    exact ⟨rfl, rfl, m₂, h₁.trans h₂, hv⟩

/-- **The test of an index** compares it with zero and with the last index. -/
theorem State.At.testsIndex {pt₁ pt₂ pt₃ pt₄ : Point} {count below last above outside : Operand}
    (hs : m.At p q pt)
    (hbelow : q.Defines (.binary · .lt index (.int 0)) pt below pt₁)
    (hlast : q.Defines (.binary · .sub count (.int 1)) pt₁ last pt₂)
    (habove : q.Defines (.binary · .lt last index) pt₂ above pt₃)
    (houtside : q.Defines (.binary · .or below above) pt₃ outside pt₄)
    (hcount : m.frame.eval? p count = some (.int (.ofNat length))) (hlength : length < 2 ^ 31)
    (hindex : m.frame.eval? p index = some (.int i)) (hcount' : count.Before pt.temps)
    (hindex' : index.Before pt.temps) :
    pt₄.temps = pt.temps + 4 ∧ outside = .temp (pt.temps + 3) ∧
      ∃ m', Crosses p grant q (· < pt.temps) S [] m pt₄ m' ∧
        m'.frame.eval? p outside = some (.bool !decide (0 ≤ i ∧ i.toInt < length)) := by
  obtain ⟨m₁, h₁, hx⟩ := hs.crosses_operation grant (K := (· < pt.temps)) (S := S) hbelow hindex rfl
    rfl (fun _ _ _ _ => trivial) (Nat.lt_irrefl _)
  obtain ⟨-, rfl, rfl⟩ := hbelow
  -- The length less one is exact, be the length zero or not.
  obtain ⟨m₂, h₂, hy⟩ := h₁.at_.crosses_operation grant (K := (· < pt.temps + 1)) (S := S) hlast
    ((h₁.eval? hcount').trans hcount) rfl rfl (by
      rintro _ _ ⟨⟩ ⟨⟩
      exact (toInt_last hlength).trans (by rw [Int32.toInt_ofNat_of_lt hlength]; rfl))
    (Nat.lt_irrefl _)
  obtain ⟨-, rfl, rfl⟩ := hlast
  have h := h₁.then_ h₂ (Nat.le_succ _)
  obtain ⟨m₃, h₃, hz⟩ := h₂.at_.crosses_operation grant (K := (· < pt.temps + 2)) (S := S) habove hy
    ((h.eval? hindex').trans hindex) rfl (fun _ _ _ _ => trivial) (Nat.lt_irrefl _)
  obtain ⟨-, rfl, rfl⟩ := habove
  have hx := ((h₂.trans (h₃.mono fun _ => Nat.lt_succ_of_lt)).eval?
    (Operand.before_temp (Nat.lt_succ_self pt.temps))).trans hx
  obtain ⟨m₄, h₄, hw⟩ := h₃.at_.crosses_operation grant (K := (· < pt.temps + 3)) (S := S) houtside hx
    hz rfl (fun _ _ _ _ => trivial) (Nat.lt_irrefl _)
  obtain ⟨-, rfl, rfl⟩ := houtside
  rw [outside_iff hlength] at hw
  exact ⟨rfl, rfl, m₄, (h.then_ h₃ (Nat.le_add_right _ 2)).then_ h₄ (Nat.le_add_right _ 3), hw⟩

/-- **The address of an element**, if there is one of the index. -/
theorem State.At.reachesElement (hs : m.At p q pt) (helem : q.Element array index message pt v pt')
    (harray : m.frame.eval? p array = some (.ptr ⟨o, []⟩)) (ho : m.HasArray o length)
    (hindex : m.frame.eval? p index = some (.int i)) (harray' : array.Before pt.temps)
    (hindex' : index.Before pt.temps) (hS : S ⟨o, [0]⟩) :
    if 0 ≤ i ∧ i.toInt < length then
      ∃ m', Crosses p grant q (· < pt.temps) S [] m pt' m' ∧
        m'.frame.eval? p v = some (.ptr ⟨o, [1, i.toInt.toNat]⟩)
    else HaltsAfter p grant (State.Confined p S m.callers) [] m message := by
  cases helem with
  | @mk _ pt₁ _ _ _ _ _ _ _ pt₅ _ _ _ hlength hbelow hlast habove houtside hhalts hselect =>
    obtain ⟨htemps, rfl, m₁, h₁, hcount⟩ := hs.crosses_length grant hlength harray ho hS
    obtain ⟨htemps', rfl, m₂, h₂, hfails⟩ := h₁.at_.testsIndex grant (S := S) hbelow hlast habove
      houtside hcount ho.1 ((h₁.eval? hindex').trans hindex)
      (Operand.before_temp (by omega)) (hindex'.mono (by omega))
    have h := h₁.then_ h₂ (by omega)
    have hbefore : (Operand.temp (pt₁.temps + 3)).Before pt₅.temps := Operand.before_temp (by omega)
    split
    next hin =>
      rw [decide_eq_true hin] at hfails
      obtain ⟨m₃, h₃, -⟩ := h₂.at_.crosses_pass grant (S := S) hhalts hfails hbefore hhalts.spares
      have h := h.then_ h₃ (by omega)
      obtain ⟨hsmall, cell, hcell, hread⟩ := ho.crosses h
      have hhas : cell.Has [1, i.toInt.toNat] := by
        refine ⟨_, hread, ?_⟩
        rw [Int32.toInt_ofNat_of_lt hsmall, Int.toNat_of_nonneg (Int32.le_iff_toInt_le.1 hin.1)]
        exact hin.2
      have hone : m₃.frame.part? p (.int 1) = some 1 := part?_eq (i := 1) rfl (by decide)
      have hpath : [.int 1, index].mapM (m₃.frame.part? p) = some [1, i.toInt.toNat] := by
        simp [hone, part?_eq ((h.eval? hindex').trans hindex) hin.1]
      obtain ⟨m₄, h₄, hv⟩ := h₃.at_.crosses_select grant (K := (· < pt.temps)) (S := S) hselect
        ((h.eval? harray').trans harray) hpath hcell hhas (Nat.not_lt.2 (by rw [hhalts.leaves.1]; omega))
      exact ⟨m₄, h.trans h₄, hv⟩
    next hout =>
      rw [decide_eq_false hout] at hfails
      exact h.halts (h₂.at_.crosses_fail grant hhalts hfails hbefore)

end ClassLang.Ir
