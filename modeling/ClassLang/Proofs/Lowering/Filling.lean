import ClassLang.Proofs.Lowering.Allocations
import ClassLang.Proofs.Lowering.Passages
/-!
# Lowering — filling an array

What the loop of an allocator does to memory, wherever it stands
(`State.At.fillsArray`): it writes the first value to each element, once and in
order, and counts in a slot. How far it has come is in `State.Filling`: the
allocation holds the length and so many elements, and nothing else.
-/


namespace ClassLang

open Source (TypeExpr)
open Lowering (defaultOperand)

/-- The value of the elements of a new array. -/
def Lowering.firstValue : TypeExpr → Ir.Value
  | .int => .int 0
  | .bool => .bool false
  | _ => .null

namespace Ir

open Lowering (firstValue)

theorem eval?_defaultOperand {p : Program} (f : Frame) (elem : TypeExpr) :
    f.eval? p (defaultOperand elem) = some (firstValue elem) := by
  cases elem <;> rfl

/-! ## Memory that is being filled -/

namespace Cell

variable {c : Cell} {path other : List Nat} {value x : Value}

theorem load?_uninit (path : List Nat) : uninit.load? path = none := by
  induction path with
  | nil => rfl
  | cons i path ih => exact ih

/-- What was above the place of a value, or below it, is gone. -/
theorem load?_store_eq_none (h : path <+: other ∨ other <+: path) (hne : other ≠ path) :
    (c.store path value).load? other = none := by
  induction path generalizing c other with
  | nil =>
    cases other with
    | nil => exact absurd rfl hne
    | cons j other => exact load?_uninit other
  | cons i path ih =>
    cases other with
    | nil => rfl
    | cons j other =>
      rw [List.cons_prefix_cons, List.cons_prefix_cons] at h
      obtain rfl : i = j := h.elim And.left fun h => h.1.symm
      have hload : (c.store (i :: path) value).load? (i :: other) =
          ((c.part i).store path value).load? other := by
        simp [store, load?, part]
      rw [hload]
      exact ih (h.imp And.right And.right) fun heq => hne (congrArg (i :: ·) heq)

/-- **What a write leaves**: the value at its place, and what was at others that
the path does not lead through. -/
theorem load?_store_iff : (c.store path value).load? other = some x ↔
    (other = path ∧ x = value) ∨
      (¬ path <+: other ∧ ¬ other <+: path ∧ c.load? other = some x) := by
  by_cases heq : other = path
  · subst heq
    simp [eq_comm]
  · by_cases h : path <+: other ∨ other <+: path
    · rw [load?_store_eq_none h heq]
      simp only [heq, false_and, false_or, reduceCtorEq, false_iff]
      rintro ⟨h₁, h₂, -⟩
      exact h.elim h₁ h₂
    · obtain ⟨h₁, h₂⟩ := not_or.1 h
      rw [load?_store_of_diverge c h₁ h₂]
      simp [heq, h₁, h₂]

end Cell

/-- **The allocation of an array holds** its length and the first value of so
many elements, and nothing else. -/
def Cell.Filled (cell : Cell) (size : Int32) (first : Value) (count : Nat) : Prop :=
  ∀ path x, cell.load? path = some x ↔
    (path = [0] ∧ x = .int size) ∨ ∃ i < count, path = [1, i] ∧ x = first

namespace Cell.Filled

variable {cell : Cell} {size : Int32} {first : Value} {count : Nat}

/-- At first there is the length. -/
theorem length (size : Int32) (first : Value) :
    (Cell.uninit.store [0] (.int size)).Filled size first 0 := fun path x => by
  rw [load?_store_iff, load?_uninit]
  simp

/-- The next element gets its value. -/
theorem store (h : cell.Filled size first count) :
    (cell.store [1, count] first).Filled size first (count + 1) := fun path x => by
  rw [load?_store_iff, h path x]
  constructor
  · rintro (⟨rfl, rfl⟩ | ⟨-, -, ⟨rfl, rfl⟩ | ⟨i, hi, rfl, rfl⟩⟩)
    · exact .inr ⟨count, Nat.lt_succ_self _, rfl, rfl⟩
    · exact .inl ⟨rfl, rfl⟩
    · exact .inr ⟨i, Nat.lt_succ_of_lt hi, rfl, rfl⟩
  · rintro (⟨rfl, rfl⟩ | ⟨i, hi, rfl, rfl⟩)
    · exact .inr ⟨by simp, by simp, .inl ⟨rfl, rfl⟩⟩
    · obtain hlt | rfl := Nat.lt_succ_iff_lt_or_eq.1 hi
      · exact .inr ⟨by simp [Nat.ne_of_gt hlt], by simp [Nat.ne_of_lt hlt], .inr ⟨i, hlt, rfl, rfl⟩⟩
      · exact .inl ⟨rfl, rfl⟩

/-- There is an element of every index below the length. -/
theorem has (h : cell.Filled size first count) (hlt : count < size.toInt.toNat) :
    cell.Has [1, count] :=
  ⟨size, (h _ _).2 (.inl ⟨rfl, rfl⟩), by omega⟩

end Cell.Filled

/-! ## The loop -/

section Loop

variable {p : Program} {grant : Nat → Bool} {q : Proc} {K : TempId → Prop} {m m' : State}
variable {pt pt' pt₁ pt₂ pt₃ pt₄ pt₅ pt₆ : Point} {array i more slot next value : Operand} {d : TempId}
variable {cond body done : BlockId} {size : Int32} {first : Value} {o c count : Nat}

variable (p array d size first o c count) in
/-- **The loop has come so far**: the counter, which is in a slot of its own, is
the number of elements that have their value. -/
structure State.Filling (m : State) : Prop where
  arg : m.frame.args[0]? = some (.int size)
  array : m.frame.eval? p array = some (.ptr ⟨o, []⟩)
  slot : m.SlotAt d c
  apart : o ≠ c
  counter : m.memory[c]? = some (.scalar (.int (.ofNat count)))
  held : ∃ cell, m.memory[o]? = some cell ∧ cell.Filled size first count

/-- The writes of a round: the element, then the counter. -/
def roundLog (o c : Nat) (first : Value) (i : Nat) : List Access :=
  [.write ⟨o, [1, i]⟩ first, .write ⟨c, []⟩ (.int (.ofNat (i + 1)))]

namespace State.Filling

theorem passes (h : m.Filling p array d size first o c count) (hpass : Passes p grant q K [] m pt m')
    (harray : ∀ t, array = .temp t → K t) (hd : K d) : m'.Filling p array d size first o c count := by
  obtain ⟨cell, hcell, hfilled⟩ := h.held
  exact ⟨by rw [hpass.args, h.arg], (hpass.eval? harray).trans h.array,
    (hpass.temps d hd).trans h.slot, h.apart, hpass.held h.counter (by simp), cell,
    hpass.held hcell (by simp), hfilled⟩

variable (grant) in
/-- **The test** leads to a round for each element that there is. -/
theorem tests (h : m.Filling p array d size first o c count) (hs : m.At p q pt)
    (hload : q.Defines (.load · (.temp d)) pt i pt₁)
    (hmore : q.Defines (.binary · .lt i (.param 0)) pt₁ more pt₂)
    (hbranch : q.Ends pt₂ (.branch more body done)) (hcount : count ≤ size.toInt.toNat) :
    ∃ m', Passes p grant q (· < pt.temps) [] m
        (pt₂.enter (if count < size.toInt.toNat then body else done)) m' ∧
      m'.frame.eval? p i = some (.int (.ofNat count)) := by
  obtain ⟨m₁, h₁, hi⟩ := hs.loads grant (K := (· < pt.temps)) hload h.slot h.counter rfl
    (Nat.lt_irrefl _)
  have hsize : m₁.frame.eval? p (.param 0) = some (.int size) := by
    rw [Frame.eval?, h₁.args, h.arg]
  obtain ⟨-, rfl, rfl⟩ := hload
  obtain ⟨m₂, h₂, hcond⟩ := h₁.at_.operates grant (K := (· < pt.temps + 1)) hmore hi hsize rfl
    (fun _ _ _ _ => trivial) (Nat.lt_irrefl _)
  obtain ⟨-, rfl, rfl⟩ := hmore
  obtain ⟨m₃, h₃, -⟩ := h₂.at_.branches grant (K := (· < pt.temps + 2)) hbranch hcond
    (by rintro _ ⟨⟩; exact Nat.lt_succ_self _) hbranch.spares
  have hrest := h₂.trans (h₃.mono fun _ => Nat.lt_succ_of_lt)
  rw [show decide (Int32.ofNat count < size) = decide (count < size.toInt.toNat) from
    decide_eq_decide.2 (Lowering.Call.ofNat_lt_iff hcount)] at hrest
  refine ⟨m₃, by simpa using h₁.then_ hrest (Nat.le_succ _), ?_⟩
  exact (hrest.eval? (by rintro _ ⟨⟩; exact Nat.lt_succ_self _)).trans hi

variable (grant) in
/-- **A round**: the next element gets its value, and the counter goes on. -/
theorem fills (h : m.Filling p array d size first o c count) (hs : m.At p q pt)
    (hselect : q.Defines (.elementPtr · array [.int 0, .int 1, i]) pt slot pt₁)
    (hstore : q.Stores slot value pt₁ pt₂) (hadd : q.Defines (.binary · .add i (.int 1)) pt₂ next pt₃)
    (hnext : q.Stores (.temp d) next pt₃ pt₄) (hback : q.Ends pt₄ (.jump cond))
    (harray : array.Before pt.temps) (hd : d < pt.temps) (hi : i.Before pt.temps)
    (hlt : count < size.toInt.toNat) (hcount : m.frame.eval? p i = some (.int (.ofNat count)))
    (hvalue : ∀ f : Frame, f.eval? p value = some first) :
    ∃ m', Passes p grant q (· < pt.temps) (roundLog o c first count) m (pt₄.enter cond) m' ∧
      m'.Filling p array d size first o c (count + 1) := by
  obtain ⟨cell, hcell, hfilled⟩ := h.held
  obtain ⟨m₁, h₁, haddr⟩ := hs.selects grant (K := (· < pt.temps)) hselect h.array
    (Lowering.Call.elem_path hcount hlt) hcell (hfilled.has hlt) (Nat.lt_irrefl _)
  obtain ⟨-, rfl, rfl⟩ := hselect
  obtain ⟨m₂, h₂, hcell⟩ := h₁.at_.writes grant (K := (· < pt.temps + 1)) hstore haddr (hvalue _)
    (h₁.held hcell (by simp))
  obtain rfl := hstore.2
  have hpass := h₁.then_ h₂ (Nat.le_succ _)
  -- The counter stays an integer: there are elements left.
  have hsmall : count + 1 < 2 ^ 31 := by
    have := size.toInt_lt
    omega
  have hsum : Int32.ofNat count + 1 = Int32.ofNat (count + 1) := (Int32.ofNat_add count 1).symm
  obtain ⟨m₃, h₃, hnew⟩ := h₂.at_.operates grant (K := (· < pt.temps + 1)) hadd
    ((hpass.eval? hi).trans hcount) (y := .int 1) rfl rfl (by
      rintro _ _ ⟨⟩ ⟨⟩
      rw [BinOp.Exact, hsum, Int32.toInt_ofNat_of_lt hsmall,
        Int32.toInt_ofNat_of_lt (Nat.lt_of_succ_lt hsmall)]
      rfl) (Nat.lt_irrefl _)
  rw [hsum] at hnew
  obtain ⟨-, rfl, rfl⟩ := hadd
  have hpass := hpass.then_ h₃ (Nat.le_succ _)
  have hcounter : m₃.memory[c]? = some (.scalar (.int (.ofNat count))) :=
    hpass.held h.counter (by simp [h.apart.symm])
  obtain ⟨m₄, h₄, hcounter⟩ := h₃.at_.writes grant (K := (· < pt.temps + 2)) hnext
    ((hpass.temps d hd).trans h.slot) hnew hcounter
  obtain rfl := hnext.2
  obtain ⟨m₅, h₅, -⟩ := h₄.at_.jumps grant (K := (· < pt.temps + 2)) hback hback.spares
  have hrest := h₄.trans h₅
  have hall := hpass.then_ hrest (Nat.le_add_right _ 2)
  refine ⟨m₅, by simpa [roundLog] using hall, ?_⟩
  exact ⟨by rw [hall.args, h.arg], (hall.eval? harray).trans h.array,
    (hall.temps d hd).trans h.slot, h.apart, h₅.held hcounter (by simp), _,
    (h₃.trans (hrest.mono fun _ => Nat.lt_succ_of_lt)).held hcell
      (by simp [h.apart]), hfilled.store⟩

variable (grant) in
/-- **All rounds**: by the number of elements that are left. -/
theorem fillsAll (h : m.Filling p array d size first o c count) (hs : m.At p q (pt.enter cond))
    (hload : q.Defines (.load · (.temp d)) (pt.enter cond) i pt₁)
    (hmore : q.Defines (.binary · .lt i (.param 0)) pt₁ more pt₂)
    (hbranch : q.Ends pt₂ (.branch more body done))
    (hselect : q.Defines (.elementPtr · array [.int 0, .int 1, i]) (pt₂.enter body) slot pt₃)
    (hstore : q.Stores slot value pt₃ pt₄) (hadd : q.Defines (.binary · .add i (.int 1)) pt₄ next pt₅)
    (hnext : q.Stores (.temp d) next pt₅ pt₆) (hback : q.Ends pt₆ (.jump cond))
    (harray : array.Before pt.temps) (hd : d < pt.temps)
    (hvalue : ∀ f : Frame, f.eval? p value = some first)
    (left : Nat) (hleft : count + left = size.toInt.toNat) :
    ∃ m', Passes p grant q (· < pt.temps) ((List.range' count left).flatMap (roundLog o c first)) m
        (pt₂.enter done) m' ∧ m'.Filling p array d size first o c size.toInt.toNat := by
  have htemps : pt₂.temps = pt.temps + 2 := by
    rw [hmore.2.2, hload.2.2]
    rfl
  induction left generalizing count m with
  | zero =>
    obtain ⟨m₁, h₁, -⟩ := h.tests grant hs hload hmore hbranch (by omega)
    obtain rfl : count = size.toInt.toNat := by omega
    rw [if_neg (Nat.lt_irrefl _)] at h₁
    exact ⟨m₁, h₁, h.passes h₁ harray hd⟩
  | succ left ih =>
    have hlt : count < size.toInt.toNat := by omega
    obtain ⟨m₁, h₁, hi⟩ := h.tests grant hs hload hmore hbranch (Nat.le_of_lt hlt)
    rw [if_pos hlt] at h₁
    have hle : pt.temps ≤ (pt₂.enter body).temps := htemps ▸ Nat.le_add_right _ 2
    have hbefore : i.Before (pt₂.enter body).temps := by
      obtain ⟨-, rfl, -⟩ := hload
      rintro _ ⟨⟩
      exact Nat.lt_of_lt_of_eq (Nat.lt_succ_of_lt (Nat.lt_succ_self _)) htemps.symm
    obtain ⟨m₂, h₂, hfilling⟩ := (h.passes h₁ harray hd).fills grant h₁.at_ hselect hstore hadd
      hnext hback (harray.mono hle) (Nat.lt_of_lt_of_le hd hle) hbefore hlt hi hvalue
    have hround := h₁.then_ h₂ hle
    obtain ⟨m₃, h₃, hfilled⟩ := ih hfilling (hround.at_temps pt.temps).at_ (by omega)
    have hall : Passes p grant q (· < pt.temps) _ m (pt₂.enter done) m₃ := hround.trans h₃
    exact ⟨m₃, by simpa [List.range'_succ] using hall, hfilled⟩

end State.Filling

theorem Proc.FillsElems.temps_le {elem : TypeExpr} (h : q.FillsElems array value elem pt pt') :
    pt.temps ≤ pt'.temps := by
  cases h with
  | mk hmade hinit _ _ _ _ hload hmore _ _ _ _ _ _ hle =>
    refine Nat.le_trans ?_ hle
    rw [hmore.2.2, hload.2.2, hinit.2]
    obtain ⟨-, -, rfl⟩ | ⟨-, -, rfl⟩ := hmade <;> exact Nat.le_add_right _ 3

theorem Proc.FillsElems.slotBehind {elem : TypeExpr} (h : q.FillsElems array value elem pt pt')
    (hblock : pt.block ≠ 0) : q.SlotBehind ⟨0, 0, 0⟩ pt.temps := by
  cases h with
  | mk hmade =>
    obtain ⟨h0, -⟩ | ⟨-, ⟨j, hj⟩, -⟩ := hmade
    · exact absurd h0 hblock
    · exact ⟨j, .int, Nat.zero_le j, hj⟩

variable (grant) in
/-- **The elements of an array are filled**, if the slot of the counter is there. -/
theorem State.At.fillsArray {elem : TypeExpr} {cell : Cell} (hs : m.At p q pt)
    (hfills : q.FillsElems array (.param 0) elem pt pt') (hblock : pt.block ≠ 0)
    (harg : m.frame.args[0]? = some (.int size)) (harray : m.frame.eval? p array = some (.ptr ⟨o, []⟩))
    (hbefore : array.Before pt.temps) (hslot : m.SlotAt pt.temps c) (hc : c < m.memory.length)
    (hne : o ≠ c) (hcell : m.memory[o]? = some cell) (hfilled : cell.Filled size (firstValue elem) 0) :
    ∃ m', Passes p grant q (· < pt.temps) (.write ⟨c, []⟩ (.int 0) ::
        (List.range size.toInt.toNat).flatMap (roundLog o c (firstValue elem))) m pt' m' ∧
      m'.Filling p array pt.temps size (firstValue elem) o c size.toInt.toNat := by
  cases hfills with
  | mk hmade hinit hjump hcond hbody hdone hload hmore hbranch hselect hstore hadd hnext hback hle =>
    obtain ⟨h0, -⟩ | ⟨-, -, rfl⟩ := hmade
    · exact absurd h0 hblock
    -- The slot was made in the entry block; from here on its temporary counts as made.
    have hs' : m.At p q { pt with temps := pt.temps + 1 } := ⟨hs.proc, hs.block, hs.index⟩
    obtain ⟨m₁, h₁, hcounter⟩ := hs'.writes grant (K := (· < pt.temps + 1)) hinit hslot rfl
      (List.getElem?_eq_getElem hc)
    obtain rfl := hinit.2
    obtain ⟨m₂, h₂, -⟩ := h₁.at_.jumps grant (K := (· < pt.temps + 1)) hjump hjump.spares
    have hstart := h₁.trans h₂
    have hfilling : m₂.Filling p array pt.temps size (firstValue elem) o c 0 :=
      ⟨by rw [hstart.args, harg],
        (hstart.eval? fun t ht => Nat.lt_succ_of_lt (hbefore t ht)).trans harray,
        (hstart.temps _ (Nat.lt_succ_self _)).trans hslot, hne, h₂.held hcounter (by simp), cell,
        hstart.held hcell (by simp [hne]), hfilled⟩
    obtain ⟨m₃, h₃, hfilled⟩ := hfilling.fillsAll grant h₂.at_ hload hmore hbranch hselect hstore
      hadd hnext hback (hbefore.mono (Nat.le_succ _)) (Nat.lt_succ_self _)
      (fun f => eval?_defaultOperand f elem) size.toInt.toNat (Nat.zero_add _)
    have hall : Passes p grant q (· < pt.temps + 1) _ m _ m₃ := hstart.trans h₃
    rw [List.range_eq_range']
    exact ⟨m₃, (hall.mono fun _ => Nat.lt_succ_of_lt).at_temps _, hfilled⟩

end Loop

end Ir

end ClassLang
