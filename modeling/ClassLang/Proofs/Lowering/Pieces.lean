import ClassLang.Proofs.Lowering.Frames
/-!
# Lowering — what pieces of code do

The machine runs through every piece of code to the point behind it, with
the value that the piece is there for, or halts where the piece says so:
loads and operations, checks, addresses, divisions and comparisons.
-/


namespace ClassLang.Lowering.Call

open Source (Program)
open Semantics (Cell)
open Ir (Operand Point Instr)

variable {p : Program} {ir : Ir.Program} {grant : Nat → Bool} {origin : World} {c : Call ir}
variable {pt pt' pt₁ : Point} {W : World} {σ : Semantics.State} {m m₁ m₂ : Ir.State}
variable {v w : Operand} {x y : Ir.Value} {message : String}

theorem Quiet.computes (h : c.Quiet p grant origin pt W σ m pt₁ m₁)
    (h' : c.Computes p grant origin pt₁ W σ m₁ pt' v x m₂) :
    c.Computes p grant origin pt W σ m pt' v x m₂ :=
  ⟨h.trans h'.toQuiet, h'.toHas⟩

namespace Holds

variable (grant)

/-! ## Single instructions -/

theorem loads (h : c.Holds p origin pt W σ m) (hdef : c.body.Defines (.load · w) pt v pt')
    {a : Ir.Addr} (haddr : Has ir pt m w (.ptr a)) {cell : Ir.Cell}
    (hcell : m.memory[a.object]? = some cell) (hload : cell.load? a.path = some x) :
    ∃ m', c.Computes p grant origin pt W σ m pt' v x m' :=
  ⟨_, h.defines hdef (fun _ => rfl) (fun _ _ _ => nofun) <| by
    simp [Ir.State.exec?, Ir.Frame.addr?, haddr.value, hcell, hload]⟩

theorem operates (h : c.Holds p origin pt W σ m) {op : Ir.BinOp} {left right : Operand}
    (hdef : c.body.Defines (.binary · op left right) pt v pt') {z : Ir.Value}
    (hleft : Has ir pt m left x) (hright : Has ir pt m right y)
    (hop : op.eval? x y = some z) : ∃ m', c.Computes p grant origin pt W σ m pt' v z m' :=
  ⟨_, h.defines hdef (fun _ => rfl) (fun _ _ _ => nofun) <| by
    simp [Ir.State.exec?, hleft.value, hright.value, hop]⟩

theorem recasts (h : c.Holds p origin pt W σ m) (hdef : c.body.Defines (.bitcast · w) pt v pt')
    (hw : Has ir pt m w x) : ∃ m', c.Computes p grant origin pt W σ m pt' v x m' :=
  ⟨_, h.defines hdef (fun _ => rfl) (fun _ _ _ => nofun) <| by
    simp [Ir.State.exec?, hw.value]⟩

/-- A value that is read as another type or not. -/
theorem casts (h : c.Holds p origin pt W σ m) (hcast : c.body.Casts w pt v pt')
    (hw : Has ir pt m w x) : ∃ m', c.Computes p grant origin pt W σ m pt' v x m' := by
  rcases hcast with ⟨rfl, rfl⟩ | hdef
  · exact ⟨m, .refl h, hw⟩
  · exact h.recasts grant hdef hw

/-- **An integer is printed.** -/
theorem prints (h : c.Holds p origin pt W σ m) (hat : c.body.At pt (.print v)) {i : Int32}
    (hv : Has ir pt m v (.int i)) : ∃ m',
      c.Leads p grant origin pt.temps pt W m pt.next W { σ with output := σ.output ++ [i] } m' := by
  have hexec : m.exec? ir grant (.print v) = some { m.advance with output := m.output ++ [i] } := by
    simp [Ir.State.exec?, Ir.Frame.int?, hv.value]
  have hslot : ∀ d ty, Instr.print v ≠ .alloca d ty := by
    rintro _ _ ⟨⟩
  have hnext := h.advance hat hslot
  refine ⟨_, ⟨1, h.runs hat hexec rfl⟩, hnext.changed { m.advance with output := m.output ++ [i] } rfl rfl
    ⟨h.agrees.heap, h.agrees.above, h.agrees.fresh, ?_, h.agrees.requests⟩ rfl fun _ _ _ => rfl,
    .refl W, Nat.le_refl _, fun d hd => hd.of_index rfl (Nat.le_succ _), Nat.le_refl _,
    fun d _ hd _ => .inl (hd.of_step hat hslot), rfl, fun _ _ => rfl, fun _ _ => rfl,
    fun _ _ _ _ _ => rfl⟩
  show m.output ++ [i] = σ.output ++ [i]
  rw [h.agrees.output]

/-- The path of an index. -/
theorem part?_eq {f : Ir.Frame} {index : Operand} {i : Int32}
    (hindex : f.eval? ir index = some (.int i)) (hi : 0 ≤ i) :
    f.part? ir index = some i.toInt.toNat := by
  have hneg : ¬ i < 0 := by
    rw [Int32.le_iff_toInt_le] at hi
    rw [Int32.lt_iff_toInt_lt]
    exact Int.not_lt.2 hi
  simp [Ir.Frame.part?, Ir.Frame.int?, hindex, hneg]

/-- The address of a part of an allocation. -/
theorem selects (h : c.Holds p origin pt W σ m) {indices : List Operand}
    (hdef : c.body.Defines (.elementPtr · w (.int 0 :: indices)) pt v pt') {o : Nat}
    (hw : Has ir pt m w (.ptr ⟨o, []⟩)) {path : List Nat}
    (hpath : indices.mapM (m.frame.part? ir) = some path) {cell : Ir.Cell}
    (hcell : m.memory[o]? = some cell) (hhas : cell.Has path) :
    ∃ m', c.Computes p grant origin pt W σ m pt' v (.ptr ⟨o, path⟩) m' :=
  ⟨_, h.defines hdef (fun _ => rfl) (fun _ _ _ => nofun) <| by
    have hzero : m.frame.eval? ir (.int 0) = some (.int 0) := rfl
    simp [Ir.State.exec?, Ir.Frame.addr?, Ir.Frame.int?, hw.value, hzero, hpath, hcell, hhas]⟩

/-- The address of a member. -/
theorem members (h : c.Holds p origin pt W σ m) {index : Nat}
    (hmember : c.body.Member w index pt v pt') (hindex : index < 2 ^ 31) {o : Nat}
    (hw : Has ir pt m w (.ptr ⟨o, []⟩)) (ho : o < m.memory.length) :
    ∃ m', c.Computes p grant origin pt W σ m pt' v (.ptr ⟨o, [index]⟩) m' := by
  have htoInt := Int32.toInt_ofNat_of_lt hindex
  have hpart : m.frame.part? ir (.int (.ofNat index)) = some index := by
    rw [part?_eq (i := .ofNat index) rfl, htoInt, Int.toNat_natCast]
    rw [Int32.le_iff_toInt_le, htoInt]
    exact Int.natCast_nonneg _
  exact h.selects grant hmember hw (by simp [hpart]) (List.getElem?_eq_getElem ho) trivial

/-! ## Checks -/

/-- A check that holds halts. -/
theorem fails (h : c.Holds p origin pt W σ m) (hcheck : c.body.HaltsIf w message pt pt')
    (hw : Has ir pt m w (.bool true)) :
    Halts p ir grant origin m message σ.output := by
  cases hcheck with
  | mk hbranch hhalt hfail hok =>
    obtain ⟨m', hm', -⟩ := h.branches grant hbranch hfail hok hw
    obtain ⟨k, hk⟩ := hm'.leads.runs
    exact Halts.after hk (hm'.holds.halts grant hhalt)

/-- A check that does not hold is passed. -/
theorem passes (h : c.Holds p origin pt W σ m) (hcheck : c.body.HaltsIf w message pt pt')
    (hw : Has ir pt m w (.bool false)) :
    ∃ m', c.Quiet p grant origin pt W σ m pt' m' := by
  cases hcheck with
  | mk hbranch hhalt hfail hok =>
    obtain ⟨m', hm', -⟩ := h.branches grant hbranch hfail hok hw
    exact ⟨m', hm'⟩

/-- Null halts where nothing else does. -/
theorem nullCheck (h : c.Holds p origin pt W σ m) (hcheck : c.body.HaltsIfNull w message pt pt')
    (hw : Has ir pt m w x) :
    (x = .null → Halts p ir grant origin m message σ.output) ∧
      (x ≠ .null → ∃ m', c.Quiet p grant origin pt W σ m pt' m') := by
  cases hcheck with
  | mk heq hhalts =>
    obtain ⟨m₁, h₁⟩ := h.operates grant heq hw .null rfl
    refine ⟨fun hx => ?_, fun hx => ?_⟩
    · obtain ⟨k, hk⟩ := h₁.leads.runs
      have htrue := h₁.toHas
      rw [decide_eq_true hx] at htrue
      exact Halts.after hk (h₁.holds.fails grant hhalts htrue)
    · have hfalse := h₁.toHas
      rw [decide_eq_false hx] at hfalse
      obtain ⟨m', h'⟩ := h₁.holds.passes grant hhalts hfalse
      exact ⟨m', h₁.toQuiet.trans h'⟩

/-! ## Objects and arrays -/

/-- What stands for an address is in memory, and in the heap. -/
theorem cell (h : c.Holds p origin pt W σ m) {addr : Nat} {l : Link} (hl : W addr = some l) :
    ∃ d d', σ.heap addr = some d ∧ m.memory[l.object]? = some d' ∧ CellMatches p W l.kind d d' :=
  h.agrees.heap.cells addr l hl

/-- The length of an array is an integer. -/
theorem length_lt (h : c.Holds p origin pt W σ m) {addr o length : Nat} {elem : Source.TypeExpr}
    (haddr : W addr = some ⟨o, .array elem length⟩) : length < 2 ^ 31 := by
  obtain ⟨d, d', -, -, hmatch⟩ := h.cell haddr
  cases hmatch with
  | array _ _ hsmall _ => exact hsmall

/-- **The length of an array.** -/
theorem lengths (h : c.Holds p origin pt W σ m) (hlength : c.body.Length w pt v pt')
    {addr o length : Nat} {elem : Source.TypeExpr} (haddr : W addr = some ⟨o, .array elem length⟩)
    (hw : Has ir pt m w (.ptr ⟨o, []⟩)) :
    ∃ m', c.Computes p grant origin pt W σ m pt' v (.int (.ofNat length)) m' := by
  obtain ⟨d, d', -, hd', hmatch⟩ := h.cell haddr
  cases hmatch with
  | array _ hlen _ _ =>
    cases hlength with
    | mk hmember hload =>
      obtain ⟨m₁, h₁⟩ := h.members grant hmember (by decide) hw (List.getElem?_eq_some_iff.1 hd').1
      obtain ⟨m₂, h₂⟩ := h₁.holds.loads grant hload h₁.toHas
        (getElem?_of_initial h₁.memory hd') hlen
      exact ⟨m₂, h₁.toQuiet.computes h₂⟩

/-- The last index is the length less one, also that of an empty array. -/
theorem toInt_last {length : Nat} (hlength : length < 2 ^ 31) :
    (Int32.ofNat length - 1).toInt = (length : Int) - 1 := by
  have hone : (1 : Int32).toInt = 1 := rfl
  rw [Int32.toInt_sub, Int32.toInt_ofNat_of_lt hlength, hone]
  exact Int.bmod_eq_of_le (by omega) (by omega)

/-- An index is outside of an array if it is below zero or behind the last one. -/
theorem outside_iff {length : Nat} (hlength : length < 2 ^ 31) (i : Int32) :
    (decide (i < 0) || decide (Int32.ofNat length - 1 < i)) = !decide (0 ≤ i ∧ i.toInt < length) := by
  have hlast := toInt_last hlength
  have hzero : (0 : Int32).toInt = 0 := rfl
  rw [Bool.eq_iff_iff]
  simp only [Bool.or_eq_true, decide_eq_true_eq, Bool.not_eq_true', decide_eq_false_iff_not,
    Int32.lt_iff_toInt_lt, Int32.le_iff_toInt_le, hlast, hzero]
  omega

/-- **The address of an element**, if there is one of the index. -/
theorem elements (h : c.Holds p origin pt W σ m) {index : Operand}
    (helem : c.body.Element w index message pt v pt') {addr o length : Nat}
    {elem : Source.TypeExpr} (haddr : W addr = some ⟨o, .array elem length⟩)
    (hw : Has ir pt m w (.ptr ⟨o, []⟩)) {i : Int32} (hindex : Has ir pt m index (.int i)) :
    if 0 ≤ i ∧ i.toInt < length then
      ∃ m', c.Computes p grant origin pt W σ m pt' v (.ptr ⟨o, [1, i.toInt.toNat]⟩) m'
    else Halts p ir grant origin m message σ.output := by
  cases helem with
  | mk hlength hbelow hlast habove houtside hhalts hselect =>
    have hsmall := h.length_lt haddr
    obtain ⟨m₁, h₁⟩ := h.lengths grant hlength haddr hw
    have hindex := h₁.toQuiet.has hindex
    obtain ⟨m₂, h₂⟩ := h₁.holds.operates grant hbelow hindex (.int 0) rfl
    have hindex := h₂.toQuiet.has hindex
    obtain ⟨m₃, h₃⟩ := h₂.holds.operates grant hlast (h₂.toQuiet.has h₁.toHas) (.int 1) rfl
    have hindex := h₃.toQuiet.has hindex
    obtain ⟨m₄, h₄⟩ := h₃.holds.operates grant habove h₃.toHas hindex rfl
    obtain ⟨m₅, h₅⟩ := h₄.holds.operates grant houtside
      (h₄.toQuiet.has (h₃.toQuiet.has h₂.toHas)) h₄.toHas rfl
    -- Both comparisons are made before the check, and nothing is written up to there.
    have hquiet := (((h₁.toQuiet.trans h₂.toQuiet).trans h₃.toQuiet).trans h₄.toQuiet).trans h₅.toQuiet
    have houtside := h₅.toHas
    rw [outside_iff hsmall] at houtside
    split
    next hin =>
      rw [decide_eq_true hin] at houtside
      obtain ⟨m₆, h₆⟩ := h₅.holds.passes grant hhalts houtside
      have hquiet := hquiet.trans h₆
      have hindex := h₆.has (h₅.toQuiet.has (h₄.toQuiet.has hindex))
      obtain ⟨d, d', -, hd', hmatch⟩ := h₆.holds.cell haddr
      cases hmatch with
      | array _ hlen _ _ =>
        have hhas : d'.Has [1, i.toInt.toNat] := by
          refine ⟨_, hlen, ?_⟩
          rw [Int32.toInt_ofNat_of_lt hsmall, Int.toNat_of_nonneg (Int32.le_iff_toInt_le.1 hin.1)]
          exact hin.2
        have hone : m₆.frame.part? ir (.int 1) = some 1 := part?_eq (i := 1) rfl (by decide)
        have hpath : [.int 1, index].mapM (m₆.frame.part? ir) = some [1, i.toInt.toNat] := by
          simp [hone, part?_eq hindex.value hin.1]
        obtain ⟨m₇, h₇⟩ := h₆.holds.selects grant hselect (hquiet.has hw) hpath hd' hhas
        exact ⟨m₇, hquiet.computes h₇⟩
    next hout =>
      rw [decide_eq_false hout] at houtside
      obtain ⟨k, hk⟩ := hquiet.leads.runs
      exact Halts.after hk (h₅.holds.fails grant hhalts houtside)

/-! ## Slots -/

/-- **A slot of its own**, which is made here or was made in the entry block. -/
theorem hasSlot (h : c.Holds p origin pt W σ m) {ty : Ir.Ty} (hslot : c.body.HasSlot ty pt pt') :
    ∃ o m', c.Quiet p grant origin pt W σ m pt' m' ∧ m'.SlotAt pt.temps o ∧
      c.body.SlotBefore pt' pt.temps ∧ pt'.temps = pt.temps + 1 := by
  rcases hslot with ⟨hblock, hat, rfl⟩ | ⟨hblock, ⟨i, hi⟩, rfl⟩
  · obtain ⟨hlead, hmemory, hslot⟩ := h.makes grant hat (Nat.le_succ pt.temps)
    rw [Ir.Proc.At, hblock] at hat
    exact ⟨_, _, ⟨hlead, hmemory⟩, hslot, ⟨pt.index, ty, hat, fun _ => Nat.lt_succ_self _⟩, rfl⟩
  · have hbefore : c.body.SlotBefore pt pt.temps := ⟨i, ty, hi, fun h0 => absurd h0 hblock⟩
    obtain ⟨o, ho, -⟩ := h.slots _ hbefore
    exact ⟨o, m, ⟨(Leads.refl h).at_temps (Nat.le_succ _), List.prefix_rfl⟩, ho, hbefore, rfl⟩

/-- The value of a slot. -/
theorem reads (h : c.Holds p origin pt W σ m) {d : Ir.TempId}
    (hload : c.body.Defines (.load · (.temp d)) pt v pt') (hd : d < pt.temps)
    (hs : c.Stored pt m d x) : ∃ m', c.Computes p grant origin pt W σ m pt' v x m' := by
  obtain ⟨-, o, ho, hx⟩ := hs
  refine h.loads grant hload (a := ⟨o, []⟩) ⟨ho, fun t ht => ?_⟩ hx rfl
  exact Operand.temp.inj ht ▸ hd

/-- **The quotient**, unless the divisor is zero. -/
theorem divides (h : c.Holds p origin pt W σ m) {left right : Operand}
    (hdiv : c.body.Quotient left right message pt v pt') {a b : Int32}
    (hleft : Has ir pt m left (.int a)) (hright : Has ir pt m right (.int b)) :
    if b = 0 then Halts p ir grant origin m message σ.output
    else ∃ m', c.Leads p grant origin pt.temps pt W m pt' W σ m' ∧ Has ir pt' m' v (.int (a / b)) := by
  cases hdiv with
  | @mk _ pt₁ pt₂ pt₃ pt₄ _ pt₅ _ pt₆ _ pt₇ _ done _ pt₈ pt₉ _ _ hzero hhalts hslot hmin hminus hisMin
      hoverflow hbranch hdivision hdone hquotient hstore hjump hload =>
    obtain ⟨m₁, h₁⟩ := h.operates grant hzero hright (.int 0) rfl
    split
    next hb =>
      have htrue := h₁.toHas
      rw [hb] at htrue
      obtain ⟨k, hk⟩ := h₁.leads.runs
      exact Halts.after hk (h₁.holds.fails grant hhalts htrue)
    next hb =>
      -- The divisor is not zero: the check goes on to a slot for the quotient, which holds the
      -- least integer until a division is made.
      have hfalse := h₁.toHas
      rw [decide_eq_false (by simpa using hb)] at hfalse
      obtain ⟨m₂, h₂⟩ := h₁.holds.passes grant hhalts hfalse
      obtain ⟨o, m₃, h₃, ho, hbefore, htemps⟩ := h₂.holds.hasSlot grant hslot
      obtain ⟨h₄, hstored, -⟩ := h₃.holds.storesSlot grant hmin hbefore ho (.int _)
      have hle : pt.temps ≤ pt₂.temps := (h₁.toQuiet.trans h₂).leads.temps
      have hlead := (((h₁.toQuiet.trans h₂).trans h₃).leads).trans h₄ hle
      have hleft := hlead.has (Nat.le_refl _) hleft
      have hright := hlead.has (Nat.le_refl _) hright
      have hlt : pt₂.temps < pt₄.temps := Nat.lt_of_lt_of_le (htemps ▸ Nat.lt_succ_self _) h₄.temps
      obtain ⟨m₅, h₅⟩ := h₄.holds.operates grant hminus hright (.int _) rfl
      obtain ⟨m₆, h₆⟩ := h₅.holds.operates grant hisMin (h₅.toQuiet.has hleft) (.int _) rfl
      obtain ⟨m₇, h₇⟩ := h₆.holds.operates grant hoverflow h₆.toHas (h₆.toQuiet.has h₅.toHas) rfl
      obtain ⟨m₈, h₈, -⟩ := h₇.holds.branches grant hbranch hdone hdivision h₇.toHas
      have hquiet := ((h₅.toQuiet.trans h₆.toQuiet).trans h₇.toQuiet).trans h₈
      have hstored := hquiet.leads.stored hlt hstored
      have hlead := hlead.trans hquiet.leads (Nat.le_trans hle (Nat.le_of_lt hlt))
      have hle₇ : pt₄.temps ≤ pt₇.temps := hquiet.leads.temps
      have hle₈ : pt₈.temps = pt₇.temps + 1 := by rw [hquotient.2.2]; rfl
      have hle₉ : pt₉.temps = pt₈.temps := by rw [hstore.2]; rfl
      -- Where the quotient does not fit, none is computed: the least integer is in the slot, and
      -- it is the quotient in words.
      by_cases hover : a = Int32.minValue ∧ b = -1
      · obtain ⟨rfl, rfl⟩ := hover
        have hlead := hlead.at_temps (t := pt₉.temps) (by omega)
        obtain ⟨m₉, h₉⟩ := hlead.holds.reads grant hload (by show _ < pt₉.temps; omega) hstored
        exact ⟨m₉, hlead.trans h₉.leads (by show _ ≤ pt₉.temps; omega), h₉.toHas⟩
      · have hcond : (decide (Ir.Value.int a = .int Int32.minValue) &&
            decide (Ir.Value.int b = .int (-1))) = false := by
          simpa using hover
        rw [hcond] at hlead hquiet hstored
        have hop : Ir.BinOp.eval? .div (.int a) (.int b) = some (.int (a / b)) :=
          if_neg (not_or.2 ⟨hb, hover⟩)
        obtain ⟨m₉, h₉⟩ := hlead.holds.operates grant hquotient (hquiet.has hleft)
          (hquiet.has hright) hop
        obtain ⟨hbefore, o', ho', -⟩ := h₉.leads.stored (Nat.lt_of_lt_of_le hlt hle₇) hstored
        obtain ⟨h₁₀, hstored, -⟩ := h₉.holds.storesSlot grant hstore hbefore ho' h₉.toHas
        obtain ⟨m₁₁, h₁₁, -⟩ := h₁₀.holds.jumps grant hjump hdone
        have hstored := h₁₁.leads.stored (show pt₂.temps < pt₉.temps by omega) hstored
        obtain ⟨m₁₂, h₁₂⟩ := h₁₁.holds.reads grant hload (by show _ < pt₉.temps; omega) hstored
        have hlead := (hlead.trans h₉.leads (by show _ ≤ pt₇.temps; omega)).trans h₁₀ hle
        have hle : pt.temps ≤ pt₉.temps := by omega
        exact ⟨m₁₂, (hlead.trans h₁₁.leads hle).trans h₁₂.leads hle, h₁₂.toHas⟩

end Holds

end ClassLang.Lowering.Call
