import ClassLang.Proofs.Lowering.Allocators
import ClassLang.Proofs.Lowering.Returns
/-!
# Lowering — what allocators do

The procedures that `new` calls do what the source does: they ask for memory
and halt if there is none, they fill it, and what they return stands for a
new address (`ObjectCode.returns`, `ArrayCode.returns`). Until then the
allocation is `Raw`: it stands for nothing, so its parts need not be there
yet.
-/


namespace ClassLang.Lowering

open Source (TypeExpr Program)
open Semantics (Fault request elemBytes headerBytes TooLarge)
open Ir (Instr Operand Point Proc ProcId StructId TempId)

namespace Call

variable {p : Program} {ir : Ir.Program} {grant : Nat → Bool} {origin : World} {c : Call ir}
variable {n fuel : Nat} {pt pt' pt₁ : Point} {W W₁ : World} {σ σ₁ : Semantics.State}
variable {m m₁ : Ir.State} {v w : Operand} {o : Nat} {cell cell' : Ir.Cell}

/-! ## Memory that is being filled -/

variable (c) in
/-- **An allocation that is being filled** holds the cell. -/
structure Raw (pt : Point) (W : World) (m : Ir.State) (o : Nat) (cell : Ir.Cell) : Prop where
  recent : c.memory.length ≤ o
  free : W.Free ir.globals.length o
  held : m.memory[o]? = some cell
  noSlot : ∀ d, c.body.SlotBefore pt d → ¬ m.SlotAt d o

theorem Raw.lt (h : c.Raw pt W m o cell) : o < m.memory.length :=
  (List.getElem?_eq_some_iff.1 h.held).1

/-- How many temporaries there are before the point does not matter. -/
theorem Raw.at_temps (h : c.Raw pt W m o cell) (temps : Nat) :
    c.Raw ⟨temps, pt.block, pt.index⟩ W m o cell :=
  ⟨h.recent, h.free, h.held, h.noSlot⟩

theorem Leads.raw (h : c.Leads p grant origin n pt W m pt₁ W σ₁ m₁) (hraw : c.Raw pt W m o cell)
    (hheld : m₁.memory[o]? = some cell') : c.Raw pt₁ W m₁ o cell' := by
  refine ⟨hraw.recent, hraw.free, hheld, fun d hd ho => ?_⟩
  rcases h.newer d o hd ho with hold | hnew
  · exact hraw.noSlot d hold ((h.keeps.made d hold).symm.trans ho)
  · exact Nat.lt_irrefl o (Nat.lt_of_lt_of_le hraw.lt hnew)

theorem Quiet.raw (h : c.Quiet p grant origin pt W σ m pt₁ m₁) (hraw : c.Raw pt W m o cell) :
    c.Raw pt₁ W m₁ o cell :=
  h.leads.raw hraw (getElem?_of_initial h.memory hraw.held)

namespace Holds

variable (grant) in
/-- **A value is written to memory that is being filled.** Slots keep theirs. -/
theorem storesRaw (h : c.Holds p origin pt W σ m) (hstore : c.body.Stores w v pt pt₁)
    (hraw : c.Raw pt W m o cell) {path : List Nat} (haddr : Has ir pt m w (.ptr ⟨o, path⟩))
    {x : Ir.Value} (hv : Has ir pt m v x) : ∃ m', c.Leads p grant origin n pt W m pt₁ W σ m' ∧
      c.Raw pt₁ W m' o (cell.store path x) := by
  obtain ⟨hat, rfl⟩ := hstore
  have hexec : m.exec? ir grant _ = some _ := exec?_store haddr.value hv.value hraw.held
  have hlead : c.Leads p grant origin n pt W m pt.next W σ
      { m.advance with memory := m.memory.set o (cell.store path x) } := by
    refine ⟨⟨1, h.runs hat hexec rfl⟩, ?_, .refl W, Nat.le_refl _,
      fun t ht => ht.of_index rfl (Nat.le_succ _), Nat.le_of_eq List.length_set.symm,
      fun t _ ht _ => .inl (ht.of_step hat fun _ _ => nofun), rfl, fun _ _ => rfl, fun _ _ => rfl,
      fun t _ hbefore u hu => List.getElem?_set_ne fun (heq : o = u) =>
        hraw.noSlot t hbefore (heq ▸ hu)⟩
    refine (h.advance hat fun _ _ => nofun).changed
      { m.advance with memory := m.memory.set o (cell.store path x) } rfl rfl
      ⟨h.agrees.heap.set_free hraw.free _, h.agrees.above, h.agrees.fresh, h.agrees.output,
        h.agrees.requests⟩ List.length_set fun u hu _ => ?_
    exact List.getElem?_set_ne (Nat.ne_of_gt (Nat.lt_of_lt_of_le hu hraw.recent))
  exact ⟨_, hlead, hlead.raw hraw (List.getElem?_set_self hraw.lt)⟩

variable (grant) in
/-- A value is written to a slot; memory that is being filled stays. -/
theorem storesBeside (h : c.Holds p origin pt W σ m) {d : TempId}
    (hstore : c.body.Stores (.temp d) v pt pt₁) (hd : c.body.SlotBefore pt d)
    (hraw : c.Raw pt W m o cell) {x : Ir.Value} (hv : Has ir pt m v x) :
    ∃ m', c.Leads p grant origin d pt W m pt₁ W σ m' ∧ c.Stored pt₁ m' d x ∧
      c.Raw pt₁ W m' o cell := by
  obtain ⟨u, hu, -⟩ := h.slots d hd
  obtain ⟨hlead, hstored, -⟩ := h.storesSlot grant hstore hd hu hv
  refine ⟨_, hlead, hstored, hlead.raw hraw ?_⟩
  rw [← hraw.held]
  exact List.getElem?_set_ne fun (heq : u = o) => hraw.noSlot d hd (heq ▸ hu)

/-- **Memory is asked for**, and a check halts if there is none. -/
theorem requests (h : c.Holds p origin pt W σ m) (halloc : c.body.Defines (.alloc · w) pt v pt')
    {i : Int32} (hw : Has ir pt m w (.int i)) (hasks : AsksFor p ir m i)
    (hcheck : c.body.HaltsIfNull v Fault.outOfMemory.message pt' pt₁) :
    Follows p ir grant origin fuel m (fun _ σ' => ∃ o m',
      c.Leads p grant origin pt.temps pt W m pt₁ W σ' m' ∧ Has ir pt₁ m' v (.ptr ⟨o, []⟩) ∧
        c.Raw pt₁ W m' o .uninit) (request grant σ) := by
  obtain ⟨hat, rfl, rfl⟩ := halloc
  have hslot : ∀ d ty, Instr.alloc pt.temps w ≠ .alloca d ty := by
    rintro _ _ ⟨⟩
  have hgive (value : Ir.Value) := h.give hat rfl hslot value (pt.temps + 1)
  have hnext {d : TempId} (hd : c.body.SlotBefore pt.define d) : c.body.SlotBefore pt d :=
    hd.of_step hat hslot
  -- The state is regular: its memory is that of a heap, and what it asks for is as assumed.
  have hregular : Regular p ir origin m := by
    refine ⟨⟨W, σ.heap, h.agrees.above, h.agrees.heap⟩, fun size hsize => ?_⟩
    rw [Ir.asks?_at h.at_ hat hw.value] at hsize
    exact Option.some.inj hsize ▸ hasks
  have hruns {m' : Ir.State} (hexec : m.exec? ir grant (.alloc pt.temps w) = some m') :
      Ir.Runs ir grant (Regular p ir origin) 1 m m' :=
    .single hregular (by rw [Ir.step_at h.at_ hat, hexec, Ir.Outcome.ofOption])
  rw [request, ← h.agrees.requests]
  split
  next hgrant =>
    have hexec : m.exec? ir grant (.alloc pt.temps w) =
        some { m.create pt.temps with requests := m.requests + 1 } := by
      simp [Ir.State.exec?, Ir.Frame.int?, hw.value, hgrant]
    -- A new object at the end of memory: no address of the source stands for it yet, and
    -- all that was related before is untouched.
    have hlead : c.Leads p grant origin pt.temps pt W m pt.define W
        { σ with requests := m.requests + 1 }
        { m.create pt.temps with requests := m.requests + 1 } := by
      have hg := hgive (.ptr ⟨m.memory.length, []⟩)
      refine ⟨⟨1, hruns hexec⟩, ⟨⟨h.agrees.heap.append _, h.agrees.above, h.agrees.fresh,
        h.agrees.output, rfl⟩, hg.proc, hg.args, hg.block, hg.index, hg.callers, h.world, h.recent,
        ?_, fun u hu hfree => ?_, fun d hd => ?_, hg.distinct⟩, .refl W, Nat.le_succ _,
        fun d hd => hd.of_index rfl (Nat.le_succ _), (List.prefix_append _ _).length_le,
        fun d _ hd _ => .inl (hnext hd), rfl, fun t ht => if_neg (Nat.ne_of_lt ht),
        fun d hd => if_neg (c.single.slot_ne hd hat rfl (hslot _)), fun d _ hd u hu => ?_⟩
      · exact Nat.le_trans h.length (List.prefix_append _ _).length_le
      · exact (List.getElem?_append_left (Nat.lt_of_lt_of_le hu h.length)).trans (h.frozen u hu hfree)
      · obtain ⟨u, hu, hold, hlt, hfree⟩ := hg.slots d hd
        exact ⟨u, hu, hold, Nat.lt_of_lt_of_le hlt (List.prefix_append _ _).length_le, hfree⟩
      · obtain ⟨u', hu', -, hlt, -⟩ := h.slots d hd
        exact List.getElem?_append_left (hu'.unique hu ▸ hlt)
    have hhas : Has ir pt.define { m.create pt.temps with requests := m.requests + 1 }
        (.temp pt.temps) (.ptr ⟨m.memory.length, []⟩) :=
      ⟨if_pos rfl, fun t ht => Operand.temp.inj ht ▸ Nat.lt_succ_self _⟩
    have hraw : c.Raw pt.define W { m.create pt.temps with requests := m.requests + 1 }
        m.memory.length .uninit := by
      refine ⟨h.length, h.agrees.heap.free_length, List.getElem?_concat_length, fun d hd ho => ?_⟩
      obtain ⟨u, hu, -, hlt, -⟩ := (hgive (.ptr ⟨m.memory.length, []⟩)).slots d hd
      exact Nat.lt_irrefl _ (hu.unique ho ▸ hlt)
    obtain ⟨m', h'⟩ := (hlead.holds.nullCheck grant hcheck hhas).2 (by rintro ⟨⟩)
    exact ⟨_, m', hlead.trans h'.leads (Nat.le_succ _), h'.has hhas, h'.raw hraw⟩
  next hgrant =>
    have hexec : m.exec? ir grant (.alloc pt.temps w) =
        some { m.give pt.temps .null with requests := m.requests + 1 } := by
      simp [Ir.State.exec?, Ir.Frame.int?, hw.value, hgrant]
    -- Nothing was granted: the null pointer makes the check halt.
    have hg := hgive .null
    have hholds : c.Holds p origin pt.define W { σ with requests := m.requests + 1 }
        { m.give pt.temps .null with requests := m.requests + 1 } :=
      ⟨⟨h.agrees.heap, h.agrees.above, h.agrees.fresh, h.agrees.output, rfl⟩, hg.proc, hg.args,
        hg.block, hg.index, hg.callers, hg.world, hg.recent, hg.length, hg.frozen, hg.slots,
        hg.distinct⟩
    have hhas : Has ir pt.define { m.give pt.temps .null with requests := m.requests + 1 }
        (.temp pt.temps) .null := ⟨if_pos rfl, fun t ht => Operand.temp.inj ht ▸ Nat.lt_succ_self _⟩
    exact Halts.after (hruns hexec) ((hholds.nullCheck grant hcheck hhas).1 rfl)

end Holds

/-! ## New addresses -/

/-- **What was filled comes to stand for a new address** and is returned. -/
theorem Holds.returnsNew {q : Proc} {hq : ir.procs[m.frame.proc]? = some q} {hs : q.Single}
    (h : (entered hq hs W).Holds p origin pt₁ W₁ σ₁ m₁) {cell : Semantics.Cell}
    (hruns : ∃ k, Ir.Runs ir grant (Regular p ir origin) k m m₁)
    (hends : q.Ends pt₁ (.ret v)) (hv : Has ir pt₁ m₁ v (.ptr ⟨o, []⟩))
    (hraw : (entered hq hs W).Raw pt₁ W₁ m₁ o cell') {kind : Kind} {ty : TypeExpr}
    (hcell : CellMatches p (W₁.link σ₁.next ⟨o, kind⟩) kind cell cell')
    (hmatch : Matches p (W₁.link σ₁.next ⟨o, kind⟩) ty (.ref σ₁.next) (.ptr ⟨o, []⟩)) :
    Returns p ir grant origin fuel ty W m (Semantics.Run.create cell σ₁) := by
  obtain ⟨pt', m', hquiet, hreturn⟩ := h.returns grant hends hv
  have hraw := hquiet.raw hraw
  have hall : ∃ k, Ir.Runs ir grant (Regular p ir origin) k m m' := by
    obtain ⟨k, hk⟩ := hruns
    obtain ⟨k', hk'⟩ := hquiet.leads.runs
    exact ⟨k + k', hk.trans hk'⟩
  have hleaves := hquiet.holds.leaves hall
  have hnew : W₁ σ₁.next = none := h.agrees.fresh _ (Nat.le_refl _)
  have hgrows := World.grows_link hnew ⟨o, kind⟩
  refine ⟨W₁.link σ₁.next ⟨o, kind⟩, m', _, ⟨hleaves.runs, ⟨hleaves.agrees.heap.link hnew hraw.free
    hraw.held hcell, hleaves.agrees.above.trans hgrows, fun addr haddr => ?_,
    hleaves.agrees.output, hleaves.agrees.requests⟩, hleaves.callers, hleaves.grows.trans hgrows,
    fun addr l hl => ?_, hleaves.length, hleaves.frozen⟩, hreturn, hmatch⟩
  · have hlt : σ₁.next < addr := haddr
    rw [World.link, if_neg (Nat.ne_of_gt hlt)]
    exact h.agrees.fresh addr (Nat.le_of_lt hlt)
  · rw [World.link] at hl
    split at hl
    · obtain rfl := Option.some.inj hl
      exact .inr hraw.recent
    · exact hleaves.recent addr l hl

/-! ## Objects -/

variable (p W cell) in
/-- The fields have their first values, from a member on. -/
def FirstFields (refs : List MemberRef) (index : Nat) : Prop :=
  ∀ (j : Nat) ref, refs[j]? = some ref → ∃ field x, fieldDecl? p ref = some field ∧
    cell.load? [index + j] = some x ∧ Matches p W field.ty (Semantics.default field.ty) x

variable (grant) in
/-- **The fields get their first values.** -/
theorem Holds.fills {object : Operand} {index : Nat} {values : List Operand}
    (hfills : c.body.Fills object index values pt pt') {refs : List MemberRef}
    (hvalues : List.Forall₂ (FirstValue p) refs values) (h : c.Holds p origin pt W σ m)
    (hobject : Has ir pt m object (.ptr ⟨o, []⟩)) (hraw : c.Raw pt W m o cell) :
    ∃ m' cell', c.Leads p grant origin pt.temps pt W m pt' W σ m' ∧ c.Raw pt' W m' o cell' ∧
      (∀ k < index, cell'.load? [k] = cell.load? [k]) ∧ FirstFields p W cell' refs index := by
  induction hfills generalizing refs m cell with
  | nil =>
    cases hvalues
    exact ⟨m, cell, .refl h, hraw, fun _ _ => rfl, nofun⟩
  | @cons index value rest pt addr pt₁ pt₂ pt₃ hindex hmember hstore _ ih =>
    cases hvalues with
    | @cons ref _ refs _ hfirst hrest =>
      obtain ⟨field, hfield, rfl⟩ := hfirst
      obtain ⟨m₁, h₁⟩ := h.members grant hmember hindex hobject hraw.lt
      obtain ⟨x, hvalue, hmatch⟩ := Has.default p W field.ty
      obtain ⟨m₂, h₂, hraw₂⟩ := h₁.holds.storesRaw (n := pt₁.temps) grant hstore
        (h₁.toQuiet.raw hraw) h₁.toHas hvalue
      have hlead := h₁.leads.trans h₂ h₁.leads.temps
      -- The other fields are behind this one, so they leave it alone.
      obtain ⟨m₃, cell₃, h₃, hraw₃, hbelow, hfields⟩ :=
        ih hrest h₂.holds (hlead.has (Nat.le_refl _) hobject) hraw₂
      refine ⟨m₃, cell₃, hlead.trans h₃ hlead.temps, hraw₃, fun k hk => ?_, fun j other hj => ?_⟩
      · rw [hbelow k (Nat.lt_succ_of_lt hk)]
        exact Ir.Cell.load?_store_of_diverge _ (by simpa using Nat.ne_of_gt hk)
          (by simpa using Nat.ne_of_lt hk) _
      · cases j with
        | zero =>
          obtain rfl := Option.some.inj hj
          refine ⟨field, x, hfield, ?_, hmatch⟩
          rw [Nat.add_zero, hbelow index (Nat.lt_succ_self _), Ir.Cell.load?_store_self]
        | succ j =>
          rw [show index + (j + 1) = index + 1 + j by omega]
          exact hfields j other hj

/-! ## Arrays -/

variable (p W cell) in
/-- An array of which the elements below a bound have their first values. -/
structure FirstElems (elem : TypeExpr) (size : Int32) (count : Nat) : Prop where
  length : cell.load? [0] = some (.int size)
  elems : ∀ j < count, ∃ x, cell.load? [1, j] = some x ∧
    Matches p W elem (Semantics.default elem) x

theorem FirstElems.store {elem : TypeExpr} {size : Int32} {count : Nat}
    (h : FirstElems p W cell elem size count) {x : Ir.Value}
    (hx : Matches p W elem (Semantics.default elem) x) :
    FirstElems p W (cell.store [1, count] x) elem size (count + 1) := by
  refine ⟨?_, fun j hj => ?_⟩
  · rw [Ir.Cell.load?_store_of_diverge _ (by simp) (by simp), h.length]
  · rcases Nat.lt_succ_iff_lt_or_eq.1 hj with hlt | rfl
    · obtain ⟨y, hy, hmatch⟩ := h.elems j hlt
      refine ⟨y, ?_, hmatch⟩
      rw [Ir.Cell.load?_store_of_diverge _ (by simpa using Nat.ne_of_gt hlt)
        (by simpa using Nat.ne_of_lt hlt), hy]
    · exact ⟨x, Ir.Cell.load?_store_self _ _ _, hx⟩

/-- The value of a counter is below the size as the numbers are. -/
theorem ofNat_lt_iff {size : Int32} {count : Nat} (hcount : count ≤ size.toInt.toNat) :
    Int32.ofNat count < size ↔ count < size.toInt.toNat := by
  have hsize := size.toInt_lt
  rw [Int32.lt_iff_toInt_lt, Int32.toInt_ofNat_of_lt (by omega)]
  omega

/-- The path to an element of an index below the length. -/
theorem elem_path {f : Ir.Frame} {i : Operand} {size : Int32} {count : Nat}
    (hi : f.eval? ir i = some (.int (.ofNat count))) (hlt : count < size.toInt.toNat) :
    [.int 1, i].mapM (f.part? ir) = some [1, count] := by
  have hone : f.part? ir (.int 1) = some 1 := Holds.part?_eq (i := 1) rfl (by decide)
  have hsmall : (Int32.ofNat count).toInt = count :=
    Int32.toInt_ofNat_of_lt (by have := size.toInt_lt; omega)
  have hpart := Holds.part?_eq hi (by rw [Int32.le_iff_toInt_le, hsmall]; exact Int.natCast_nonneg _)
  rw [hsmall, Int.toNat_natCast] at hpart
  simp [hone, hpart]

section Elems

variable {array i more slot next : Operand} {d : TempId} {cond body done : Ir.BlockId}
variable {pt₂ pt₃ pt₄ pt₅ pt₆ : Point} {elem : TypeExpr} {size : Int32} {count : Nat}

variable (grant) in
/-- **An element gets its first value**, and the counter goes on. -/
theorem Holds.fillsElem
    (hselect : c.body.Defines (.elementPtr · array [.int 0, .int 1, i]) pt slot pt₃)
    (hstore : c.body.Stores slot (defaultOperand elem) pt₃ pt₄)
    (hadd : c.body.Defines (.binary · .add i (.int 1)) pt₄ next pt₅)
    (hnext : c.body.Stores (.temp d) next pt₅ pt₆) (hjump : c.body.Ends pt₆ (.jump cond))
    (hcond : cond ≠ 0) (hlt : count < size.toInt.toNat) (hd : d < pt.temps)
    (h : c.Holds p origin pt W σ m) (hi : Has ir pt m i (.int (.ofNat count)))
    (hhas : Has ir pt m array (.ptr ⟨o, []⟩)) (hslot : c.body.SlotBefore pt d)
    (hraw : c.Raw pt W m o cell) (hfirst : FirstElems p W cell elem size count) :
    ∃ m' cell', c.Leads p grant origin d pt W m (pt₆.enter cond) W σ m' ∧
      c.Stored (pt₆.enter cond) m' d (.int (.ofNat (count + 1))) ∧
      c.Raw (pt₆.enter cond) W m' o cell' ∧ FirstElems p W cell' elem size (count + 1) := by
  have hpath := elem_path hi.value hlt
  obtain ⟨m₁, h₁⟩ := h.selects grant hselect hhas hpath hraw.held ⟨size, hfirst.length, by omega⟩
  obtain ⟨x, hvalue, hmatch⟩ := Has.default p W elem
  obtain ⟨m₂, h₂, hraw₂⟩ := h₁.holds.storesRaw (n := pt₃.temps) grant hstore (h₁.toQuiet.raw hraw)
    h₁.toHas hvalue
  have hlead := h₁.leads.trans h₂ h₁.leads.temps
  obtain ⟨m₃, h₃⟩ := h₂.holds.operates grant hadd (hlead.has (Nat.le_refl _) hi) (.int 1) rfl
  have hlead := hlead.trans h₃.leads hlead.temps
  obtain ⟨m₄, h₄, hcount, hraw₄⟩ := h₃.holds.storesBeside grant hnext (hlead.slots d hslot)
    (h₃.toQuiet.raw hraw₂) h₃.toHas
  obtain ⟨m₅, h₅, -⟩ := h₄.holds.jumps grant hjump hcond
  have hd₆ := Nat.lt_of_lt_of_le hd (Nat.le_trans hlead.temps h₄.temps)
  have hsum : Int32.ofNat count + 1 = Int32.ofNat (count + 1) := (Int32.ofNat_add count 1).symm
  rw [hsum] at hcount
  exact ⟨m₅, _, ((hlead.weaken (Nat.le_of_lt hd)).trans h₄ (Nat.le_refl d)).trans h₅.leads
    (Nat.le_of_lt hd₆), h₅.leads.stored hd₆ hcount, h₅.raw hraw₄, hfirst.store hmatch⟩

variable (grant) in
/-- **The elements get their first values**: by the number of those that are
left. The counter is in a slot that is newer than the array. -/
theorem Holds.fillsElems
    (hload : c.body.Defines (.load · (.temp d)) (pt.enter cond) i pt₁)
    (hmore : c.body.Defines (.binary · .lt i (.param 0)) pt₁ more pt₂)
    (hbranch : c.body.Ends pt₂ (.branch more body done))
    (hselect : c.body.Defines (.elementPtr · array [.int 0, .int 1, i]) (pt₂.enter body) slot pt₃)
    (hstore : c.body.Stores slot (defaultOperand elem) pt₃ pt₄)
    (hadd : c.body.Defines (.binary · .add i (.int 1)) pt₄ next pt₅)
    (hnext : c.body.Stores (.temp d) next pt₅ pt₆) (hjump : c.body.Ends pt₆ (.jump cond))
    (hcond : cond ≠ 0) (hbody : body ≠ 0) (hdone : done ≠ 0)
    (hsize : c.args[0]? = some (.int size)) (harray : array.Before d) (hd : d < pt.temps)
    (left : Nat) (hleft : count + left = size.toInt.toNat)
    (h : c.Holds p origin (pt.enter cond) W σ m)
    (hhas : Has ir (pt.enter cond) m array (.ptr ⟨o, []⟩))
    (hcount : c.Stored (pt.enter cond) m d (.int (.ofNat count)))
    (hraw : c.Raw (pt.enter cond) W m o cell) (hfirst : FirstElems p W cell elem size count) :
    ∃ m' cell', c.Leads p grant origin d (pt.enter cond) W m (pt₂.enter done) W σ m' ∧
      c.Raw (pt₂.enter done) W m' o cell' ∧ FirstElems p W cell' elem size size.toInt.toNat := by
  induction left generalizing count m cell with
  | zero =>
    obtain ⟨m₁, h₁⟩ := h.reads grant hload hd hcount
    obtain ⟨m₂, h₂⟩ := h₁.holds.operates grant hmore h₁.toHas (h₁.holds.param hsize) rfl
    have hfalse := h₂.toHas
    rw [decide_eq_false (mt (ofNat_lt_iff (by omega)).1 (by omega))] at hfalse
    obtain ⟨m₃, h₃, -⟩ := h₂.holds.branches grant hbranch hbody hdone hfalse
    have hquiet := (h₁.toQuiet.trans h₂.toQuiet).trans h₃
    obtain rfl : count = size.toInt.toNat := by omega
    exact ⟨m₃, cell, hquiet.leads.weaken (Nat.le_of_lt hd), hquiet.raw hraw, hfirst⟩
  | succ left ih =>
    obtain ⟨m₁, h₁⟩ := h.reads grant hload hd hcount
    obtain ⟨m₂, h₂⟩ := h₁.holds.operates grant hmore h₁.toHas (h₁.holds.param hsize) rfl
    have hlt : count < size.toInt.toNat := by omega
    have htrue := h₂.toHas
    rw [decide_eq_true ((ofNat_lt_iff (Nat.le_of_lt hlt)).2 hlt)] at htrue
    obtain ⟨m₃, h₃, -⟩ := h₂.holds.branches grant hbranch hbody hdone htrue
    have hquiet := (h₁.toQuiet.trans h₂.toQuiet).trans h₃
    have hd₂ : d < pt₂.temps := Nat.lt_of_lt_of_le hd hquiet.leads.temps
    obtain ⟨m₄, cell₄, h₄, hcount₄, hraw₄, hfirst₄⟩ := h₃.holds.fillsElem grant hselect hstore hadd hnext
      hjump hcond hlt hd₂ (h₃.has (h₂.toQuiet.has h₁.toHas)) (hquiet.has hhas)
      (hquiet.leads.slots d hcount.1) (hquiet.raw hraw) hfirst
    -- A round keeps what is older than the counter: the array is.
    have hround := ((hquiet.leads.weaken (Nat.le_of_lt hd)).trans h₄ (Nat.le_refl d)).at_temps
      (t := pt.temps) (Nat.le_refl _)
    obtain ⟨m', cell', hrest, hraw', hfirst'⟩ := ih (by omega) hround.holds
      (hround.hasOlder harray hhas) hcount₄ (hraw₄.at_temps _) hfirst₄
    exact ⟨m', cell', hround.trans hrest (Nat.le_refl d), hraw', hfirst'⟩

variable (grant) in
/-- **All elements get their first values.** -/
theorem Holds.fillsArray (hfills : c.body.FillsElems array (.param 0) elem pt pt')
    (hsize : c.args[0]? = some (.int size)) (h : c.Holds p origin pt W σ m)
    (hhas : Has ir pt m array (.ptr ⟨o, []⟩)) (hraw : c.Raw pt W m o cell)
    (hfirst : FirstElems p W cell elem size 0) :
    ∃ m' cell', c.Leads p grant origin pt.temps pt W m pt' W σ m' ∧ c.Raw pt' W m' o cell' ∧
      FirstElems p W cell' elem size size.toInt.toNat := by
  cases hfills with
  | mk hslot hinit hjump hcond hbody hdone hload hmore hbranch hselect hstore hadd hnext hback hle =>
    obtain ⟨u, m₁, h₁, -, hbefore, htemps⟩ := h.hasSlot grant hslot
    obtain ⟨m₂, h₂, hcount, hraw₂⟩ := h₁.holds.storesBeside grant hinit hbefore (h₁.raw hraw) (.int 0)
    obtain ⟨m₃, h₃, -⟩ := h₂.holds.jumps grant hjump hcond
    have hd := Nat.lt_of_lt_of_le (Nat.lt_of_succ_le (Nat.le_of_eq htemps.symm)) h₂.temps
    have hstart := (h₁.leads.trans h₂ (Nat.le_refl _)).trans h₃.leads (Nat.le_of_lt hd)
    obtain ⟨m₄, cell₄, h₄, hraw₄, hfirst₄⟩ := h₃.holds.fillsElems grant hload hmore hbranch hselect
      hstore hadd hnext hback hcond hbody hdone hsize hhas.before hd size.toInt.toNat
      (Nat.zero_add _) (hstart.has (Nat.le_refl _) hhas) (h₃.leads.stored hd hcount) (h₃.raw hraw₂)
      hfirst
    have hlead := hstart.trans h₄ (Nat.le_refl _)
    exact ⟨m₄, cell₄, hlead.at_temps (Nat.le_trans hlead.temps hle), hraw₄.at_temps _, hfirst₄⟩

end Elems

end Call

open Call

section Objects

variable {p : Program} {ir : Ir.Program} {grant : Nat → Bool} {origin : World} {fuel : Nat}
variable {W : World} {σ : Semantics.State} {m : Ir.State}

/-- **The code that makes objects does** what the source does. -/
theorem ObjectCode.returns {q : Proc} {id : ClassId} {values : List Operand}
    (h : ObjectCode q (.ofNat (ir.sizeOf (.struct (2 * id)))) id values)
    (hret : q.ret = .ptr (.struct (2 * id))) (hvalues : List.Forall₂ (FirstValue p) (p.fieldRefs id) values)
    (hid : id < ir.globals.length) (hs : q.Single) {proc : ProcId}
    (hq : ir.procs[proc]? = some q) (hframe : m.frame = .enter proc [])
    (hagrees : Agrees p ir origin W σ m) {name : String} (hname : p.classId? name = some id) :
    Returns p ir grant origin fuel (.class_ name) W m
      ((request grant >>= fun _ => Semantics.Run.create (.object id (Semantics.freshFields p id))) σ) := by
  have hq : ir.procs[m.frame.proc]? = some q := by rw [hframe]; exact hq
  have h₀ := holds_entered (W := W) hframe hq hs hagrees
  cases h with
  | mk halloc hcheck hcast hheader hstore hfills hends =>
    have hasks := AsksFor.object hq hret (Source.Program.classId?_lt hname)
    refine Follows.bind (h₀.requests halloc (.int _) hasks hcheck)
      fun _ σ₁ ⟨o, m₁, h₁, hraw₁, hfree⟩ => ?_
    obtain ⟨m₂, h₂⟩ := h₁.holds.recasts grant hcast hraw₁
    have hfree₂ := h₂.toQuiet.raw hfree
    obtain ⟨m₃, h₃⟩ := h₂.holds.members grant hheader (by decide) h₂.toHas hfree₂.lt
    have hquiet := h₂.toQuiet.trans h₃.toQuiet
    obtain ⟨m₄, h₄, hfree₄⟩ := h₃.holds.storesRaw grant hstore (h₃.toQuiet.raw hfree₂) h₃.toHas
      (.global hid)
    have hobject := h₄.has (Nat.le_refl _) (h₃.toQuiet.has h₂.toHas)
    obtain ⟨m₅, cell, h₅, hfree₅, hbelow, hfields⟩ := h₄.holds.fills grant hfills hvalues hobject hfree₄
    have hlead := h₁.trans (hquiet.leads.trans h₄ hquiet.leads.temps) h₁.temps
    have hlead := hlead.trans h₅ hlead.temps
    -- Only now that all parts are there may the allocation stand for an object.
    have hgrows := World.grows_link (h₅.holds.agrees.fresh _ (Nat.le_refl _)) ⟨o, .object id⟩
    have hself : W.link σ₁.next ⟨o, .object id⟩ σ₁.next = some ⟨o, .object id⟩ := if_pos rfl
    refine h₅.holds.returnsNew hlead.runs hends (h₅.has (Nat.le_refl _) hobject) hfree₅
      (.object ?_ fun i ref hi => ?_) (.object hname .refl hself)
    · rw [hbelow 0 (by decide), Ir.Cell.load?_store_self]
    · obtain ⟨field, x, hfield, hx, hmatch⟩ := hfields i ref hi
      refine ⟨field, _, x, hfield, ?_, by rwa [Nat.add_comm], hmatch.mono hgrows⟩
      rw [Semantics.freshFields, if_pos (List.mem_of_getElem? hi), hfield, Option.map_some]

/-- An array is too large exactly if it has more elements than the bound. -/
theorem maxLength_lt_iff (elem : TypeExpr) {size : Int32} :
    maxLength (.ofNat (headerBytes elem)) (.ofNat (elemBytes elem)) < size ↔ TooLarge elem size := by
  rw [Int32.lt_iff_toInt_lt, TooLarge]
  -- The bound is an Int32 quotient; there are three sizes of elements, so it is computed.
  have hint : (maxLength (.ofNat 4) (.ofNat 4)).toInt = 536870910 := by decide
  have hbool : (maxLength (.ofNat 4) (.ofNat 1)).toInt = 2147483643 := by decide
  have href : (maxLength (.ofNat 8) (.ofNat 8)).toInt = 268435454 := by decide
  cases elem <;> simp only [headerBytes, elemBytes, hint, hbool, href] <;> omega

/-- A size that is not negative is the number of elements. -/
theorem ofNat_size {size : Int32} (h : ¬ size < 0) : Int32.ofNat size.toInt.toNat = size := by
  rw [Int32.lt_iff_toInt_lt, show (0 : Int32).toInt = 0 from rfl] at h
  have hlt := size.toInt_lt
  rw [← Int32.toInt_inj, Int32.toInt_ofNat_of_lt (by omega)]
  omega

/-- **The size of an array is checked**; an array of a size that passes may
be asked for. -/
theorem Call.Holds.checksSize {c : Call ir} {elem : TypeExpr} {pt pt' : Point} {v : Operand}
    (hchecks : c.body.ChecksSize v elem pt pt') {size : Int32} (h : c.Holds p origin pt W σ m)
    (hv : Has ir pt m v (.int size)) {P : Semantics.Value → Semantics.State → Prop}
    (hrest : ¬ size < 0 → ¬ TooLarge elem size → ∀ m', c.Quiet p grant origin pt W σ m pt' m' →
      Follows p ir grant origin fuel m' P ((request grant >>= fun _ => Semantics.Run.create
        (.array (List.replicate size.toInt.toNat (Semantics.default elem)))) σ)) :
    Follows p ir grant origin fuel m P (Semantics.newArray grant elem size σ) := by
  cases hchecks with
  | mk hnegative hhalts hlarge hhalts' =>
    obtain ⟨m₁, h₁⟩ := h.operates grant hnegative hv (.int 0) rfl
    have hcond := h₁.toHas
    rw [Semantics.newArray]
    split
    next hneg =>
      rw [decide_eq_true hneg] at hcond
      obtain ⟨k, hk⟩ := h₁.leads.runs
      exact Halts.after hk (h₁.holds.fails grant hhalts hcond)
    next hneg =>
      rw [decide_eq_false hneg] at hcond
      obtain ⟨m₂, h₂⟩ := h₁.holds.passes grant hhalts hcond
      obtain ⟨m₃, h₃⟩ := h₂.holds.operates grant hlarge (.int _) (h₂.has (h₁.toQuiet.has hv)) rfl
      have hquiet := (h₁.toQuiet.trans h₂).trans h₃.toQuiet
      have hcond := h₃.toHas
      rw [decide_eq_decide.2 (maxLength_lt_iff elem)] at hcond
      split
      next htoo =>
        rw [decide_eq_true htoo] at hcond
        obtain ⟨k, hk⟩ := hquiet.leads.runs
        exact Halts.after hk (h₃.holds.fails grant hhalts' hcond)
      next htoo =>
        rw [decide_eq_false htoo] at hcond
        obtain ⟨m₄, h₄⟩ := h₃.holds.passes grant hhalts' hcond
        have hquiet := hquiet.trans h₄
        obtain ⟨k, hk⟩ := hquiet.leads.runs
        exact (hrest hneg htoo m₄ hquiet).after hk (fun _ _ h => h) (Nat.le_add_left _ _)

/-- **The code that makes arrays does** what the source does. -/
theorem ArrayCode.returns {q : Proc} {elem : TypeExpr} (h : ArrayCode q elem) {struct : StructId}
    {target : Ir.Ty} {name : String} (hret : q.ret = .ptr (.struct struct))
    (hdecl : ir.structs[struct]? = some ⟨name, arrayFields target⟩)
    (hlayout : ElemLayout ir struct elem target) (hs : q.Single)
    {proc : ProcId} (hq : ir.procs[proc]? = some q) {size : Int32}
    (hframe : m.frame = .enter proc [.int size]) (hagrees : Agrees p ir origin W σ m) :
    Returns p ir grant origin fuel (.array elem) W m (Semantics.newArray grant elem size σ) := by
  have hq : ir.procs[m.frame.proc]? = some q := by rw [hframe]; exact hq
  have h₀ := holds_entered (W := W) hframe hq hs hagrees
  have hsize : (entered hq hs W).args[0]? = some (.int size) := by
    show m.frame.args[0]? = _
    rw [hframe]
    rfl
  cases h with
  | mk hchecks hmul hadd halloc hcheck hcast hlength hstore hfills hends =>
    refine h₀.checksSize hchecks (h₀.param hsize) fun hneg hfits m₁ h₁ => ?_
    obtain ⟨m₂, h₂⟩ := h₁.holds.operates grant hmul (h₁.holds.param hsize) (.int _) rfl
    obtain ⟨m₃, h₃⟩ := h₂.holds.operates grant hadd h₂.toHas (.int _) rfl
    have hquiet := (h₁.trans h₂.toQuiet).trans h₃.toQuiet
    obtain ⟨k, hk⟩ := (h₂.toQuiet.trans h₃.toQuiet).leads.runs
    have hnonneg : 0 ≤ size.toInt := Int.not_lt.1 (mt (lt_zero_iff size).2 hneg)
    have hasks : AsksFor p ir m₃ _ := .array (by rw [h₃.holds.proc]; exact hq) hret hdecl
      (by rw [h₃.holds.args]; exact congrArg (·.args) hframe) hnonneg
      (by rw [hlayout.size, hlayout.header]; exact (toInt_bytes hnonneg hfits).2)
    -- How many bytes are asked for does not matter for whether they are given.
    refine Follows.bind ((h₃.holds.requests halloc h₃.toHas hasks hcheck).after hk (fun _ _ h => h)
      (Nat.le_add_left _ _)) fun _ σ₁ ⟨o, m₄, h₄, hraw₄, hfree₄⟩ => ?_
    obtain ⟨m₅, h₅⟩ := h₄.holds.recasts grant hcast hraw₄
    have hfree₅ := h₅.toQuiet.raw hfree₄
    obtain ⟨m₆, h₆⟩ := h₅.holds.members grant hlength (by decide) h₅.toHas hfree₅.lt
    obtain ⟨m₇, h₇, hfree₇⟩ := h₆.holds.storesRaw grant hstore (h₆.toQuiet.raw hfree₅) h₆.toHas
      (h₆.holds.param hsize)
    have harray := h₇.has (Nat.le_refl _) (h₆.toQuiet.has h₅.toHas)
    obtain ⟨m₈, cell, h₈, hfree₈, hfirst⟩ := h₇.holds.fillsArray grant hfills hsize harray hfree₇
      ⟨Ir.Cell.load?_store_self _ _ _, nofun⟩
    have hlead := (hquiet.leads.trans h₄ hquiet.leads.temps).trans
      ((h₅.toQuiet.trans h₆.toQuiet).leads.trans h₇ (h₅.toQuiet.trans h₆.toQuiet).leads.temps)
      (Nat.zero_le _)
    have hlead := hlead.trans h₈ hlead.temps
    have hgrows := World.grows_link (h₈.holds.agrees.fresh _ (Nat.le_refl _))
      ⟨o, .array elem size.toInt.toNat⟩
    have hlt := size.toInt_lt
    show Returns p ir grant origin fuel (.array elem) W m (Semantics.Run.create _ σ₁)
    refine h₈.holds.returnsNew hlead.runs hends (h₈.has (Nat.le_refl _) harray) hfree₈
      (.array List.length_replicate ?_ (by omega) fun j v hj => ?_) (.array (if_pos rfl))
    · rw [ofNat_size hneg, hfirst.length]
    · obtain ⟨hbelow, rfl⟩ := List.getElem?_eq_some_iff.1 hj
      rw [List.length_replicate] at hbelow
      obtain ⟨x, hx, hmatch⟩ := hfirst.elems j hbelow
      rw [List.getElem_replicate]
      exact ⟨x, hx, hmatch.mono hgrows⟩

end Objects

end ClassLang.Lowering
