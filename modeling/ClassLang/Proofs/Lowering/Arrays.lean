import ClassLang.Proofs.Lowering.Acceptance
import ClassLang.Proofs.Lowering.Filling
import ClassLang.Proofs.Lowering.Names
import ClassLang.Proofs.Typing.NotedPrograms
/-!
# Lowering — arrays, to the byte

What a call of an allocator of arrays comes to, for every size and whether or
not there is memory (`Accepted.arrays_exact`): the two checks before the request
tell the sizes apart whose number of bytes, over the integers, is no 32-bit
integer, so no arithmetic of the call overflows, and so many bytes are asked
for. If they are given, the call writes the length and each element once, and
its counter.
-/


namespace ClassLang

open Source (TypeExpr Program)
open Semantics (Fault elemBytes headerBytes TooLarge)
open Lowering (firstValue maxLength maxLength_lt_iff)

namespace Ir

variable {p : Program} {grant : Nat → Bool} {q : Proc} {m : State} {elem : TypeExpr} {size : Int32}

/-! ## Before the loop -/

section Checks

variable {pt pt' pt₁ pt₂ pt₃ : Point} {bytes total raw : Operand} {d : TempId}

theorem Proc.HaltsIfNull.leaves {v : Operand} {message : String} (h : q.HaltsIfNull v message pt pt') :
    pt'.temps = pt.temps + 1 ∧ pt'.block ≠ 0 := by
  cases h with
  | mk hnull hhalts =>
    obtain ⟨htemps, hblock⟩ := hhalts.leaves
    exact ⟨by rw [htemps, hnull.2.2]; rfl, hblock⟩

/-- The checks lead out of the block, past two temporaries. -/
theorem Proc.ChecksSize.leaves {v : Operand} (h : q.ChecksSize v elem pt pt') :
    pt'.temps = pt.temps + 2 ∧ pt'.block ≠ 0 := by
  cases h with
  | mk hnegative hhalts hlarge hhalts' =>
    obtain ⟨htemps, hblock⟩ := hhalts'.leaves
    refine ⟨?_, hblock⟩
    rw [htemps, hlarge.2.2]
    exact congrArg (· + 1) (hhalts.leaves.1.trans (by rw [hnegative.2.2]; rfl))

/-- A new temporary is neither one of those before the point nor the slot's. -/
theorem not_kept {n k d : Nat} (hd : n + k < d) : ¬ (n + k < n ∨ n + k = d) := by
  omega

variable (grant) in
/-- **The checks of a size.** A size that passes leads out of the entry block, and
the slots that are made at its end are there. -/
theorem State.At.checksSize (hs : m.At p q pt) (hsingle : q.Single)
    (hchecks : q.ChecksSize (.param 0) elem pt pt') (harg : m.frame.args[0]? = some (.int size))
    (hslot : q.SlotBehind pt d) (hd : pt.temps + 1 < d) :
    if size < 0 then
      HaltsAfter p grant (State.Within p m.callers) [] m Fault.negativeSize.message
    else if TooLarge elem size then
      HaltsAfter p grant (State.Within p m.callers) [] m Fault.outOfMemory.message
    else ∃ m' c, Passes p grant q (· < pt.temps) [] m pt' m' ∧ m'.SlotAt d c ∧
      m.memory.length ≤ c ∧ c < m'.memory.length := by
  cases hchecks with
  | mk hnegative hhalts hlarge hhalts' =>
    have hfirst := hs.checks grant (K := (· < pt.temps)) hnegative hhalts harg (y := .int 0) rfl rfl
      (fun _ _ _ _ => trivial) (Nat.lt_irrefl _) (by
        rw [hnegative.2.2] at hhalts ⊢
        exact hhalts.spares.mono fun _ => Nat.lt_succ_of_lt)
    split
    next hneg => rwa [if_pos (decide_eq_true hneg)] at hfirst
    next hneg =>
      rw [if_neg (by rwa [decide_eq_true_iff])] at hfirst
      obtain ⟨m₁, h₁, hmade⟩ := hfirst
      obtain ⟨c, hc, hc', hslot⟩ := hmade d hslot
      obtain ⟨htemps, hblock⟩ := hhalts.leaves
      rw [hnegative.2.2] at htemps
      -- From here on the slot is kept, too.
      have hsecond := h₁.at_.checks grant (K := fun t => t < pt.temps ∨ t = d) hlarge hhalts' rfl
        (y := .int size) (by rw [Frame.eval?, h₁.args, harg]) rfl (fun _ _ _ _ => trivial)
        (by rw [htemps]; exact not_kept (k := 1) hd)
        (hsingle.spares (by rw [hlarge.2.2]; exact hblock))
      rw [show decide (maxLength (.ofNat (headerBytes elem)) (.ofNat (elemBytes elem)) < size) =
        decide (TooLarge elem size) from decide_eq_decide.2 (maxLength_lt_iff elem)] at hsecond
      split
      next htoo =>
        rw [if_pos (decide_eq_true htoo)] at hsecond
        exact h₁.halts hsecond
      next htoo =>
        rw [if_neg (by rwa [decide_eq_true_iff])] at hsecond
        obtain ⟨m₂, h₂, -⟩ := hsecond
        exact ⟨m₂, c, h₁.trans (h₂.mono fun _ => .inl), (h₂.temps d (.inr rfl)).trans hslot, hc,
          Nat.lt_of_lt_of_le hc' h₂.logs.accounts.length⟩

variable (grant) in
/-- **The bytes are counted**, without overflow. -/
theorem State.At.countsBytes (hs : m.At p q pt)
    (hmul : q.Defines (.binary · .mul (.param 0) (.int (.ofNat (elemBytes elem)))) pt bytes pt₁)
    (hadd : q.Defines (.binary · .add bytes (.int (.ofNat (headerBytes elem)))) pt₁ total pt₂)
    (harg : m.frame.args[0]? = some (.int size)) (hsize : 0 ≤ size.toInt)
    (hfits : ¬ TooLarge elem size) (hd : pt.temps + 1 < d) :
    ∃ m' count, Passes p grant q (fun t => t < pt.temps ∨ t = d) [] m pt₂ m' ∧
      m'.frame.eval? p total = some (.int count) ∧
      count.toInt = size.toInt * elemBytes elem + headerBytes elem := by
  obtain ⟨hexact, hsum⟩ := toInt_bytes hsize hfits
  obtain ⟨m₁, h₁, hbytes⟩ := hs.operates grant (K := fun t => t < pt.temps ∨ t = d) hmul harg
    (y := .int (.ofNat (elemBytes elem))) rfl rfl
    (by rintro _ _ ⟨⟩ ⟨⟩; rw [BinOp.Exact, hexact, toInt_elemBytes])
    (not_kept (k := 0) (Nat.lt_of_succ_lt hd))
  obtain ⟨-, rfl, rfl⟩ := hmul
  obtain ⟨m₂, h₂, htotal⟩ := h₁.at_.operates grant (K := fun t => t < pt.temps ∨ t = d) hadd hbytes
    (y := .int (.ofNat (headerBytes elem))) rfl rfl
    (by rintro _ _ ⟨⟩ ⟨⟩; rw [BinOp.Exact, hsum, hexact, toInt_headerBytes])
    (not_kept (k := 1) hd)
  exact ⟨m₂, _, h₁.trans h₂, htotal, hsum⟩

variable (grant) in
/-- **The bytes are asked for.** If there is memory, it is passed on. -/
theorem State.At.asksBytes {count : Int32} (hs : m.At p q pt) (hsingle : q.Single)
    (halloc : q.Defines (.alloc · total) pt raw pt₁)
    (hcheck : q.HaltsIfNull raw Fault.outOfMemory.message pt₁ pt')
    (htotal : m.frame.eval? p total = some (.int count)) (hblock : pt.block ≠ 0)
    (hd : pt.temps + 1 < d) :
    if grant m.requests = true then
      ∃ m' o, Passes p grant q (fun t => t < pt.temps ∨ t = d) [.request count] m pt' m' ∧
        m'.frame.eval? p raw = some (.ptr ⟨o, []⟩) ∧ m.memory.length ≤ o ∧
        m'.memory[o]? = some .uninit
    else HaltsAfter p grant (State.Within p m.callers) [.request count] m
      Fault.outOfMemory.message := by
  obtain ⟨m₁, h₁, hnone, hsome⟩ := hs.asks grant (K := fun t => t < pt.temps ∨ t = d) halloc
    htotal (not_kept (k := 0) (Nat.lt_of_succ_lt hd))
  obtain ⟨-, rfl, rfl⟩ := halloc
  cases hcheck with
  | mk hnull hhalts =>
    -- The pointer is kept, too.
    have hchecked {x : Value} {fails : Bool} (hraw : m₁.frame.eval? p (.temp pt.temps) = some x)
        (hop : BinOp.eval? .eq x .null = some (.bool fails)) :=
      h₁.at_.checks grant (K := fun t => (t < pt.temps ∨ t = d) ∨ t = pt.temps) hnull hhalts hraw
        (y := .null) rfl hop (by rintro _ _ - ⟨⟩)
        (fun h => h.elim (not_kept (k := 1) hd) (Nat.succ_ne_self _))
        (hsingle.spares (by rw [hnull.2.2]; exact hblock))
    cases hgrant : grant m.requests with
    | false =>
      rw [if_neg Bool.false_ne_true]
      exact h₁.halts (hchecked (hnone hgrant) rfl)
    | true =>
      rw [if_pos rfl]
      obtain ⟨hraw, hcell⟩ := hsome hgrant
      obtain ⟨m₂, h₂, -⟩ := hchecked hraw rfl
      refine ⟨m₂, _, h₁.trans (h₂.mono fun _ => .inl), ?_, Nat.le_refl _, h₂.held hcell (by simp)⟩
      exact (h₂.eval? (by rintro _ ⟨⟩; exact .inr rfl)).trans hraw

end Checks

/-! ## The array -/

variable (p grant) in
/-- **A call builds an array**, after a request: it returns the array, which holds
its length and the first value of each element, and these have been written,
each once. Only the counter has been written besides, and it is as new as the
array. -/
structure State.BuildsArray (bytes size : Int32) (first : Value) (m : State) (o c : Nat) (m' : State) :
    Prop where
  array_new : m.memory.length ≤ o
  counter_new : m.memory.length ≤ c
  apart : o ≠ c
  returns : ReturnsAfter p grant (State.Within p m.callers)
    (.request bytes :: .write ⟨o, [0]⟩ (.int size) :: .write ⟨c, []⟩ (.int 0) ::
      (List.range size.toInt.toNat).flatMap (roundLog o c first)) m (.ptr ⟨o, []⟩) m'
  filled : ∃ cell, m'.memory[o]? = some cell ∧ cell.Filled size first size.toInt.toNat

section Array

variable {pt pt' pt₁ pt₂ pt₃ : Point} {array raw length : Operand} {o c : Nat}

variable (grant) in
/-- **The memory becomes an array**, and is returned. -/
theorem State.At.returnsArray (hs : m.At p q pt) (hcast : q.Defines (.bitcast · raw) pt array pt₁)
    (hlength : q.Member array 0 pt₁ length pt₂) (hstore : q.Stores length (.param 0) pt₂ pt₃)
    (hfills : q.FillsElems array (.param 0) elem pt₃ pt') (hret : q.Ends pt' (.ret array))
    (harg : m.frame.args[0]? = some (.int size)) (hblock : pt.block ≠ 0)
    (hraw : m.frame.eval? p raw = some (.ptr ⟨o, []⟩)) (hcell : m.memory[o]? = some .uninit)
    (hslot : m.SlotAt (pt.temps + 2) c) (hc : c < m.memory.length) (hne : o ≠ c) :
    ∃ m', ReturnsAfter p grant (State.Within p m.callers)
        (.write ⟨o, [0]⟩ (.int size) :: .write ⟨c, []⟩ (.int 0) ::
          (List.range size.toInt.toNat).flatMap (roundLog o c (firstValue elem))) m (.ptr ⟨o, []⟩) m' ∧
      ∃ cell, m'.memory[o]? = some cell ∧ cell.Filled size (firstValue elem) size.toInt.toNat := by
  obtain ⟨m₁, h₁, harray⟩ := hs.recasts grant (K := (· = pt.temps + 2)) hcast hraw
    (Nat.ne_of_lt (Nat.lt_add_of_pos_right Nat.two_pos))
  obtain ⟨-, rfl, rfl⟩ := hcast
  have hpart : m₁.frame.part? p (.int 0) = some 0 :=
    Lowering.Call.Holds.part?_eq (i := 0) rfl (by decide)
  have hpath : [Operand.int 0].mapM (m₁.frame.part? p) = some [0] := by simp [hpart]
  obtain ⟨m₂, h₂, haddr⟩ := h₁.at_.selects grant
    (K := fun t => t < pt.temps + 1 ∨ t = pt.temps + 2) hlength harray hpath
    (h₁.held hcell (by simp)) trivial (not_kept (k := 0) (Nat.lt_succ_self _))
  obtain ⟨-, rfl, rfl⟩ := hlength
  have hpass := h₁.trans (h₂.mono fun _ => .inr)
  obtain ⟨m₃, h₃, hcell⟩ := h₂.at_.writes grant (K := fun t => t < pt.temps + 1 ∨ t = pt.temps + 2)
    hstore haddr (x := .int size) (by rw [Frame.eval?, hpass.args, harg])
    (hpass.held hcell (by simp))
  obtain rfl := hstore.2
  have hpass := hpass.trans (h₃.mono fun _ => .inr)
  have harray : m₃.frame.eval? p (.temp pt.temps) = some (.ptr ⟨o, []⟩) :=
    ((h₂.trans h₃).eval? (by rintro _ ⟨⟩; exact .inl (Nat.lt_succ_self _))).trans harray
  obtain ⟨m₄, h₄, hfilling⟩ := h₃.at_.fillsArray grant hfills hblock (by rw [hpass.args, harg])
    harray (by rintro _ ⟨⟩; exact Nat.lt_succ_of_lt (Nat.lt_succ_self _))
    ((hpass.temps _ rfl).trans hslot) (Nat.lt_of_lt_of_le hc hpass.logs.accounts.length) hne
    hcell (.length size _)
  obtain ⟨m₅, h₅⟩ := h₄.at_.returns grant hret hfilling.array fun t ht => by
    obtain rfl := Operand.temp.inj ht
    exact Nat.lt_of_lt_of_le (Nat.lt_succ_of_lt (Nat.lt_succ_self _)) hfills.temps_le
  obtain ⟨cell, hcell, hfilled⟩ := hfilling.held
  refine ⟨m₅, by simpa using hpass.returns (h₄.returns h₅), cell, ?_, hfilled⟩
  exact (h₅.logs.accounts.kept o (List.getElem?_eq_some_iff.1 hcell).1 (by simp)).trans hcell

end Array

end Ir

namespace Lowering

open Ir (Proc ProcId HaltsAfter State Logs)
open Typing (Analysis Denotes)

section Calls

variable {ir : Ir.Program} {grant : Nat → Bool} {q : Proc} {m : State} {elem : TypeExpr} {size : Int32}

/-! ## Calls -/

variable (grant) in
/-- **What a call of an allocator of arrays comes to.** -/
theorem ArrayCode.runs (h : ArrayCode q elem) (hsingle : q.Single) {proc : ProcId}
    (hq : ir.procs[proc]? = some q) (hframe : m.frame = .enter proc [.int size]) :
    if size < 0 then
      HaltsAfter ir grant (State.Within ir m.callers) [] m Fault.negativeSize.message
    else if TooLarge elem size then
      HaltsAfter ir grant (State.Within ir m.callers) [] m Fault.outOfMemory.message
    else ∃ bytes : Int32, bytes.toInt = size.toInt * elemBytes elem + headerBytes elem ∧
      if grant m.requests = true then
        ∃ o c m', m.BuildsArray ir grant bytes size (firstValue elem) o c m'
      else HaltsAfter ir grant (State.Within ir m.callers) [.request bytes] m
        Fault.outOfMemory.message := by
  have hs : m.At ir q ⟨0, 0, 0⟩ := by
    refine ⟨?_, ?_, ?_⟩ <;> rw [hframe]
    exacts [hq, rfl, rfl]
  have harg : m.frame.args[0]? = some (.int size) := by
    rw [hframe]
    rfl
  cases h with
  | @mk pt bytes pt₁ total pt₂ raw pt₃ pt₄ array pt₅ length pt₆ pt₇ pt₈ hchecks hmul hadd halloc
      hcheck hcast hlength hstore hfills hret =>
    obtain ⟨htemps, hblock⟩ := hchecks.leaves
    obtain ⟨htemps₄, hblock₄⟩ := hcheck.leaves
    -- The temporary of the counter is the third behind the request.
    have hslot₇ : pt₇.temps = pt₄.temps + 2 ∧ pt₇.block = pt₄.block := by
      rw [hstore.2, hlength.2.2, hcast.2.2]
      exact ⟨rfl, rfl⟩
    have hpt₂ : pt₂.temps = pt.temps + 2 ∧ pt₂.block = pt.block := by
      rw [hadd.2.2, hmul.2.2]
      exact ⟨rfl, rfl⟩
    have htemps₃ : pt₃.temps = pt₂.temps + 1 := by
      rw [halloc.2.2]
      rfl
    have hbehind : q.SlotBehind ⟨0, 0, 0⟩ (pt₄.temps + 2) :=
      hslot₇.1 ▸ hfills.slotBehind (hslot₇.2.symm ▸ hblock₄)
    have hchecked := hs.checksSize grant hsingle hchecks harg hbehind (by show 0 + 1 < _; omega)
    by_cases hneg : size < 0
    · rw [if_pos hneg] at hchecked ⊢
      exact hchecked
    rw [if_neg hneg] at hchecked ⊢
    by_cases htoo : TooLarge elem size
    · rw [if_pos htoo] at hchecked ⊢
      exact hchecked
    rw [if_neg htoo] at hchecked ⊢
    obtain ⟨m₁, c, h₁, hslot, hc, hc'⟩ := hchecked
    have hsize : 0 ≤ size.toInt := Int.not_lt.1 (mt (lt_zero_iff size).2 hneg)
    obtain ⟨m₂, count, h₂, htotal, hcount⟩ := h₁.at_.countsBytes grant hmul hadd
      (by rw [h₁.args, harg]) hsize htoo (d := pt₄.temps + 2) (by omega)
    have hpass := h₁.trans (h₂.mono fun t ht => .inl (Nat.lt_of_lt_of_le ht (by omega)))
    have hslot := (h₂.temps _ (.inr rfl)).trans hslot
    have hasked := h₂.at_.asksBytes grant hsingle halloc hcheck htotal (hpt₂.2 ▸ hblock)
      (d := pt₄.temps + 2) (by omega)
    rw [show m₂.requests = m.requests from hpass.logs.accounts.requests] at hasked
    refine ⟨count, hcount, ?_⟩
    cases hgrant : grant m.requests with
    | false =>
      rw [hgrant] at hasked
      exact hpass.halts hasked
    | true =>
      rw [hgrant, if_pos rfl] at hasked
      rw [if_pos rfl]
      obtain ⟨m₃, o, h₃, hraw, ho, hcell⟩ := hasked
      have hc'' := Nat.lt_of_lt_of_le hc' h₂.logs.accounts.length
      have hapart : o ≠ c := Nat.ne_of_gt (Nat.lt_of_lt_of_le hc'' ho)
      obtain ⟨m₄, h₄, hfilled⟩ := h₃.at_.returnsArray grant hcast hlength hstore hfills hret
        (by rw [h₃.args, hpass.args, harg]) hblock₄ hraw hcell ((h₃.temps _ (.inr rfl)).trans hslot)
        (Nat.lt_of_lt_of_le hc'' h₃.logs.accounts.length) hapart
      exact ⟨o, c, m₄, Nat.le_trans hpass.logs.accounts.length ho, hc, hapart,
        hpass.returns (h₃.returns h₄), hfilled⟩

/-- **An allocation of an array is exact**: the call makes an array of `size`
elements, for which `need` bytes are needed, and whose elements are `first`. -/
structure ExactArray (ir : Ir.Program) (grant : Nat → Bool) (need : Int) (size : Int32)
    (first : Ir.Value) (m : State) : Prop where
  /-- No state of the call is about to leave the 32-bit integers. -/
  exact_ : ∀ log s, Logs ir grant (State.Inside m.callers) log m s → s.Inside m.callers → s.Exact ir
  /-- It halts, before anything else, exactly if the size is negative. -/
  negative : ∀ log, HaltsAfter ir grant (State.Inside m.callers) log m
    "Array size must be non-negative" ↔ size.toInt < 0 ∧ log = []
  /-- Otherwise it halts, without a request, exactly if the bytes are no 32-bit integer. -/
  tooLarge : 0 ≤ size.toInt → (HaltsAfter ir grant (State.Inside m.callers) [] m
    "Out of memory exception" ↔ 2 ^ 31 - 1 < need)
  /-- Otherwise it asks for the bytes. It halts exactly if they are not given, and
  makes the array if they are. -/
  asks : 0 ≤ size.toInt → need ≤ 2 ^ 31 - 1 → ∃ bytes : Int32, bytes.toInt = need ∧
    (∀ log, HaltsAfter ir grant (State.Inside m.callers) log m "Out of memory exception" ↔
      grant m.requests = false ∧ log = [.request bytes]) ∧
    (grant m.requests = true → ∃ o c m', m.BuildsArray ir grant bytes size first o c m')

/-- **The code that makes arrays is exact.** -/
theorem ArrayCode.exact_ (h : ArrayCode q elem) (hsingle : q.Single) {proc : ProcId}
    (hq : ir.procs[proc]? = some q) (hframe : m.frame = .enter proc [.int size]) :
    ExactArray ir grant (size.toInt * elemBytes elem + headerBytes elem) size (firstValue elem) m := by
  -- The cases are those of the run: negative, too large, not granted, made. In each the
  -- other endings are excluded since a run has one end only.
  have hruns := h.runs grant hsingle hq hframe
  have hother : Fault.outOfMemory.message ≠ Fault.negativeSize.message := by decide
  by_cases hneg : size.toInt < 0
  · rw [if_pos ((lt_zero_iff size).2 hneg)] at hruns
    have hin := hruns.mono fun _ => State.Within.callers
    exact ⟨fun _ _ => hruns.exact_, fun log => ⟨fun h => ⟨hneg, (h.unique hin).1⟩, fun h => h.2 ▸ hin⟩,
      fun h => absurd hneg (Int.not_lt.2 h), fun h => absurd hneg (Int.not_lt.2 h)⟩
  rw [if_neg (mt (lt_zero_iff size).1 hneg)] at hruns
  have hlarge := tooLarge_iff elem (Int.not_lt.1 hneg)
  by_cases htoo : TooLarge elem size
  · rw [if_pos htoo] at hruns
    have hin := hruns.mono fun _ => State.Within.callers
    exact ⟨fun _ _ => hruns.exact_, fun log => ⟨fun h => absurd (hin.unique h).2 hother,
      fun h => absurd h.1 hneg⟩, fun _ => ⟨fun _ => hlarge.1 htoo, fun _ => hin⟩,
      fun _ h => absurd (hlarge.1 htoo) (Int.not_lt.2 h)⟩
  rw [if_neg htoo] at hruns
  obtain ⟨bytes, hbytes, hruns⟩ := hruns
  cases hgrant : grant m.requests with
  | false =>
    rw [hgrant, if_neg Bool.false_ne_true] at hruns
    have hin := hruns.mono fun _ => State.Within.callers
    refine ⟨fun _ _ => hruns.exact_, fun log => ⟨fun h => absurd (hin.unique h).2 hother,
      fun h => absurd h.1 hneg⟩, fun _ => ⟨fun h => absurd (hin.unique h).1 (by simp),
      fun h => absurd (hlarge.2 h) htoo⟩, fun _ _ => ⟨bytes, hbytes, fun log =>
        ⟨fun h => ⟨hgrant, (h.unique hin).1⟩, fun h => h.2 ▸ hin⟩,
        fun h => absurd (hgrant.symm.trans h) Bool.false_ne_true⟩⟩
  | true =>
    rw [hgrant, if_pos rfl] at hruns
    obtain ⟨o, c, m', hbuilds⟩ := hruns
    have hreturns := hbuilds.returns.mono fun _ => State.Within.callers
    exact ⟨fun _ _ => hbuilds.returns.exact_, fun log => ⟨fun h => absurd h hreturns.not_halts,
      fun h => absurd h.1 hneg⟩, fun _ => ⟨fun h => absurd h hreturns.not_halts,
      fun h => absurd (hlarge.2 h) htoo⟩, fun _ _ => ⟨bytes, hbytes, fun log =>
        ⟨fun h => absurd h hreturns.not_halts,
          fun h => absurd (h.1.symm.trans hgrant) Bool.false_ne_true⟩,
        fun _ => ⟨o, c, m', hbuilds⟩⟩⟩

end Calls

/-! ## Accepted programs -/

/-- **Array allocation is exact**: in a program that an accepted one is lowered to,
every procedure that makes arrays does, for every size and whatever requests are
met, what its type of elements says. -/
theorem Accepted.arrays_exact {source printName : String} {p : Program}
    (h : Accepted source printName p) (options : Options) :
    ∃ s : Session, (buildProgram (Typing.analyze p ⟨printName⟩) p options).run .start = .ok ((), s) ∧
      lowerProgram (Typing.analyze p ⟨printName⟩) p options = .ok s.ir ∧
      ∀ ty proc, s.arrayAllocators.get? ty = some proc →
        ∃ elem target struct name q, Denotes p (Typing.analyze p ⟨printName⟩).findings.table ty elem ∧
          Represents p (Typing.analyze p ⟨printName⟩) s elem target ∧
          s.ir.structs[struct]? = some ⟨name, arrayFields target⟩ ∧
          s.ir.procs[proc]? = some q ∧ q.name = "new_array_" ++ elem.spelling ∧
          q.params = [⟨"size", .int⟩] ∧ q.ret = .ptr (.struct struct) ∧
          ∀ (grant : Nat → Bool) (n : Int32) (m : State), m.frame = .enter proc [.int n] →
            ExactArray s.ir grant (n.toInt * s.ir.sizeOf target + s.ir.fieldOffset struct 1) n
              (firstValue elem) m := by
  obtain ⟨s, hrun, hs, hcomplete⟩ := h.complete options
  refine ⟨s, hrun, hs, fun ty proc hproc => ?_⟩
  obtain ⟨-, q, elem, struct, hq, hd, hstruct, hparams, hret, -, hsingle, hcode, hname⟩ :=
    hcomplete.ready.arrays ty proc hproc
  obtain ⟨target, name, htarget, hdecl⟩ := hcomplete.ready.typed.array hstruct hd
  have hlayout := elemLayout htarget hdecl
  refine ⟨elem, target, struct, name, q, hd, htarget, hdecl, hq, ?_, hparams, hret,
    fun grant n m hframe => ?_⟩
  · rw [hname, mangle_of_denotes h.supports.covers.table (Typing.classNames_analyze p _) hd]
  · rw [hlayout.size, hlayout.header]
    exact hcode.exact_ hsingle hq hframe

/-- A program that makes an array. -/
def allocating : String := "int main() { int[] a; a = new int[3]; return a.length; }"

set_option maxRecDepth 100000 in
/-- The program is read and analysed without an error, and its allocator is known. -/
theorem run_allocating : (Source.parse allocating).error? = none ∧
    (Typing.analyze (Source.parse allocating).program ⟨"print"⟩).ok = true ∧
    ((buildProgram (Typing.analyze (Source.parse allocating).program ⟨"print"⟩)
      (Source.parse allocating).program ⟨false⟩).run .start).map (fun r =>
        r.2.arrayAllocators.get? .int) = .ok (some 1) := by
  rw [Source.parse_eq_of_chars allocating String.toList_ofList]
  decide +kernel

/-- The longest array of integers that is asked for, and one that is longer. -/
theorem arrays_exact_allocating : ∃ (s : Session) (q : Proc),
    lowerProgram (Typing.analyze (Source.parse allocating).program ⟨"print"⟩)
      (Source.parse allocating).program ⟨false⟩ = .ok s.ir ∧
    s.ir.procs[1]? = some q ∧ q.name = "new_array_int" ∧
    (∃ o c m', (State.call [] 1 [.int 536870910]).BuildsArray s.ir (fun _ => true) 2147483644
      536870910 (.int 0) o c m') ∧
    HaltsAfter s.ir (fun _ => true) (State.Inside []) [] (.call [] 1 [.int 536870911])
      "Out of memory exception" := by
  obtain ⟨hread, hok, hsession⟩ := run_allocating
  have haccepted : Accepted allocating "print" _ := .of_parse hread (by decide) hok
  obtain ⟨s, hrun, hs, harrays⟩ := haccepted.arrays_exact ⟨false⟩
  have hproc : s.arrayAllocators.get? .int = some 1 := by
    rw [hrun] at hsession
    exact Except.ok.inj hsession
  obtain ⟨elem, target, struct, name, q, hd, htarget, hdecl, hq, hname, -, -, hexact⟩ :=
    harrays .int 1 hproc
  have hlayout := elemLayout htarget hdecl
  cases hd
  rw [hlayout.size, hlayout.header] at hexact
  refine ⟨s, q, hs, hq, hname, ?_, ?_⟩
  · obtain ⟨bytes, hbytes, -, hbuilds⟩ := (hexact (fun _ => true) 536870910 (.call [] 1 _) rfl).asks
      (by decide) (by decide)
    obtain rfl : bytes = 2147483644 := Int32.toInt_inj.1 hbytes
    exact hbuilds rfl
  · exact ((hexact (fun _ => true) 536870911 (.call [] 1 _) rfl).tooLarge (by decide)).2 (by decide)

end Lowering

end ClassLang
