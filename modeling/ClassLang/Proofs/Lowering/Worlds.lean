import ClassLang.Proofs.Ir.Machine
import ClassLang.Proofs.Lowering.Code
/-!
# Lowering — values and heaps in memory

A `World` says which allocation stands for the object or the array at an
address of the source, and what it is. `Matches` relates the values of a
type in source and machine, `HeapMatches` a heap and a memory: every object
has its vtable in front of its fields, every array its length in front of
its elements, and no allocation stands for two addresses. Allocations that
stand for nothing are `Free`: slots, and what is still being filled.
-/


namespace ClassLang.Lowering

open Source (TypeExpr Program)
open Typing (ExprTy Fits)
open Semantics (Cell)
open Ir (Addr)

/-- What is at an address. An array keeps its length. -/
inductive Kind
  | object (class_ : ClassId)
  | array (elem : TypeExpr) (length : Nat)

/-- The allocation that stands for an address, and what it is. -/
structure Link where
  object : Nat
  kind : Kind

/-- What stands for which address. -/
abbrev World : Type := Nat → Option Link

namespace World

variable {W W' W'' : World}

/-- What stands for something goes on to do so. -/
def Grows (W W' : World) : Prop := ∀ addr link, W addr = some link → W' addr = some link

theorem Grows.refl (W : World) : W.Grows W := fun _ _ h => h

theorem Grows.trans (h : W.Grows W') (h' : W'.Grows W'') : W.Grows W'' := fun addr link hlink =>
  h' addr link (h addr link hlink)

/-- The allocation stands for nothing. -/
def Free (W : World) (globals object : Nat) : Prop :=
  globals ≤ object ∧ ∀ addr link, W addr = some link → link.object ≠ object

/-- The world with something at another address. -/
def link (W : World) (addr : Nat) (l : Link) : World := fun other =>
  if other = addr then some l else W other

theorem grows_link {addr : Nat} (h : W addr = none) (l : Link) : W.Grows (W.link addr l) := by
  intro other link hlink
  rw [World.link, if_neg]
  · exact hlink
  · rintro rfl
    rw [h] at hlink
    cases hlink

end World

variable {p : Program} {W W' : World}

/-! ## Values -/

variable (p W) in
/-- **The values of a type** in source and machine. -/
inductive Matches : TypeExpr → Semantics.Value → Ir.Value → Prop
  | int (value : Int32) : Matches .int (.int value) (.int value)
  | bool (value : Bool) : Matches .bool (.bool value) (.bool value)
  | nullClass (name : String) : Matches (.class_ name) .null .null
  | nullArray (elem : TypeExpr) : Matches (.array elem) .null .null
  | object {name id sub addr o} : p.classId? name = some id → p.Inherits sub id →
      W addr = some ⟨o, .object sub⟩ → Matches (.class_ name) (.ref addr) (.ptr ⟨o, []⟩)
  | array {elem length addr o} : W addr = some ⟨o, .array elem length⟩ →
      Matches (.array elem) (.ref addr) (.ptr ⟨o, []⟩)

variable (p W) in
/-- The same for the type of an expression. -/
inductive MatchesExpr : ExprTy → Semantics.Value → Ir.Value → Prop
  | null : MatchesExpr .null .null .null
  | written {ty v v'} : Matches p W ty v v' → MatchesExpr (.written ty) v v'

variable (p W) in
/-- The same of lists. -/
inductive MatchesAll : List TypeExpr → List Semantics.Value → List Ir.Value → Prop
  | nil : MatchesAll [] [] []
  | cons {ty tys v vs v' vs'} : Matches p W ty v v' → MatchesAll tys vs vs' →
      MatchesAll (ty :: tys) (v :: vs) (v' :: vs')

section Values

variable {ty : TypeExpr} {τ : ExprTy} {v : Semantics.Value} {v' : Ir.Value}

theorem Matches.mono (h : Matches p W ty v v') (hW : W.Grows W') : Matches p W' ty v v' := by
  cases h with
  | int | bool | nullClass | nullArray => constructor
  | object hid hinherits hlink => exact .object hid hinherits (hW _ _ hlink)
  | array hlink => exact .array (hW _ _ hlink)

theorem MatchesExpr.mono (h : MatchesExpr p W τ v v') (hW : W.Grows W') :
    MatchesExpr p W' τ v v' := by
  cases h with
  | null => exact .null
  | written h => exact .written (h.mono hW)

theorem MatchesAll.length_eq {tys : List TypeExpr} {vs : List Semantics.Value}
    {vs' : List Ir.Value} (h : MatchesAll p W tys vs vs') :
    vs.length = tys.length ∧ vs'.length = tys.length := by
  induction h with
  | nil => exact ⟨rfl, rfl⟩
  | cons _ _ ih => simp [ih]

theorem MatchesExpr.of_written (h : MatchesExpr p W (.written ty) v v') : Matches p W ty v v' := by
  cases h with
  | written h => exact h

/-- A value that fits where a type is expected is one of the type. -/
theorem MatchesExpr.fits (h : MatchesExpr p W τ v v') (hfits : Fits p τ (.written ty)) :
    Matches p W ty v v' := by
  cases hfits with
  | refl => exact h.of_written
  | nullClass name =>
    cases h
    exact .nullClass name
  | nullArray elem =>
    cases h
    exact .nullArray elem
  | class_ hsub hsup hinherits =>
    cases h.of_written with
    | nullClass => exact .nullClass _
    | object hid hsub' hlink =>
      obtain rfl := Option.some.inj (hsub.symm.trans hid)
      exact .object hsup (hsub'.trans hinherits) hlink

theorem Matches.int_inv (h : Matches p W .int v v') : ∃ value, v = .int value ∧ v' = .int value := by
  cases h with
  | int value => exact ⟨value, rfl, rfl⟩

theorem Matches.bool_inv (h : Matches p W .bool v v') :
    ∃ value, v = .bool value ∧ v' = .bool value := by
  cases h with
  | bool value => exact ⟨value, rfl, rfl⟩

/-- The first values match. -/
theorem matches_default (ty : TypeExpr) (f : Ir.Frame) (ir : Ir.Program) :
    ∃ v', f.eval? ir (defaultOperand ty) = some v' ∧ Matches p W ty (Semantics.default ty) v' := by
  cases ty with
  | int => exact ⟨_, rfl, .int 0⟩
  | bool => exact ⟨_, rfl, .bool false⟩
  | class_ name => exact ⟨_, rfl, .nullClass name⟩
  | array elem => exact ⟨_, rfl, .nullArray elem⟩

/-- No allocation stands for two addresses. -/
def World.Apart (W : World) : Prop :=
  ∀ addr addr' link link', W addr = some link → W addr' = some link' →
    link.object = link'.object → addr = addr'

/-- What the values have in common, whatever the type is. -/
inductive Same (W : World) : Semantics.Value → Ir.Value → Prop
  | int (value : Int32) : Same W (.int value) (.int value)
  | bool (value : Bool) : Same W (.bool value) (.bool value)
  | null : Same W .null .null
  | ref {addr link} : W addr = some link → Same W (.ref addr) (.ptr ⟨link.object, []⟩)

theorem MatchesExpr.same (h : MatchesExpr p W τ v v') : Same W v v' := by
  cases h with
  | null => exact .null
  | written h =>
    cases h with
    | int value => exact .int value
    | bool value => exact .bool value
    | nullClass | nullArray => exact .null
    | object _ _ hlink | array hlink => exact .ref hlink

/-- **Values are equal in the source as they are in the machine.** -/
theorem Same.eq_iff (hW : W.Apart) {w : Semantics.Value} {w' : Ir.Value} (h : Same W v v')
    (h' : Same W w w') : v = w ↔ v' = w' := by
  cases h with
  | int | bool | null => cases h' <;> simp
  | @ref addr link hlink =>
    cases h' with
    | int | bool | null => simp
    | @ref addr' link' hlink' =>
      refine ⟨fun heq => ?_, fun heq => ?_⟩
      · obtain rfl := Semantics.Value.ref.inj heq
        rw [Option.some.inj (hlink.symm.trans hlink')]
      · have hobject : link.object = link'.object := congrArg Addr.object (Ir.Value.ptr.inj heq)
        rw [hW addr addr' link link' hlink hlink' hobject]

end Values

/-! ## Heaps -/

variable (p W) in
/-- **What an allocation holds**, as the source has it. -/
inductive CellMatches : Kind → Cell → Ir.Cell → Prop
  | object {id fields c} : c.load? [0] = some (.ptr ⟨id, []⟩) →
      (∀ (i : Nat) ref, (p.fieldRefs id)[i]? = some ref → ∃ field v v', fieldDecl? p ref = some field ∧
        fields ref = some v ∧ c.load? [i + 1] = some v' ∧ Matches p W field.ty v v') →
      CellMatches (.object id) (.object id fields) c
  | array {elem length elems c} : elems.length = length →
      c.load? [0] = some (.int (.ofNat length)) → length < 2 ^ 31 →
      (∀ (i : Nat) v, elems[i]? = some v →
        ∃ v', c.load? [1, i] = some v' ∧ Matches p W elem v v') →
      CellMatches (.array elem length) (.array elems) c

theorem CellMatches.mono {kind : Kind} {c : Cell} {c' : Ir.Cell} (h : CellMatches p W kind c c')
    (hW : W.Grows W') : CellMatches p W' kind c c' := by
  cases h with
  | object hheader hfields =>
    refine .object hheader fun i ref href => ?_
    obtain ⟨field, v, v', hfield, hv, hload, hm⟩ := hfields i ref href
    exact ⟨field, v, v', hfield, hv, hload, hm.mono hW⟩
  | array hcount hlength hsmall helems =>
    refine .array hcount hlength hsmall fun i v hv => ?_
    obtain ⟨v', hload, hm⟩ := helems i v hv
    exact ⟨v', hload, hm.mono hW⟩

/-- A field gets another value. -/
theorem CellMatches.setField (hnodup : ∀ id, (p.fieldRefs id).Nodup) {id : ClassId}
    {fields : MemberRef → Option Semantics.Value} {c : Ir.Cell}
    (h : CellMatches p W (.object id) (.object id fields) c) {i : Nat} {ref : MemberRef}
    (hi : (p.fieldRefs id)[i]? = some ref) {field : Source.VarDecl}
    (hfield : fieldDecl? p ref = some field) {v : Semantics.Value} {v' : Ir.Value}
    (hv : Matches p W field.ty v v') :
    CellMatches p W (.object id)
      (.object id fun other => if other = ref then some v else fields other)
      (c.store [i + 1] v') := by
  cases h with
  | object hheader hfields =>
    refine .object ?_ fun j other hj => ?_
    · rw [Ir.Cell.load?_store_of_diverge _ (by simp) (by simp), hheader]
    · by_cases hij : j = i
      · subst hij
        obtain rfl := Option.some.inj (hi.symm.trans hj)
        exact ⟨field, v, v', hfield, if_pos rfl, Ir.Cell.load?_store_self _ _ _, hv⟩
      · obtain ⟨f, w, w', hf, hw, hload, hm⟩ := hfields j other hj
        -- No field has two places.
        have hne : other ≠ ref := by
          rintro rfl
          obtain ⟨hlt, hget⟩ := List.getElem?_eq_some_iff.1 hi
          obtain ⟨hlt', hget'⟩ := List.getElem?_eq_some_iff.1 hj
          exact hij ((hnodup id).getElem_inj_iff.1 (hget'.trans hget.symm))
        refine ⟨f, w, w', hf, by rw [if_neg hne, hw], ?_, hm⟩
        rw [Ir.Cell.load?_store_of_diverge _ (by simpa using Ne.symm hij) (by simpa using hij), hload]

/-- An element gets another value. -/
theorem CellMatches.setElem {elem : TypeExpr} {length : Nat} {elems : List Semantics.Value}
    {c : Ir.Cell} (h : CellMatches p W (.array elem length) (.array elems) c) {i : Nat}
    {v : Semantics.Value} {v' : Ir.Value} (hv : Matches p W elem v v') :
    CellMatches p W (.array elem length) (.array (elems.set i v)) (c.store [1, i] v') := by
  cases h with
  | array hcount hlength hsmall helems =>
    refine .array (List.length_set.trans hcount) ?_ hsmall fun j w hj => ?_
    · rw [Ir.Cell.load?_store_of_diverge _ (by simp) (by simp), hlength]
    · by_cases hij : i = j
      · subst hij
        have hlt : i < elems.length := by simpa using (List.getElem?_eq_some_iff.1 hj).1
        rw [List.getElem?_set_self hlt, Option.some_inj] at hj
        exact ⟨v', Ir.Cell.load?_store_self _ _ _, hj ▸ hv⟩
      · rw [List.getElem?_set_ne hij] at hj
        obtain ⟨w', hload, hm⟩ := helems j w hj
        refine ⟨w', ?_, hm⟩
        rw [Ir.Cell.load?_store_of_diverge _ (by simpa using hij) (by simpa using Ne.symm hij), hload]

variable (p) in
/-- **A heap in memory.** -/
structure HeapMatches (ir : Ir.Program) (W : World) (heap : Nat → Option Cell)
    (memory : List Ir.Cell) : Prop where
  globals : ir.globalCells <+: memory
  cells : ∀ addr link, W addr = some link → ∃ c c', heap addr = some c ∧
    memory[link.object]? = some c' ∧ CellMatches p W link.kind c c'
  apart : W.Apart
  behind : ∀ addr link, W addr = some link → ir.globals.length ≤ link.object

namespace HeapMatches

variable {ir : Ir.Program} {heap : Nat → Option Cell} {memory : List Ir.Cell}

theorem lt (h : HeapMatches p ir W heap memory) {addr : Nat} {l : Link} (hl : W addr = some l) :
    l.object < memory.length := by
  obtain ⟨-, c', -, hc', -⟩ := h.cells addr l hl
  exact (List.getElem?_eq_some_iff.1 hc').1

/-- Nothing stands for anything behind the memory. -/
theorem free_length (h : HeapMatches p ir W heap memory) : W.Free ir.globals.length memory.length := by
  refine ⟨?_, fun addr l hl => Nat.ne_of_lt (h.lt hl)⟩
  simpa [Ir.Program.globalCells] using h.globals.length_le

/-- Another allocation. -/
theorem append (h : HeapMatches p ir W heap memory) (c : Ir.Cell) :
    HeapMatches p ir W heap (memory ++ [c]) := by
  refine ⟨h.globals.trans (List.prefix_append _ _), fun addr l hl => ?_, h.apart, h.behind⟩
  obtain ⟨d, d', hd, hd', hm⟩ := h.cells addr l hl
  exact ⟨d, d', hd, getElem?_of_initial (List.prefix_append _ _) hd', hm⟩

/-- The globals stay if memory changes behind them. -/
theorem globals_set (h : HeapMatches p ir W heap memory) {o : Nat} (ho : ir.globals.length ≤ o)
    (c : Ir.Cell) : ir.globalCells <+: memory.set o c := by
  obtain ⟨rest, heq⟩ := h.globals
  have ho : ir.globalCells.length ≤ o := by simpa [Ir.Program.globalCells] using ho
  rw [← heq, List.set_append_right _ _ ho]
  exact List.prefix_append _ _

/-- What stands for nothing may change. -/
theorem set_free (h : HeapMatches p ir W heap memory) {o : Nat}
    (ho : W.Free ir.globals.length o) (c : Ir.Cell) :
    HeapMatches p ir W heap (memory.set o c) := by
  refine ⟨h.globals_set ho.1 c, fun addr l hl => ?_, h.apart,
    h.behind⟩
  obtain ⟨d, d', hd, hd', hm⟩ := h.cells addr l hl
  exact ⟨d, d', hd, by rw [List.getElem?_set_ne (ho.2 addr l hl).symm, hd'], hm⟩

/-- **A cell changes** in heap and memory. -/
theorem set_cell (h : HeapMatches p ir W heap memory) {addr : Nat} {l : Link}
    (hl : W addr = some l) {c : Cell} {c' : Ir.Cell} (hm : CellMatches p W l.kind c c') :
    HeapMatches p ir W (fun other => if other = addr then some c else heap other)
      (memory.set l.object c') := by
  refine ⟨h.globals_set (h.behind addr l hl) c',
    fun other l' hl' => ?_, h.apart, h.behind⟩
  by_cases heq : other = addr
  · subst heq
    obtain rfl := Option.some.inj (hl.symm.trans hl')
    exact ⟨c, c', if_pos rfl, List.getElem?_set_self (h.lt hl), hm⟩
  · obtain ⟨d, d', hd, hd', hm'⟩ := h.cells other l' hl'
    have hne : l.object ≠ l'.object := fun hobject => heq (h.apart other addr l' l hl' hl hobject.symm)
    exact ⟨d, d', by rw [if_neg heq, hd], by rw [List.getElem?_set_ne hne, hd'], hm'⟩

/-- **An allocation comes to stand** for a new address. -/
theorem link (h : HeapMatches p ir W heap memory) {addr : Nat} (haddr : W addr = none) {o : Nat}
    (ho : W.Free ir.globals.length o) {kind : Kind} {c : Cell} {c' : Ir.Cell}
    (hc' : memory[o]? = some c') (hm : CellMatches p (W.link addr ⟨o, kind⟩) kind c c') :
    HeapMatches p ir (W.link addr ⟨o, kind⟩)
      (fun other => if other = addr then some c else heap other) memory := by
  have hgrows := World.grows_link haddr ⟨o, kind⟩
  have hold {other : Nat} {l : Link} (hl : W.link addr ⟨o, kind⟩ other = some l) (hne : other ≠ addr) :
      W other = some l := by
    rw [World.link, if_neg hne] at hl
    exact hl
  have hnew {l : Link} (hl : W.link addr ⟨o, kind⟩ addr = some l) : l = ⟨o, kind⟩ := by
    rw [World.link, if_pos rfl] at hl
    exact (Option.some.inj hl).symm
  refine ⟨h.globals, fun other l hl => ?_, fun x y l l' hl hl' hobject => ?_, fun other l hl => ?_⟩
  · by_cases heq : other = addr
    · subst heq
      obtain rfl := hnew hl
      exact ⟨c, c', if_pos rfl, hc', hm⟩
    · obtain ⟨d, d', hd, hd', hm'⟩ := h.cells other l (hold hl heq)
      exact ⟨d, d', by rw [if_neg heq, hd], hd', hm'.mono hgrows⟩
  · -- What comes to stand for the new address has stood for none.
    by_cases hx : x = addr <;> by_cases hy : y = addr
    · rw [hx, hy]
    · subst hx
      obtain rfl := hnew hl
      exact absurd hobject.symm (ho.2 y l' (hold hl' hy))
    · subst hy
      obtain rfl := hnew hl'
      exact absurd hobject (ho.2 x l (hold hl hx))
    · exact h.apart x y l l' (hold hl hx) (hold hl' hy) hobject
  · by_cases heq : other = addr
    · subst heq
      obtain rfl := hnew hl
      exact ho.1
    · exact h.behind other l (hold hl heq)

end HeapMatches

end ClassLang.Lowering
