import Mathlib.Algebra.GroupWithZero.Nat
import ClassLang.Proofs.Ir.Nesting
/-!
# Intermediate form — sizes as they are computed

Sizes, alignments and offsets are computed by recursion on types that goes on
in the structs that they hold, in 32-bit arithmetic. `Computes` takes each of
these computations step by step: the size of a struct and the offset of a field
come from loops of their own. Where no struct is nested in itself every
computation ends (`Acyclic.ends`), and where sizes fit into 32 bits it comes to
the size, the alignment and the offset that the layout gives
(`Acyclic.computes_iff`).
-/


namespace ClassLang.Ir

/-- What is computed of a program. -/
inductive Query
  | size (ty : Ty)
  | align (ty : Ty)
  /-- The end of fields that are placed from an offset on. -/
  | stop (fields : List Field) (start : Nat)
  /-- The greatest alignment of fields and one found before. -/
  | widest (fields : List Field) (best : Nat)
  /-- The offset of a field of those that are placed from an offset on. -/
  | offset (fields : List Field) (start index : Nat)

/-- A number in 32 bits. One that does not fit is cut off if numbers wrap
around, and else there is no result. -/
inductive Word (wraps : Bool) (n : Nat) : Nat → Prop
  | fits : n < 2 ^ 32 → Word wraps n n
  | cut : wraps = true → Word wraps n (n % 2 ^ 32)

/-- **A computation comes to a number.** -/
inductive Computes (p : Program) (wraps : Bool) : Query → Nat → Prop
  | int : Computes p wraps (.size .int) 4
  | bool : Computes p wraps (.size .bool) 1
  | byte : Computes p wraps (.size .byte) 1
  | null : Computes p wraps (.size .null) 8
  | ptr {ty} : Computes p wraps (.size (.ptr ty)) 8
  | proc {ret params} : Computes p wraps (.size (.proc ret params)) 8
  | array {elem length n size} : Computes p wraps (.size elem) n → Word wraps (n * length) size →
      Computes p wraps (.size (.array elem length)) size
  | noStruct {id} : p.structs[id]? = none → Computes p wraps (.size (.struct id)) 0
  | struct {id s stop align size} : p.structs[id]? = some s →
      Computes p wraps (.stop s.fields 0) stop → Computes p wraps (.align (.struct id)) align →
      Word wraps (alignUp stop align) size → Computes p wraps (.size (.struct id)) size
  | stopNone {start} : Computes p wraps (.stop [] start) start
  | stopMore {f rest start align offset size next stop} : Computes p wraps (.align f.ty) align →
      Word wraps (alignUp start align) offset → Computes p wraps (.size f.ty) size →
      Word wraps (offset + size) next → Computes p wraps (.stop rest next) stop →
      Computes p wraps (.stop (f :: rest) start) stop
  | alignInt : Computes p wraps (.align .int) 4
  | alignBool : Computes p wraps (.align .bool) 1
  | alignByte : Computes p wraps (.align .byte) 1
  | alignNull : Computes p wraps (.align .null) 8
  | alignPtr {ty} : Computes p wraps (.align (.ptr ty)) 8
  | alignProc {ret params} : Computes p wraps (.align (.proc ret params)) 8
  | alignArray {elem length align} : Computes p wraps (.align elem) align →
      Computes p wraps (.align (.array elem length)) align
  | alignNone {id} : p.structs[id]? = none → Computes p wraps (.align (.struct id)) 1
  | alignEmpty {id s} : p.structs[id]? = some s → s.fields = [] →
      Computes p wraps (.align (.struct id)) 1
  | alignStruct {id s f rest first align} : p.structs[id]? = some s → s.fields = f :: rest →
      Computes p wraps (.align f.ty) first → Computes p wraps (.widest rest first) align →
      Computes p wraps (.align (.struct id)) align
  | widestNone {best} : Computes p wraps (.widest [] best) best
  | widestMore {f rest best align widest} : Computes p wraps (.align f.ty) align →
      Computes p wraps (.widest rest (max best align)) widest →
      Computes p wraps (.widest (f :: rest) best) widest
  | offsetNone {start index} : Computes p wraps (.offset [] start index) start
  | offsetHere {f rest start align offset} : Computes p wraps (.align f.ty) align →
      Word wraps (alignUp start align) offset →
      Computes p wraps (.offset (f :: rest) start 0) offset
  | offsetMore {f rest start index align offset size next found} :
      Computes p wraps (.align f.ty) align → Word wraps (alignUp start align) offset →
      Computes p wraps (.size f.ty) size → Word wraps (offset + size) next →
      Computes p wraps (.offset rest next index) found →
      Computes p wraps (.offset (f :: rest) start (index + 1)) found

variable {p : Program} {wraps : Bool}

theorem Word.unique {n m m' : Nat} (h : Word wraps n m) (h' : Word wraps n m') : m = m' := by
  cases h with
  | fits hlt =>
    cases h' with
    | fits => rfl
    | cut => exact (Nat.mod_eq_of_lt hlt).symm
  | cut =>
    cases h' with
    | fits hlt => exact Nat.mod_eq_of_lt hlt
    | cut => rfl

/-- **A computation comes to one number only.** -/
theorem Computes.unique {q : Query} {n n' : Nat} (h : Computes p wraps q n)
    (h' : Computes p wraps q n') : n = n' := by
  -- The induction is on the first computation. What is looked up leaves the second one the
  -- same rule, or rules with the same result.
  induction h generalizing n' with
  | int | bool | byte | null | ptr | proc => cases h'; rfl
  | alignInt | alignBool | alignByte | alignNull | alignPtr | alignProc => cases h'; rfl
  | stopNone | widestNone | offsetNone => cases h'; rfl
  | array _ hword ih =>
    cases h' with
    | array helem hword' =>
      obtain rfl := ih helem
      exact hword.unique hword'
  | noStruct hnone =>
    cases h' with
    | noStruct => rfl
    | struct hs => rw [hnone] at hs; cases hs
  | struct hs _ _ hword ihstop ihalign =>
    cases h' with
    | noStruct hnone => rw [hnone] at hs; cases hs
    | struct hs' hstop halign hword' =>
      obtain rfl := Option.some.inj (hs.symm.trans hs')
      obtain rfl := ihstop hstop
      obtain rfl := ihalign halign
      exact hword.unique hword'
  | stopMore _ hword _ hnext _ ihalign ihsize ihstop =>
    cases h' with
    | stopMore halign hword' hsize hnext' hstop =>
      obtain rfl := ihalign halign
      obtain rfl := hword.unique hword'
      obtain rfl := ihsize hsize
      obtain rfl := hnext.unique hnext'
      exact ihstop hstop
  | alignArray _ ih =>
    cases h' with
    | alignArray helem => exact ih helem
  | alignNone hnone =>
    cases h' with
    | alignNone | alignEmpty => rfl
    | alignStruct hs => rw [hnone] at hs; cases hs
  | alignEmpty hs hempty =>
    cases h' with
    | alignNone | alignEmpty => rfl
    | alignStruct hs' hfields =>
      obtain rfl := Option.some.inj (hs.symm.trans hs')
      rw [hempty] at hfields
      cases hfields
  | alignStruct hs hfields _ _ ihfirst ihrest =>
    cases h' with
    | alignNone hnone => rw [hnone] at hs; cases hs
    | alignEmpty hs' hempty =>
      obtain rfl := Option.some.inj (hs.symm.trans hs')
      rw [hempty] at hfields
      cases hfields
    | alignStruct hs' hfields' hfirst hrest =>
      obtain rfl := Option.some.inj (hs.symm.trans hs')
      obtain ⟨rfl, rfl⟩ := List.cons.inj (hfields.symm.trans hfields')
      obtain rfl := ihfirst hfirst
      exact ihrest hrest
  | widestMore _ _ ihalign ihrest =>
    cases h' with
    | widestMore halign hrest =>
      obtain rfl := ihalign halign
      exact ihrest hrest
  | offsetHere _ hword ihalign =>
    cases h' with
    | offsetHere halign hword' =>
      obtain rfl := ihalign halign
      exact hword.unique hword'
  | offsetMore _ hword _ hnext _ ihalign ihsize ihoffset =>
    cases h' with
    | offsetMore halign hword' hsize hnext' hoffset =>
      obtain rfl := ihalign halign
      obtain rfl := hword.unique hword'
      obtain rfl := ihsize hsize
      obtain rfl := hnext.unique hnext'
      exact ihoffset hoffset

theorem Computes.iff {q : Query} {n : Nat} (h : Computes p wraps q n) (m : Nat) :
    Computes p wraps q m ↔ m = n :=
  ⟨fun h' => h'.unique h, fun heq => heq ▸ h⟩

/-! ## Computations end -/

/-- The computation ends, if numbers wrap around. -/
def Query.Ends (p : Program) (q : Query) : Prop := ∃ n, Computes p true q n

/-- The size and the alignment of a type can be computed. -/
def Ty.Measured (p : Program) (ty : Ty) : Prop := (Query.size ty).Ends p ∧ (Query.align ty).Ends p

theorem Ty.measured_of_parts :
    (ty : Ty) → (∀ id ∈ ty.parts, (struct id).Measured p) → ty.Measured p
  | .struct id, h => h id (List.mem_singleton_self id)
  | .array elem length, h => by
    obtain ⟨⟨size, hsize⟩, align, halign⟩ := elem.measured_of_parts h
    exact ⟨⟨_, .array hsize (.cut rfl)⟩, _, .alignArray halign⟩
  | .int, _ => ⟨⟨_, .int⟩, _, .alignInt⟩
  | .bool, _ => ⟨⟨_, .bool⟩, _, .alignBool⟩
  | .byte, _ => ⟨⟨_, .byte⟩, _, .alignByte⟩
  | .null, _ => ⟨⟨_, .null⟩, _, .alignNull⟩
  | .ptr _, _ => ⟨⟨_, .ptr⟩, _, .alignPtr⟩
  | .proc _ _, _ => ⟨⟨_, .proc⟩, _, .alignProc⟩

section Fields

variable {fields : List Field}

theorem ends_stop (h : ∀ f ∈ fields, f.ty.Measured p) (start : Nat) :
    (Query.stop fields start).Ends p := by
  induction fields generalizing start with
  | nil => exact ⟨_, .stopNone⟩
  | cons f rest ih =>
    obtain ⟨⟨⟨size, hsize⟩, align, halign⟩, hrest⟩ := List.forall_mem_cons.1 h
    obtain ⟨stop, hstop⟩ := ih hrest (((alignUp start align) % 2 ^ 32 + size) % 2 ^ 32)
    exact ⟨_, .stopMore halign (.cut rfl) hsize (.cut rfl) hstop⟩

theorem ends_widest (h : ∀ f ∈ fields, f.ty.Measured p) (best : Nat) :
    (Query.widest fields best).Ends p := by
  induction fields generalizing best with
  | nil => exact ⟨_, .widestNone⟩
  | cons f rest ih =>
    obtain ⟨⟨-, align, halign⟩, hrest⟩ := List.forall_mem_cons.1 h
    obtain ⟨widest, hwidest⟩ := ih hrest (max best align)
    exact ⟨_, .widestMore halign hwidest⟩

theorem ends_offset (h : ∀ f ∈ fields, f.ty.Measured p) (start index : Nat) :
    (Query.offset fields start index).Ends p := by
  induction fields generalizing start index with
  | nil => exact ⟨_, .offsetNone⟩
  | cons f rest ih =>
    obtain ⟨⟨⟨size, hsize⟩, align, halign⟩, hrest⟩ := List.forall_mem_cons.1 h
    cases index with
    | zero => exact ⟨_, .offsetHere halign (.cut rfl)⟩
    | succ index =>
      obtain ⟨found, hfound⟩ := ih hrest (((alignUp start align) % 2 ^ 32 + size) % 2 ^ 32) index
      exact ⟨_, .offsetMore halign (.cut rfl) hsize (.cut rfl) hfound⟩

end Fields

namespace Program

variable {id : StructId} {s : StructDef} {depth : Nat}

theorem Shallow.measured (h : p.Shallow depth id) : (Ty.struct id).Measured p := by
  induction h with
  | missing hnone => exact ⟨⟨_, .noStruct hnone⟩, _, .alignNone hnone⟩
  | @within depth id _ ih =>
    cases hs : p.structs[id]? with
    | none => exact ⟨⟨_, .noStruct hs⟩, _, .alignNone hs⟩
    | some s =>
      have hfields : ∀ f ∈ s.fields, f.ty.Measured p := fun f hf =>
        f.ty.measured_of_parts fun inner hinner => ih inner ⟨s, hs, f, hf, hinner⟩
      have halign : (Query.align (.struct id)).Ends p := by
        cases hempty : s.fields with
        | nil => exact ⟨_, .alignEmpty hs hempty⟩
        | cons f rest =>
          rw [hempty, List.forall_mem_cons] at hfields
          obtain ⟨⟨-, first, hfirst⟩, hrest⟩ := hfields
          obtain ⟨widest, hwidest⟩ := ends_widest hrest first
          exact ⟨_, .alignStruct hs hempty hfirst hwidest⟩
      obtain ⟨stop, hstop⟩ := ends_stop hfields 0
      obtain ⟨align, halign⟩ := halign
      exact ⟨⟨_, .struct hs hstop halign (.cut rfl)⟩, _, halign⟩

/-- **Every computation ends** where no struct is nested in itself. -/
theorem Acyclic.ends (h : p.Acyclic) (q : Query) : q.Ends p := by
  have htype (ty : Ty) : ty.Measured p := ty.measured_of_parts fun id _ => (h.shallow id).measured
  cases q with
  | size ty => exact (htype ty).1
  | align ty => exact (htype ty).2
  | stop fields start => exact ends_stop (fun f _ => htype f.ty) start
  | widest fields best => exact ends_widest (fun f _ => htype f.ty) best
  | offset fields start index => exact ends_offset (fun f _ => htype f.ty) start index

end Program

/-! ## What they come to -/

/-- The sizes of the arrays in a type fit into 32 bits. -/
def Ty.Fits (p : Program) : Ty → Prop
  | .array elem length => p.sizeOf (.array elem length) < 2 ^ 32 ∧ elem.Fits p
  | _ => True

/-- **Sizes fit into 32 bits.** -/
def Program.Fits (p : Program) : Prop :=
  ∀ id s, p.structs[id]? = some s → p.sizeOf (.struct id) < 2 ^ 32 ∧ ∀ f ∈ s.fields, f.ty.Fits p

/-- The size and the alignment of a type are computed as its extent gives them. -/
def Ty.Exact (p : Program) (wraps : Bool) (ty : Ty) : Prop :=
  Computes p wraps (.size ty) (p.sizeOf ty) ∧ Computes p wraps (.align ty) (p.alignOf ty)

theorem Ty.exact_of_parts : (ty : Ty) → (∀ id ∈ ty.parts, (struct id).Exact p wraps) →
    ty.Fits p → ty.Exact p wraps
  | .struct id, h, _ => h id (List.mem_singleton_self id)
  | .array elem _, h, hfits => by
    obtain ⟨hsize, halign⟩ := elem.exact_of_parts h hfits.2
    exact ⟨.array hsize (.fits hfits.1), .alignArray halign⟩
  | .int, _, _ => ⟨.int, .alignInt⟩
  | .bool, _, _ => ⟨.bool, .alignBool⟩
  | .byte, _, _ => ⟨.byte, .alignByte⟩
  | .null, _, _ => ⟨.null, .alignNull⟩
  | .ptr _, _, _ => ⟨.ptr, .alignPtr⟩
  | .proc _ _, _, _ => ⟨.proc, .alignProc⟩

section Fields

variable {fields : List Field} {start : Nat}

/-- The first field fits if all of them do. -/
theorem word_of_stop {f : Field} {rest : List Field}
    (hfits : (place start ((f :: rest).map (p.extent ·.ty))).2 < 2 ^ 32) :
    Word wraps (alignUp start (p.alignOf f.ty)) (alignUp start (p.alignOf f.ty)) ∧
      Word wraps (alignUp start (p.alignOf f.ty) + p.sizeOf f.ty)
        (alignUp start (p.alignOf f.ty) + p.sizeOf f.ty) := by
  have hle := start_le_stop (alignUp start (p.alignOf f.ty) + p.sizeOf f.ty)
    (rest.map (p.extent ·.ty))
  have hfits : (place (alignUp start (p.alignOf f.ty) + p.sizeOf f.ty)
    (rest.map (p.extent ·.ty))).2 < 2 ^ 32 := hfits
  exact ⟨.fits (by omega), .fits (by omega)⟩

theorem computes_stop (h : ∀ f ∈ fields, f.ty.Exact p wraps)
    (hfits : (place start (fields.map (p.extent ·.ty))).2 < 2 ^ 32) :
    Computes p wraps (.stop fields start) (place start (fields.map (p.extent ·.ty))).2 := by
  induction fields generalizing start with
  | nil => exact .stopNone
  | cons f rest ih =>
    obtain ⟨⟨hsize, halign⟩, hrest⟩ := List.forall_mem_cons.1 h
    obtain ⟨hword, hnext⟩ := @word_of_stop p wraps start f rest hfits
    exact .stopMore halign hword hsize hnext (ih hrest hfits)

theorem computes_widest (h : ∀ f ∈ fields, f.ty.Exact p wraps) (best : Nat) :
    Computes p wraps (.widest fields best) ((fields.map (p.alignOf ·.ty)).foldl max best) := by
  induction fields generalizing best with
  | nil => exact .widestNone
  | cons f rest ih =>
    obtain ⟨⟨-, halign⟩, hrest⟩ := List.forall_mem_cons.1 h
    exact .widestMore halign (ih hrest _)

theorem computes_offset (h : ∀ f ∈ fields, f.ty.Exact p wraps)
    (hfits : (place start (fields.map (p.extent ·.ty))).2 < 2 ^ 32) (index : Nat) :
    Computes p wraps (.offset fields start index)
      (offsetAt start (fields.map (p.extent ·.ty)) index) := by
  induction fields generalizing start index with
  | nil => exact .offsetNone
  | cons f rest ih =>
    obtain ⟨⟨hsize, halign⟩, hrest⟩ := List.forall_mem_cons.1 h
    obtain ⟨hword, hnext⟩ := @word_of_stop p wraps start f rest hfits
    cases index with
    | zero => exact .offsetHere halign hword
    | succ index => exact .offsetMore halign hword hsize hnext (ih hrest hfits index)

end Fields

namespace Program

variable {id : StructId} {s : StructDef} {depth : Nat}

/-- Before the size is rounded up, it fits as well. -/
theorem Acyclic.stop_lt (h : p.Acyclic) (hfits : p.Fits) (hs : p.structs[id]? = some s) :
    (place 0 (s.fields.map (p.extent ·.ty))).2 < 2 ^ 32 := by
  have hle := le_alignUp (place 0 (s.fields.map (p.extent ·.ty))).2 (p.alignOf (.struct id))
  rw [← (h.wellPlaced hs).size] at hle
  exact Nat.lt_of_le_of_lt hle (hfits id s hs).1

theorem extent_of_none (hnone : p.structs[id]? = none) : p.extent (.struct id) = ⟨0, 1⟩ :=
  structExtentWithin_of_none hnone _

theorem Shallow.exact (hacyclic : p.Acyclic) (hfits : p.Fits) (h : p.Shallow depth id) :
    (Ty.struct id).Exact p wraps := by
  have hmissing {id : StructId} (hnone : p.structs[id]? = none) : (Ty.struct id).Exact p wraps := by
    rw [Ty.Exact, sizeOf, alignOf, extent_of_none hnone]
    exact ⟨.noStruct hnone, .alignNone hnone⟩
  induction h with
  | missing hnone => exact hmissing hnone
  | @within depth id _ ih =>
    cases hs : p.structs[id]? with
    | none => exact hmissing hs
    | some s =>
      have hfields : ∀ f ∈ s.fields, f.ty.Exact p wraps := fun f hf =>
        f.ty.exact_of_parts (fun inner hinner => ih inner ⟨s, hs, f, hf, hinner⟩)
          ((hfits id s hs).2 f hf)
      have halign : Computes p wraps (.align (.struct id)) (p.alignOf (.struct id)) := by
        rw [alignOf, hacyclic.extent_struct hs]
        cases hempty : s.fields with
        | nil => exact .alignEmpty hs hempty
        | cons f rest =>
          rw [hempty, List.forall_mem_cons] at hfields
          have hwidest := computes_widest hfields.2 (p.alignOf f.ty)
          have heq : (structExtent ((f :: rest).map (p.extent ·.ty))).align =
              (rest.map (p.alignOf ·.ty)).foldl max (p.alignOf f.ty) := by
            show (((f :: rest).map (p.extent ·.ty)).map (·.align)).max?.getD 1 = _
            rw [List.map_map, List.map_cons, List.max?_cons']
            rfl
          rw [heq]
          exact .alignStruct hs hempty hfields.1.2 hwidest
      refine ⟨?_, halign⟩
      have hword : Word wraps (alignUp (place 0 (s.fields.map (p.extent ·.ty))).2
          (p.alignOf (.struct id))) (p.sizeOf (.struct id)) := by
        rw [(hacyclic.wellPlaced hs).size]
        exact .fits ((hacyclic.wellPlaced hs).size ▸ (hfits id s hs).1)
      exact .struct hs (computes_stop hfields (hacyclic.stop_lt hfits hs)) halign hword

/-- **The computations agree with the layout**: they come to its sizes, its
alignments and its offsets, and to nothing else, be it that numbers wrap around
or not. -/
structure Agrees (p : Program) (id : StructId) (s : StructDef) : Prop where
  size : ∀ wraps n, Computes p wraps (.size (.struct id)) n ↔ n = p.sizeOf (.struct id)
  align : ∀ wraps n, Computes p wraps (.align (.struct id)) n ↔ n = p.alignOf (.struct id)
  offset : ∀ wraps i n, Computes p wraps (.offset s.fields 0 i) n ↔ n = p.fieldOffset id i
  fields : ∀ f ∈ s.fields, ∀ wraps n, (Computes p wraps (.size f.ty) n ↔ n = p.sizeOf f.ty) ∧
    (Computes p wraps (.align f.ty) n ↔ n = p.alignOf f.ty)

theorem Acyclic.agrees (h : p.Acyclic) (hfits : p.Fits) (hs : p.structs[id]? = some s) :
    p.Agrees id s := by
  have hstruct (id : StructId) (wraps : Bool) : (Ty.struct id).Exact p wraps :=
    (h.shallow id).exact h hfits
  have hfield (wraps : Bool) : ∀ f ∈ s.fields, f.ty.Exact p wraps := fun f hf =>
    f.ty.exact_of_parts (fun inner _ => hstruct inner wraps) ((hfits id s hs).2 f hf)
  refine ⟨fun wraps => (hstruct id wraps).1.iff, fun wraps => (hstruct id wraps).2.iff,
    fun wraps i => ?_, fun f hf wraps n => ⟨(hfield wraps f hf).1.iff n, (hfield wraps f hf).2.iff n⟩⟩
  rw [fieldOffset_eq hs]
  exact (computes_offset (hfield wraps) (h.stop_lt hfits hs) i).iff

end Program

end ClassLang.Ir
