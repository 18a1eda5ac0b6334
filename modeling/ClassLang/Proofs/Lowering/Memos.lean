import ClassLang.Proofs.Lowering.Acceptance
import ClassLang.Proofs.Lowering.Creations
import ClassLang.Proofs.Lowering.Names
import ClassLang.Proofs.Lowering.Strangers
/-!
# Lowering — what is made is made once

Structs of arrays and allocators are made when they are first asked for, and from
then on found (`Memoizes`). Lowering an accepted program is a run of changes, at
every point of which this is so: no two types share a struct or an allocator, and
what is there stays (`Accepted.lowered_memos`). In the end there are allocators
for what the `new` expressions of the program make, and no others.
-/


namespace ClassLang.Lowering

open Source (Program)
open Typing (Analysis Denotes)
open Ir (ProcId StructId)

/-! ## What is asked for is found again -/

/-- **The computation memoizes**: what it yields is noted behind it, and if
something was noted before, it is that, and the session is as it was. -/
def Memoizes {α : Type} (x : Build α) (noted : Session → Option α) (t : Session) : Prop :=
  ∀ value u, x.run t = .ok (value, u) →
    noted u = some value ∧ ∀ old, noted t = some old → old = value ∧ u = t

/-- **A point at which what was made is found again**: one struct for each type
of elements, and one procedure for whatever is made. -/
structure Session.Shares (a : Analysis) (t : Session) : Prop where
  /-- No two types of elements share a struct. -/
  structs : ∀ elem elem' struct, t.arrayStructs.get? elem = some struct →
    t.arrayStructs.get? elem' = some struct → elem = elem'
  /-- A struct has a length, and elements of the type of the values of its type. -/
  fields : ∀ elem struct, t.arrayStructs.get? elem = some struct → ∃ target,
    (irTy a elem).run t = .ok (target, t) ∧ t.ir.structs[struct]? =
      some ⟨"array_" ++ mangle a.findings.table elem, [⟨"length", .int⟩, ⟨"data", .array target 0⟩]⟩
  /-- A type of arrays stands for pointers to the struct of its elements. -/
  types : ∀ id, Memoizes (irTy a (.array id)) (fun s =>
    (s.arrayStructs.get? (a.findings.table.elem id)).map fun struct => .ptr (.struct struct)) t
  arrayStruct : ∀ elem, Memoizes (arrayStruct a elem) (·.arrayStructs.get? elem) t
  /-- No two things that are made share a procedure. -/
  allocators : ∀ made made' proc, t.allocator? made = some proc →
    t.allocator? made' = some proc → made = made'
  classAllocator : ∀ id, Memoizes (classAllocator id) (·.classAllocators.get? id) t
  arrayAllocator : ∀ elem, Memoizes (arrayAllocator a elem) (·.arrayAllocators.get? elem) t

variable (p : Program) (a : Analysis) in
/-- **Allocators are there for what the program makes**, and for nothing else. -/
structure Session.Exactly (s : Session) : Prop where
  /-- A procedure is an allocator, or else that of a function or a method. -/
  procs : ∀ proc < s.ir.procs.length, s.Allocates proc ↔ s.Spare proc
  /-- A class has one if there is a `new` with its name. -/
  objects : ∀ id, (∃ proc, s.classAllocators.get? id = some proc) ↔
    ∃ m name, .expr (.newObject m name) ∈ p.parts ∧ p.classId? name = some id
  /-- A type of elements has one if there is a `new` with the type. -/
  arrays : ∀ ty, (∃ proc, s.arrayAllocators.get? ty = some proc) ↔
    ∃ m elem size, .expr (.newArray m elem size) ∈ p.parts ∧ Denotes p a.findings.table ty elem
  /-- The allocator of a class is named for it, and has a body. -/
  objectProc : ∀ id proc, s.classAllocators.get? id = some proc → ∃ c q, p.classes[id]? = some c ∧
    s.ir.procs[proc]? = some q ∧ q.name = "new_class_" ++ c.name ∧ q.blocks ≠ []
  /-- That of arrays is named for the type of their elements. -/
  arrayProc : ∀ ty proc, s.arrayAllocators.get? ty = some proc → ∃ elem q,
    Denotes p a.findings.table ty elem ∧ s.ir.procs[proc]? = some q ∧
      q.name = "new_array_" ++ elem.spelling ∧ q.blocks ≠ []

section Points

variable {p : Program} {printName : String} {a : Analysis} {s t : Session}

theorem run_of_yields {α : Type} {x : Build α} {value : α}
    (h : Yields x t fun v u => v = value ∧ u = t) : x.run t = .ok (value, t) := by
  obtain ⟨_, _, hrun, rfl, rfl⟩ := h
  exact hrun

/-- What is noted behind, and found if it was noted before, is memoized. -/
theorem memoizes_of {α : Type} {x : Build α} {noted : Session → Option α}
    (hx : Ends Error.Reported x t fun value u => noted u = some value)
    (hfound : ∀ old, noted t = some old → Yields x t fun value u => value = old ∧ u = t) :
    Memoizes x noted t := fun value u hrun => ⟨hx.result hrun, fun old hold => by
  have heq := (run_of_yields (hfound old hold)).symm.trans hrun
  exact ⟨congrArg Prod.fst (Except.ok.inj heq), (congrArg Prod.snd (Except.ok.inj heq)).symm⟩⟩

/-- The struct of arrays is found. -/
theorem yields_noted_arrayStructOf {irTy : Ty → Build Ir.Ty} {elem : Ty} {struct : StructId}
    (h : t.arrayStructs.get? elem = some struct) :
    Yields (arrayStructOf a irTy elem) t fun found u => found = struct ∧ u = t :=
  .get_bind (by rw [h]; exact .pure ⟨rfl, rfl⟩)

/-- **The type that the tables tell** is found in them. -/
theorem yields_noted_irTy {ty : Ty} {target : Ir.Ty} (h : t.valueTy? a ty = some target) :
    Yields (irTy a ty) t fun found u => found = target ∧ u = t := by
  cases ty with
  | int | bool => cases h; exact .pure ⟨rfl, rfl⟩
  | null | any | invalid => cases h
  | class_ id =>
    obtain ⟨layout, hlayout, rfl⟩ := Option.map_eq_some_iff.1 h
    exact (yields_classLayout (P := fun l u => l = layout ∧ u = t) hlayout ⟨rfl, rfl⟩).bind
      fun l u ⟨hl, hu⟩ => .pure ⟨by rw [hl], hu⟩
  | array id =>
    obtain ⟨struct, hget, rfl⟩ := Option.map_eq_some_iff.1 h
    exact (yields_noted_arrayStructOf hget).bind fun found u ⟨hfound, hu⟩ => .pure ⟨by rw [hfound], hu⟩

/-- What was made is found again at every point. -/
theorem Session.Memos.shares (helem : ∀ id, rank (a.findings.table.elem id) ≤ id)
    (ht : t.Memos a) : t.Shares a where
  structs := ht.inj
  fields elem struct hget := by
    obtain ⟨target, htarget, hdecl⟩ := ht.decls elem struct hget
    exact ⟨target, run_of_yields (yields_noted_irTy htarget), hdecl⟩
  types id := memoizes_of ((ends_irTy helem (.array id) t).mono fun _ _ h => h.2)
    fun _ hold => yields_noted_irTy hold
  arrayStruct elem := memoizes_of ((ends_arrayStruct helem elem t).mono fun _ _ h => h.2)
    fun _ hold => yields_noted_arrayStructOf hold
  allocators := ht.apart
  classAllocator id := memoizes_of ((ends_classAllocator (a := a) id t).mono fun _ _ h => h.found)
    fun _ hold => .get_bind (by rw [hold]; exact .pure ⟨rfl, rfl⟩)
  arrayAllocator elem := memoizes_of ((ends_arrayAllocator helem elem t).mono fun _ _ h => h.found)
    fun _ hold => .get_bind (by rw [hold]; exact .pure ⟨rfl, rfl⟩)

/-! ## In the end -/

theorem blocks_ne_of_formed {q : Ir.Proc} (h : q.Formed) : q.blocks ≠ [] :=
  List.isEmpty_eq_false_iff.1 (Bool.not_eq_true' _ ▸ h.defined)

/-- **The allocators of a lowered program** are those of what it makes. -/
theorem Session.Complete.exactly (hs : s.Complete p printName a) (ha : Supports p printName a)
    (hnames : a.findings.table.classNames = p.classes.map (·.name))
    (hmade : ∀ made, (s.allocator? made).isSome = true ↔ made ∈ madeIn a p.parts) :
    s.Exactly p a where
  procs proc hproc := by
    constructor
    · rintro ⟨made, hmade⟩
      cases made with
      | object id => exact (hs.ready.objects id proc hmade).2.1
      | array ty => exact (hs.ready.arrays ty proc hmade).1
    · rintro ⟨hfunctions, hmethods⟩
      cases hs.ready.apart.known proc hproc with
      | function _ hproc => exact absurd (List.mem_of_getElem? hproc) hfunctions
      | method _ hproc => exact absurd hproc (hmethods _)
      | object hproc => exact ⟨.object _, hproc⟩
      | array hproc => exact ⟨.array _, hproc⟩
  objects id := by
    rw [← Option.isSome_iff_exists]
    simp only [← ha.classes.lookup]
    exact (hmade (.object id)).trans object_mem_madeIn
  arrays ty := by
    have hdenotes (elem : Source.TypeExpr) :
        Denotes p a.findings.table ty elem ↔ a.lookupType elem = some ty :=
      ⟨Typing.lookupType_of_denotes ha.covers.table ha.classes.lookup,
        denotes_of_lookupType ha.classes.lookup⟩
    rw [← Option.isSome_iff_exists]
    simp only [hdenotes]
    exact (hmade (.array ty)).trans array_mem_madeIn
  objectProc id proc hproc := by
    obtain ⟨hid, -, q, values, hq, -, -, hformed, -, -, -, hname⟩ := hs.ready.objects id proc hproc
    have hc := List.getElem?_eq_getElem hid
    exact ⟨_, q, hc, hq, hname _ hc, blocks_ne_of_formed hformed⟩
  arrayProc ty proc hproc := by
    obtain ⟨-, q, elem, struct, hq, hd, -, -, -, hformed, -, -, hname⟩ := hs.ready.arrays ty proc hproc
    have hmangle := mangle_of_denotes ha.covers.table hnames hd
    exact ⟨elem, q, hd, hq, by rw [hname, hmangle], blocks_ne_of_formed hformed⟩

end Points

/-- **What is made while a program is lowered is made once.** Lowering is a run of
changes, of which the declarations and then the bodies take their parts in turn, each
from where the one before it ends. At every point, no two types share a struct or an
allocator, and what is asked for is found if it is there; and it stays so at every
later point. The allocators of the program get their bodies once, and are those that
the `new` expressions in its bodies ask for. -/
theorem Accepted.lowered_memos {source printName : String} {p : Program}
    (h : Accepted source printName p) (options : Options) :
    ∃ (s : Session) (changes : List Change),
      (buildProgram (Typing.analyze p ⟨printName⟩) p options).run .start = .ok ((), s) ∧
      lowerProgram (Typing.analyze p ⟨printName⟩) p options = .ok s.ir ∧
      (changes.forM Change.perform).run .start = .ok ((), s) ∧
      InTurn .start (declarations (Typing.analyze p ⟨printName⟩) p ::
        lowerings (Typing.analyze p ⟨printName⟩) p options) changes s ∧
      (∀ before between after, changes = before ++ between ++ after → ∃ t u : Session,
        (before.forM Change.perform).run .start = .ok ((), t) ∧
        (between.forM Change.perform).run t = .ok ((), u) ∧
        (after.forM Change.perform).run u = .ok ((), s) ∧
        t.Shares (Typing.analyze p ⟨printName⟩) ∧ t.Retains u) ∧
      (∀ proc, s.Allocates proc → changes.countP (·.defines proc) = 1) ∧
      s.Exactly p (Typing.analyze p ⟨printName⟩) := by
  obtain ⟨s, hrun, hs, hcomplete⟩ := h.complete options
  have ha := h.supports
  have helem := rank_elem_le ha.covers.table
  have hstart := Session.memos_start (Typing.analyze p ⟨printName⟩)
  obtain ⟨changes, hcourse, hturns⟩ := exists_course helem p options hrun
  have hexactly := hcomplete.exactly ha (Typing.classNames_analyze p _)
    (allocators_buildProgram ha options hrun)
  refine ⟨s, changes, hrun, hs, hcourse.run, hturns, fun before between after heq => ?_,
    fun proc hproc => ?_, hexactly⟩
  · rw [heq] at hcourse
    obtain ⟨u, hcourse, hafter⟩ := hcourse.parted
    obtain ⟨t, hbefore, hbetween⟩ := hcourse.parted
    have ht := (hbefore.memos hstart).1
    exact ⟨t, u, hbefore.run, hbetween.run, hafter.run, ht.shares helem, (hbetween.memos ht).2⟩
  · have hdefined : s.Defined proc := by
      obtain ⟨made, hmade⟩ := hproc
      cases made with
      | object id =>
        obtain ⟨_, q, -, hq, -, hblocks⟩ := hexactly.objectProc id proc hmade
        exact ⟨q, hq, hblocks⟩
      | array ty =>
        obtain ⟨_, q, -, hq, -, hblocks⟩ := hexactly.arrayProc ty proc hmade
        exact ⟨q, hq, hblocks⟩
    -- It has a body in the end and had none at the start, so one change defines it.
    have hbare : ¬ Session.start.Defined proc := fun ⟨_, hq, _⟩ => nomatch hq
    have hcount := (hcourse.count_defines hproc).2
    rwa [if_neg hbare, if_pos hdefined, Nat.add_zero] at hcount

/-- A program that makes objects twice, and arrays of arrays. -/
def sharing : String :=
  "class P { } " ++
    "int main() { P p; p = new P(); p = new P(); int[][] m; m = new int[2][]; m[0] = new int[3]; return 0; }"

set_option maxRecDepth 100000 in
/-- The program is read and analysed without an error, and these are its allocators. -/
theorem run_sharing : (Source.parse sharing).error? = none ∧
    (Typing.analyze (Source.parse sharing).program ⟨"print"⟩).ok = true ∧
    ((buildProgram (Typing.analyze (Source.parse sharing).program ⟨"print"⟩)
      (Source.parse sharing).program ⟨false⟩).run .start).map (fun r =>
        (r.2.ir.procs.map (·.name), r.2.classAllocators.get? 0, r.2.arrayAllocators.get? .int)) =
      .ok (["main", "new_class_P", "new_array_int_array", "new_array_int"], some 1, some 3) := by
  rw [Source.parse_eq_of_chars sharing (Source.toList_ofList_append _ _)]
  decide +kernel

/-- Both expressions that make an object call one procedure, which is defined once. -/
theorem lowered_memos_sharing : ∃ (s : Session) (changes : List Change),
    lowerProgram (Typing.analyze (Source.parse sharing).program ⟨"print"⟩)
      (Source.parse sharing).program ⟨false⟩ = .ok s.ir ∧
    (changes.forM Change.perform).run .start = .ok ((), s) ∧
    s.ir.procs.map (·.name) = ["main", "new_class_P", "new_array_int_array", "new_array_int"] ∧
    changes.countP (·.defines 1) = 1 ∧ changes.countP (·.defines 3) = 1 := by
  obtain ⟨hread, hok, hsession⟩ := run_sharing
  have haccepted : Accepted sharing "print" _ := .of_parse hread (by decide) hok
  obtain ⟨s, changes, hrun, hs, hchanges, -, -, honce, -⟩ := haccepted.lowered_memos ⟨false⟩
  rw [hrun] at hsession
  have htables := Except.ok.inj hsession
  exact ⟨s, changes, hs, hchanges, congrArg (·.1) htables,
    honce 1 ⟨.object 0, congrArg (·.2.1) htables⟩, honce 3 ⟨.array .int, congrArg (·.2.2) htables⟩⟩

end ClassLang.Lowering
