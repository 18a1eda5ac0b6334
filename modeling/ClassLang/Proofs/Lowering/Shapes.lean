import ClassLang.Proofs.Lowering.Invocations
/-!
# Lowering — memory that is typed

`Shapes` says what allocations hold: an object of a class, or an array of a
struct of arrays. Over shapes, values have types of the intermediate form
(`OfTy`), where a pointer to the objects of a class may lead to one of a
class below, and memory is typed (`TypedMemory`): the header of an object
points to the vtable of its own class, and all that stands behind it has the
type of its field. A world of the simulation `Shows` shapes, and then typed
memory is the memory of some heap (`TypedMemory.exists_heap`), and the other way
round (`HeapMatches.typed`).
-/


namespace ClassLang.Lowering

open Source (TypeExpr Program)
open Typing (Analysis TableOk)
open Ir (StructId)

/-- What an allocation holds. -/
inductive Shape
  | object (class_ : ClassId)
  | array (struct : StructId) (length : Nat)

/-- What the allocations hold, as far as it matters. -/
abbrev Shapes : Type := Nat → Option Shape

/-- What holds something goes on to do so. -/
def Shapes.Grows (shapes shapes' : Shapes) : Prop :=
  ∀ o shape, shapes o = some shape → shapes' o = some shape

/-- The struct is one of arrays over a type. -/
def Session.ArraysOver (s : Session) (struct : StructId) (elem : Ir.Ty) : Prop :=
  ∃ ty name, s.arrayStructs.get? ty = some struct ∧
    s.ir.structs[struct]? = some ⟨name, arrayFields elem⟩

section Typing

variable (p : Program) (s : Session) (shapes : Shapes)

/-- **The values of a type.** -/
inductive OfTy : Ir.Ty → Ir.Value → Prop
  | int (value : Int32) : OfTy .int (.int value)
  | bool (value : Bool) : OfTy .bool (.bool value)
  | null (target : Ir.Ty) : OfTy (.ptr target) .null
  | object {id layout sub o} : s.classes[id]? = some layout → p.Inherits sub id →
      shapes o = some (.object sub) → OfTy (.ptr (.struct layout.instance_)) (.ptr ⟨o, []⟩)
  | array {struct length o} : shapes o = some (.array struct length) →
      OfTy (.ptr (.struct struct)) (.ptr ⟨o, []⟩)

/-- **The memory of an allocation.** -/
inductive TypedCell : Shape → Ir.Cell → Prop
  | object {id layout decl cell} : s.classes[id]? = some layout →
      s.ir.structs[layout.instance_]? = some decl →
      cell.load? [0] = some (.ptr ⟨layout.vtableGlobal, []⟩) →
      (∀ (i : Nat) field, 0 < i → decl.fields[i]? = some field →
        ∃ x, cell.load? [i] = some x ∧ OfTy p s shapes field.ty x) →
      TypedCell (.object id) cell
  | array {struct length elem cell} : s.ArraysOver struct elem →
      cell.load? [0] = some (.int (.ofNat length)) → length < 2 ^ 31 →
      (∀ i < length, ∃ x, cell.load? [1, i] = some x ∧ OfTy p s shapes elem x) →
      TypedCell (.array struct length) cell

/-- **Memory**: the vtables, and behind them what the shapes say. -/
structure TypedMemory (memory : List Ir.Cell) : Prop where
  globals : s.ir.globalCells <+: memory
  cells : ∀ o shape, shapes o = some shape → s.ir.globals.length ≤ o ∧
    ∃ cell, memory[o]? = some cell ∧ TypedCell p s shapes shape cell

end Typing

/-! ## Types tell written types apart -/

section Represents

variable {p : Program} {a : Analysis} {s : Session} {ty ty' : TypeExpr} {target : Ir.Ty}

/-- Where the parts of a layout are. -/
theorem Session.Ready.layout_eq (hs : s.Ready p a) {id : ClassId} {layout : ClassLayout}
    (h : s.classes[id]? = some layout) : layout.instance_ = 2 * id ∧ layout.vtableGlobal = id := by
  have hid : id < p.classes.length := hs.typed.size ▸ (List.getElem?_eq_some_iff.1 h).1
  obtain ⟨_, _, _, hlaid⟩ := hs.laid id hid
  obtain ⟨c, -, hlayout⟩ := hlaid.layout
  obtain rfl := Option.some.inj (hlayout.symm.trans h)
  exact ⟨rfl, rfl⟩

/-- No struct is that of objects and that of arrays: one starts with a header,
the other with a length. -/
theorem Session.Ready.not_arraysOver (hs : s.Ready p a) {id : ClassId} (hid : id < p.classes.length)
    {elem : Ir.Ty} : ¬ s.ArraysOver (2 * id) elem := by
  rintro ⟨_, _, -, hstruct⟩
  obtain ⟨_, _, _, hlaid⟩ := hs.laid id hid
  obtain ⟨_, hinstance⟩ := hlaid.instance_
  rw [hinstance] at hstruct
  simp [arrayFields, headerField] at hstruct

theorem Session.ArraysOver.unique {struct : StructId} {elem elem' : Ir.Ty}
    (h : s.ArraysOver struct elem) (h' : s.ArraysOver struct elem') : elem = elem' := by
  obtain ⟨_, _, -, hdecl⟩ := h
  obtain ⟨_, _, -, hdecl'⟩ := h'
  have hfields : arrayFields elem = arrayFields elem' :=
    (Ir.StructDef.mk.inj (Option.some.inj (hdecl.symm.trans hdecl'))).2
  simpa [arrayFields] using hfields

/-- The arrays of a struct of arrays have a written type. -/
theorem Session.ArraysOver.represents (hs : s.Typed p a) {struct : StructId} {elem : Ir.Ty}
    (h : s.ArraysOver struct elem) :
    ∃ ty, Represents p a s ty elem ∧ Represents p a s (.array ty) (.ptr (.struct struct)) := by
  obtain ⟨key, _, hstruct, -⟩ := id h
  obtain ⟨ty, elem', hd, hr, hdecl⟩ := hs.arrays _ _ hstruct
  obtain rfl : elem' = elem := Session.ArraysOver.unique ⟨key, _, hstruct, hdecl⟩ h
  exact ⟨ty, hr, .array hd hstruct⟩

/-- The values of an array type point to arrays over the type of the elements. -/
theorem Represents.arraysOver (hs : s.Typed p a) (h : Represents p a s (.array ty) target) :
    ∃ struct elem, target = .ptr (.struct struct) ∧ Represents p a s ty elem ∧
      s.ArraysOver struct elem := by
  cases h with
  | array hd hstruct =>
    obtain ⟨elem, name, hr, hdecl⟩ := hs.array hstruct hd
    exact ⟨_, elem, rfl, hr, _, name, hstruct, hdecl⟩

/-- The values of a class and those of an array have different types. -/
theorem Represents.class_ne_array (hs : s.Ready p a) {name : String}
    (h : Represents p a s (.class_ name) target) : ¬ Represents p a s (.array ty) target := fun h' => by
  obtain ⟨id, hid, rfl⟩ := hs.represents_class.1 h
  obtain ⟨struct, elem, heq, -, harrays⟩ := h'.arraysOver hs.typed
  obtain rfl : 2 * id = struct := by simpa using heq
  exact hs.not_arraysOver (Program.classId?_lt hid) harrays

/-- **A type of values is that of one written type.** -/
theorem Represents.inj (hs : s.Ready p a) (h : Represents p a s ty target)
    (h' : Represents p a s ty' target) : ty = ty' := by
  induction ty generalizing ty' target with
  | int => cases h; cases h'; rfl
  | bool => cases h; cases h'; rfl
  | class_ name =>
    cases ty' with
    | int | bool => cases h'; cases h
    | class_ name' =>
      obtain ⟨id, hid, rfl⟩ := hs.represents_class.1 h
      obtain ⟨id', hid', heq⟩ := hs.represents_class.1 h'
      obtain rfl : id = id' := Nat.eq_of_mul_eq_mul_left Nat.two_pos (by simpa using heq)
      obtain ⟨c, hc, rfl⟩ := Program.name_of_classId? hid
      obtain ⟨c', hc', rfl⟩ := Program.name_of_classId? hid'
      rw [Option.some.inj (hc.symm.trans hc')]
    | array elem' => exact absurd h' (h.class_ne_array hs)
  | array elem ih =>
    cases ty' with
    | int | bool => cases h'; cases h
    | class_ name' => exact absurd h (h'.class_ne_array hs)
    | array elem' =>
      -- One struct of arrays has one type of elements, and that is smaller.
      obtain ⟨struct, inner, rfl, hinner, harrays⟩ := h.arraysOver hs.typed
      obtain ⟨struct', inner', heq, hinner', harrays'⟩ := h'.arraysOver hs.typed
      obtain rfl : struct = struct' := by simpa using heq
      obtain rfl := harrays.unique harrays'
      rw [ih hinner hinner']

end Represents

/-! ## Worlds show shapes -/

section Shows

variable (p : Program) (a : Analysis) (s : Session)

/-- The shape of what stands for an address. There is none for arrays of which
the program knows nothing. -/
inductive ShapeOf : Kind → Shape → Prop
  | object {id} : id < p.classes.length → ShapeOf (.object id) (.object id)
  | array {elem struct length} : Represents p a s (.array elem) (.ptr (.struct struct)) →
      ShapeOf (.array elem length) (.array struct length)

/-- **The shapes are those of what stands for an address.** -/
def Shows (W : World) (shapes : Shapes) : Prop :=
  ∀ o shape, shapes o = some shape ↔ ∃ addr kind, W addr = some ⟨o, kind⟩ ∧ ShapeOf p a s kind shape

end Shows

section Worlds

variable {p : Program} {printName : String} {a : Analysis} {s : Session} {W W' : World}
variable {shapes shapes' : Shapes} {memory : List Ir.Cell} {heap : Nat → Option Semantics.Cell}
variable {ty : TypeExpr} {target : Ir.Ty} {v : Semantics.Value} {x : Ir.Value}

theorem ShapeOf.unique (ht : TableOk p a.findings.table) {kind : Kind} {shape shape' : Shape}
    (h : ShapeOf p a s kind shape) (h' : ShapeOf p a s kind shape') : shape = shape' := by
  cases h with
  | object => cases h'; rfl
  | array hr =>
    cases h' with
    | array hr' => rw [Ir.Ty.struct.inj (Ir.Ty.ptr.inj (hr.unique ht hr'))]

theorem Shows.grows (h : Shows p a s W shapes) (h' : Shows p a s W' shapes') (hW : W.Grows W') :
    shapes.Grows shapes' := fun o shape hshape => by
  obtain ⟨addr, kind, hlink, hkind⟩ := (h o shape).1 hshape
  exact (h' o shape).2 ⟨addr, kind, hW _ _ hlink, hkind⟩

/-- Whatever stands for addresses has shapes. -/
theorem World.Apart.shows (hW : W.Apart) (ht : TableOk p a.findings.table) :
    ∃ shapes, Shows p a s W shapes := by
  have hshape (o : Nat) : ∃ shape? : Option Shape, ∀ shape, shape? = some shape ↔
      ∃ addr kind, W addr = some ⟨o, kind⟩ ∧ ShapeOf p a s kind shape := by
    by_cases h : ∃ shape addr kind, W addr = some ⟨o, kind⟩ ∧ ShapeOf p a s kind shape
    · obtain ⟨shape, addr, kind, hlink, hkind⟩ := h
      refine ⟨some shape, fun shape' => ⟨fun heq => ?_, fun ⟨addr', kind', hlink', hkind'⟩ => ?_⟩⟩
      · obtain rfl := Option.some.inj heq
        exact ⟨addr, kind, hlink, hkind⟩
      · -- Only one address stands there, so its kind is the one that was found.
        obtain rfl := hW _ _ _ _ hlink hlink' rfl
        obtain ⟨-, rfl⟩ := Link.mk.inj (Option.some.inj (hlink.symm.trans hlink'))
        rw [hkind.unique ht hkind']
    · exact ⟨none, fun shape => ⟨nofun, fun hex => absurd ⟨shape, hex⟩ h⟩⟩
  choose shapes hshapes using hshape
  exact ⟨shapes, hshapes⟩

/-- Values of the types are values of the source. -/
theorem OfTy.matches (hs : s.Ready p a) (hsound : p.SoundClasses) (hW : Shows p a s W shapes)
    (h : OfTy p s shapes target x) (hr : Represents p a s ty target) : ∃ v, Matches p W ty v x := by
  cases h with
  | int value => cases hr; exact ⟨_, .int value⟩
  | bool value => cases hr; exact ⟨_, .bool value⟩
  | null =>
    cases hr with
    | class_ => exact ⟨_, .nullClass _⟩
    | array => exact ⟨_, .nullArray _⟩
  | @object id layout sub o hlayout hinherits hshape =>
    obtain ⟨addr, kind, hlink, hkind⟩ := (hW _ _).1 hshape
    cases hkind with
    | object =>
      have hid : id < p.classes.length := hs.typed.size ▸ (List.getElem?_eq_some_iff.1 hlayout).1
      have hname := Program.classId?_name hsound.names (List.getElem?_eq_getElem hid)
      obtain rfl := hr.inj hs (.class_ hname hlayout)
      exact ⟨_, .object hname hinherits hlink⟩
  | @array struct length o hshape =>
    obtain ⟨addr, kind, hlink, hkind⟩ := (hW _ _).1 hshape
    cases hkind with
    | array hr' =>
      obtain rfl := hr.inj hs hr'
      exact ⟨_, .array hlink⟩

/-- Values of the source have the types. -/
theorem Matches.ofTy (hW : Shows p a s W shapes) (h : Matches p W ty v x)
    (hr : Represents p a s ty target) : OfTy p s shapes target x := by
  cases h with
  | int value => cases hr; exact .int value
  | bool value => cases hr; exact .bool value
  | nullClass => cases hr; exact .null _
  | nullArray => cases hr; exact .null _
  | object hid hinherits hlink =>
    cases hr with
    | class_ hid' hlayout =>
      obtain rfl := Option.some.inj (hid.symm.trans hid')
      have hlt := hinherits.lt_below (Program.classId?_lt hid)
      exact .object hlayout hinherits ((hW _ _).2 ⟨_, _, hlink, .object hlt⟩)
  | array hlink =>
    cases hr with
    | array hd hstruct => exact .array ((hW _ _).2 ⟨_, _, hlink, .array (.array hd hstruct)⟩)

/-! ## Typed memory is that of a heap -/

instance : Inhabited Semantics.Value := ⟨.null⟩

/-- What a typed allocation stands for. -/
theorem TypedCell.kind (hs : s.Typed p a) {shape : Shape} {cell : Ir.Cell}
    (h : TypedCell p s shapes shape cell) : ∃ kind, ShapeOf p a s kind shape := by
  cases h with
  | object hlayout =>
    exact ⟨_, .object (hs.size ▸ (List.getElem?_eq_some_iff.1 hlayout).1)⟩
  | array harrays =>
    obtain ⟨ty, -, hr⟩ := harrays.represents hs
    exact ⟨_, .array hr⟩

/-- What a typed allocation holds. -/
theorem TypedCell.matches (hs : s.Ready p a) (hsound : p.SoundClasses) (hW : Shows p a s W shapes)
    {shape : Shape} {kind : Kind} {cell : Ir.Cell} (h : TypedCell p s shapes shape cell)
    (hkind : ShapeOf p a s kind shape) : ∃ c, CellMatches p W kind c cell := by
  cases h with
  | @object id layout decl cell hlayout hdecl hheader hfields =>
    cases hkind with
    | object hid =>
      obtain ⟨_, fields, _, hlaid⟩ := hs.laid id hid
      obtain ⟨_, hinstance⟩ := hlaid.instance_
      rw [(hs.layout_eq hlayout).1, hinstance] at hdecl
      obtain rfl := Option.some.inj hdecl
      rw [(hs.layout_eq hlayout).2] at hheader
      -- The value of a field must not depend on the place it is looked up at: no field
      -- has two places.
      have hvalue : ∀ ref ∈ p.fieldRefs id, ∃ v, ∀ i : Nat, (p.fieldRefs id)[i]? = some ref →
          ∃ field x, fieldDecl? p ref = some field ∧ cell.load? [i + 1] = some x ∧
            Matches p W field.ty v x := fun ref href => by
        obtain ⟨i, hi⟩ := List.mem_iff_getElem?.1 href
        obtain ⟨field, hfield, hfor⟩ := getElem?_of_forall₂ hlaid.fields hi
        obtain ⟨var, hvar, hr⟩ := hfor.decl
        obtain ⟨x, hload, hx⟩ := hfields (i + 1) field (Nat.succ_pos i) hfield
        obtain ⟨v, hv⟩ := hx.matches hs hsound hW hr
        refine ⟨v, fun j hj => ?_⟩
        obtain rfl := (List.getElem?_inj (List.getElem?_eq_some_iff.1 hi).1
          (Program.nodup_fieldRefs hsound.hierarchy.acyclic id)).1 (hi.trans hj.symm)
        exact ⟨var, x, hvar, hload, hv⟩
      choose! value hvalue using hvalue
      refine ⟨.object id fun ref => some (value ref), .object hheader fun i ref hi => ?_⟩
      obtain ⟨field, x, hfield, hload, hv⟩ := hvalue ref (List.mem_of_getElem? hi) i hi
      exact ⟨field, _, x, hfield, rfl, hload, hv⟩
  | @array struct length elem cell harrays hlength hsmall helems =>
    cases hkind with
    | @array ty _ _ hr =>
      obtain ⟨_, elem', heq, hr', harrays'⟩ := hr.arraysOver hs.typed
      cases heq
      obtain rfl := harrays.unique harrays'
      have hvalue : ∀ i < length, ∃ v x, cell.load? [1, i] = some x ∧ Matches p W ty v x :=
        fun i hi => by
          obtain ⟨x, hload, hx⟩ := helems i hi
          obtain ⟨v, hv⟩ := hx.matches hs hsound hW hr'
          exact ⟨v, x, hload, hv⟩
      choose! value hvalue using hvalue
      refine ⟨.array ((List.range length).map value), .array (by simp) hlength hsmall
        fun i v hv => ?_⟩
      obtain ⟨hi, rfl⟩ := List.getElem?_eq_some_iff.1 hv
      rw [List.getElem_map, List.getElem_range]
      exact hvalue i (by simpa using hi)

/-- Shapes are shown by a world in which every allocation stands for the address
that is its number. -/
theorem TypedMemory.exists_world (h : TypedMemory p s shapes memory) (hs : s.Typed p a)
    (ht : TableOk p a.findings.table) :
    ∃ W, Shows p a s W shapes ∧ ∀ addr link, W addr = some link → link.object = addr ∧
      ∃ shape, shapes addr = some shape ∧ ShapeOf p a s link.kind shape := by
  have hlink (o : Nat) : ∃ link? : Option Link,
      (∀ shape, shapes o = some shape → ∃ kind, link? = some ⟨o, kind⟩ ∧ ShapeOf p a s kind shape) ∧
      ∀ link, link? = some link → link.object = o ∧
        ∃ shape, shapes o = some shape ∧ ShapeOf p a s link.kind shape := by
    cases hshape : shapes o with
    | none => exact ⟨none, nofun, nofun⟩
    | some shape =>
      obtain ⟨-, cell, -, hcell⟩ := h.cells o shape hshape
      obtain ⟨kind, hkind⟩ := hcell.kind hs
      exact ⟨some ⟨o, kind⟩, fun _ heq => ⟨kind, rfl, Option.some.inj heq ▸ hkind⟩,
        fun _ heq => Option.some.inj heq ▸ ⟨rfl, shape, rfl, hkind⟩⟩
  choose W hlinks hshapes using hlink
  refine ⟨W, fun o shape => ⟨fun hshape => ⟨o, hlinks o shape hshape⟩, ?_⟩, hshapes⟩
  rintro ⟨addr, kind, haddr, hkind⟩
  obtain ⟨hobject, shape', hshape, hkind'⟩ := hshapes addr _ haddr
  obtain rfl : o = addr := hobject
  rw [hshape, hkind.unique ht hkind']

/-- **Typed memory is the memory of a heap.** -/
theorem TypedMemory.exists_heap (h : TypedMemory p s shapes memory) (hs : s.Ready p a)
    (ht : TableOk p a.findings.table) (hsound : p.SoundClasses) :
    ∃ W heap, Shows p a s W shapes ∧ HeapMatches p s.ir W heap memory ∧
      ∀ addr link, W addr = some link → addr < memory.length := by
  -- The world is needed whole before the cells are: they may point to one another.
  obtain ⟨W, hW, hown⟩ := h.exists_world hs.typed ht
  have hcell (addr : Nat) : ∃ c? : Option Semantics.Cell, ∀ link, W addr = some link →
      ∃ c cell, c? = some c ∧ memory[link.object]? = some cell ∧ CellMatches p W link.kind c cell := by
    cases hlink : W addr with
    | none => exact ⟨none, nofun⟩
    | some link =>
      obtain ⟨rfl, shape, hshape, hkind⟩ := hown addr link hlink
      obtain ⟨-, cell, hmemory, hcell⟩ := h.cells _ shape hshape
      obtain ⟨c, hc⟩ := hcell.matches hs hsound hW hkind
      exact ⟨some c, fun _ heq => Option.some.inj heq ▸ ⟨c, cell, rfl, hmemory, hc⟩⟩
  choose heap hheap using hcell
  refine ⟨W, heap, hW, ⟨h.globals, hheap, fun addr addr' link link' hlink hlink' hobject => ?_,
    fun addr link hlink => ?_⟩, fun addr link hlink => ?_⟩
  · rw [← (hown _ _ hlink).1, ← (hown _ _ hlink').1, hobject]
  · obtain ⟨rfl, shape, hshape, -⟩ := hown _ _ hlink
    exact (h.cells _ shape hshape).1
  · obtain ⟨-, shape, hshape, -⟩ := hown _ _ hlink
    obtain ⟨-, cell, hmemory, -⟩ := h.cells _ shape hshape
    exact (List.getElem?_eq_some_iff.1 hmemory).1

/-! ## The memory of a heap is typed -/

/-- What stands for an address is typed. -/
theorem CellMatches.typed (hs : s.Ready p a) (hW : Shows p a s W shapes) {shape : Shape}
    {kind : Kind} {c : Semantics.Cell} {cell : Ir.Cell} (h : CellMatches p W kind c cell)
    (hkind : ShapeOf p a s kind shape) : TypedCell p s shapes shape cell := by
  cases h with
  | @object id fields cell hheader hfields =>
    cases hkind with
    | object hid =>
      obtain ⟨_, decls, _, hlaid⟩ := hs.laid id hid
      obtain ⟨_, -, hlayout⟩ := hlaid.layout
      obtain ⟨_, hinstance⟩ := hlaid.instance_
      refine .object hlayout hinstance hheader fun i field hi hfield => ?_
      obtain ⟨j, rfl⟩ := Nat.exists_eq_add_one_of_ne_zero (Nat.ne_of_gt hi)
      obtain ⟨ref, href, hfor⟩ := getElem?_of_forall₂ (R := flip (FieldFor p a s)) hlaid.fields.flip
        (show decls[j]? = some field from hfield)
      obtain ⟨var, hvar, hr⟩ := hfor.decl
      obtain ⟨var', v, x, hvar', -, hload, hx⟩ := hfields j ref href
      obtain rfl := Option.some.inj (hvar.symm.trans hvar')
      exact ⟨x, hload, hx.ofTy hW hr⟩
  | @array ty length elems cell hcount hlength hsmall helems =>
    cases hkind with
    | array hr =>
      obtain ⟨_, elem, heq, hr', harrays⟩ := hr.arraysOver hs.typed
      cases heq
      refine .array harrays hlength hsmall fun i hi => ?_
      obtain ⟨x, hload, hx⟩ := helems i _ (List.getElem?_eq_getElem (hcount ▸ hi))
      exact ⟨x, hload, hx.ofTy hW hr'⟩

/-- **The memory of a heap is typed.** -/
theorem HeapMatches.typed (h : HeapMatches p s.ir W heap memory) (hs : s.Ready p a)
    (hW : Shows p a s W shapes) : TypedMemory p s shapes memory := by
  refine ⟨h.globals, fun o shape hshape => ?_⟩
  obtain ⟨addr, kind, hlink, hkind⟩ := (hW o shape).1 hshape
  obtain ⟨c, cell, -, hmemory, hcell⟩ := h.cells addr _ hlink
  exact ⟨h.behind addr _ hlink, cell, hmemory, hcell.typed hs hW hkind⟩

end Worlds

end ClassLang.Lowering
