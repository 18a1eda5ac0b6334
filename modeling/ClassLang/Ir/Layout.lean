import ClassLang.Ir.Program
/-!
# Intermediate form — sizes and offsets

Every type has a size and an alignment in bytes. The fields of a struct
are placed from left to right, each at the next multiple of its alignment;
the size of the struct is rounded up to its own. An array without elements
takes no space.
-/


namespace ClassLang.Ir

/-- A size and an alignment in bytes. -/
structure Extent where
  size : Nat
  align : Nat
deriving DecidableEq, Repr, Inhabited

/-- The least multiple of an alignment that is not below a number. An
alignment of zero counts as one. -/
def alignUp (n align : Nat) : Nat := (n + max align 1 - 1) / max align 1 * max align 1

/-- Places fields from an offset on: their offsets, and the end of the
last. -/
def place (start : Nat) : List Extent → List Nat × Nat
  | [] => ([], start)
  | e :: rest =>
    let offset := alignUp start e.align
    let (offsets, stop) := place (offset + e.size) rest
    (offset :: offsets, stop)

/-- The extent of a struct whose fields have these extents. -/
def structExtent (fields : List Extent) : Extent :=
  let align := (fields.map (·.align)).max?.getD 1
  ⟨alignUp (place 0 fields).2 align, align⟩

/-- The extent of a type, given those of the structs. -/
def Ty.extent (struct : StructId → Extent) : Ty → Extent
  | .int => ⟨4, 4⟩
  | .bool | .byte => ⟨1, 1⟩
  | .null | .ptr _ | .proc _ _ => ⟨8, 8⟩
  | .array elem length => ⟨(elem.extent struct).size * length, (elem.extent struct).align⟩
  | .struct id => struct id

namespace Program

variable (p : Program)

/-- The extent of a struct that nests others at most so deep; nothing is
known of deeper ones. -/
def structExtentWithin : Nat → StructId → Extent
  | 0, _ => ⟨0, 1⟩
  | depth + 1, id =>
    match p.structs[id]? with
    | none => ⟨0, 1⟩
    | some s => structExtent (s.fields.map (·.ty.extent (structExtentWithin depth)))

/-- The extent of a type. Structs that do not contain themselves nest at
most as deep as there are structs. -/
def extent (ty : Ty) : Extent := ty.extent (p.structExtentWithin p.structs.length)

/-- The size of a type in bytes. -/
def sizeOf (ty : Ty) : Nat := (p.extent ty).size

/-- The alignment of a type in bytes. -/
def alignOf (ty : Ty) : Nat := (p.extent ty).align

/-- The offset of a field in its struct; behind the last field if there is
no such field. -/
def fieldOffset (id : StructId) (index : Nat) : Nat :=
  match p.structs[id]? with
  | none => 0
  | some s =>
    let (offsets, stop) := place 0 (s.fields.map (p.extent ·.ty))
    offsets[index]?.getD stop

end Program

end ClassLang.Ir
