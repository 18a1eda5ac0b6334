import ClassLang.Source.Tree
/-!
# Types — the lattice and its tables

A type is a base type, an interned array type or the class of a
declaration. `any` stands for whatever failed to resolve and fits
everywhere; `invalid` says that a lookup failed and is replaced by `any`
before it is recorded. A `TypeTable` holds the element types of the array
types, in the order in which they were interned, and the class names.
-/


namespace ClassLang

/-- A class, by the index of its declaration. -/
abbrev ClassId := Nat

/-- An interned array type. -/
abbrev ArrayId := Nat

/-- Types. -/
inductive Ty
  | int
  | bool
  /-- The type of `null`. -/
  | null
  /-- Fits every type, in both directions. -/
  | any
  /-- No type. -/
  | invalid
  | array (id : ArrayId)
  | class_ (id : ClassId)
deriving DecidableEq, Repr, Inhabited

namespace Ty

/-- Did a lookup fail? -/
def isInvalid (t : Ty) : Bool := t == invalid

/-- Is a value of the type a reference, or null? -/
def isReference : Ty → Bool
  | null | array _ | class_ _ => true
  | _ => false

/-- The type to go on with: a failed lookup fits everywhere. -/
def gracious : Ty → Ty
  | invalid => any
  | t => t

end Ty

/-- The element types of the interned array types, and the names of the
classes. -/
structure TypeTable where
  elems : List Ty
  classNames : List String
deriving DecidableEq, Repr

namespace TypeTable

/-- A table without array types. -/
def ofClassNames (names : List String) : TypeTable := ⟨[], names⟩

/-- The array type of an element type, if it is interned. -/
def lookupArray (t : TypeTable) (elem : Ty) : Option Ty :=
  (t.elems.idxOf? elem).map Ty.array

/-- The array type of an element type; interns it if need be. -/
def arrayOf (t : TypeTable) (elem : Ty) : Ty × TypeTable :=
  match t.lookupArray elem with
  | some ty => (ty, t)
  | none => (.array t.elems.length, { t with elems := t.elems ++ [elem] })

/-- The element type of an array type. -/
def elem (t : TypeTable) (id : ArrayId) : Ty := t.elems[id]?.getD .any

/-- The name of a class. -/
def className (t : TypeTable) (id : ClassId) : String :=
  t.classNames[id]?.getD "<unknown class>"

/-- How a type is written, given how deep arrays may nest. -/
def textWithin (t : TypeTable) : Nat → Ty → String
  | depth + 1, .array id => textWithin t depth (t.elem id) ++ "[]"
  | 0, .array _ => ""
  | _, .int => "int"
  | _, .bool => "boolean"
  | _, .null => "null"
  | _, .any => "any"
  | _, .invalid => "invalid"
  | _, .class_ id => t.className id

/-- How a type is written: an array type as its element type and a bracket
pair. An array type whose elements lead back to it has no text; no array
type nests deeper than there are interned ones, and one that is not
interned. -/
def text (t : TypeTable) (ty : Ty) : String := t.textWithin (t.elems.length + 1) ty

end TypeTable

end ClassLang
