import ClassLang.Lowering.Allocator
import ClassLang.Proofs.Ir.Nesting
import ClassLang.Proofs.Lowering.Emits
import ClassLang.Proofs.Lowering.Layouts
import Mathlib.Algebra.Group.Int.Defs
/-!
# Lowering — allocators

`ObjectCode` and `ArrayCode` say what the code of the procedures is that
`new` calls. `Session.Ready` holds of the sessions in which bodies are
lowered: everything is declared and laid out, and the procedures in the
tables of allocators are what they should be. Asking for an allocator
succeeds in such a session and leaves one (`yields_classAllocator`,
`yields_arrayAllocator`).
-/


namespace ClassLang

open Source (TypeExpr Program)
open Semantics (Fault elemBytes headerBytes TooLarge)
open Typing (Analysis Denotes TableOk)
open Lowering (defaultOperand maxLength)

/-! ## The bytes of arrays -/

section Bytes

variable {elem : TypeExpr} {size : Int32}

theorem lt_zero_iff (size : Int32) : size < 0 ↔ size.toInt < 0 := Int32.lt_iff_toInt_lt

theorem tooLarge_iff (elem : TypeExpr) (hsize : 0 ≤ size.toInt) :
    TooLarge elem size ↔ 2 ^ 31 - 1 < size.toInt * elemBytes elem + headerBytes elem := by
  rw [TooLarge]
  cases elem <;> simp only [elemBytes, headerBytes] <;> omega

theorem toInt_elemBytes (elem : TypeExpr) : (Int32.ofNat (elemBytes elem)).toInt = elemBytes elem := by
  cases elem <;> rfl

theorem toInt_headerBytes (elem : TypeExpr) :
    (Int32.ofNat (headerBytes elem)).toInt = headerBytes elem := by
  cases elem <;> rfl

/-- **The bytes of an array that is not too large** are counted without overflow. -/
theorem toInt_bytes (hsize : 0 ≤ size.toInt) (hfits : ¬ TooLarge elem size) :
    (size * .ofNat (elemBytes elem)).toInt = size.toInt * elemBytes elem ∧
      (size * .ofNat (elemBytes elem) + .ofNat (headerBytes elem)).toInt =
        size.toInt * elemBytes elem + headerBytes elem := by
  rw [tooLarge_iff elem hsize] at hfits
  have hnonneg : 0 ≤ size.toInt * elemBytes elem := Int.mul_nonneg hsize (Int.natCast_nonneg _)
  have hmul : (size * .ofNat (elemBytes elem)).toInt = size.toInt * elemBytes elem := by
    rw [Int32.toInt_mul, toInt_elemBytes, Int.bmod_eq_of_le (by omega) (by omega)]
  refine ⟨hmul, ?_⟩
  rw [Int32.toInt_add, hmul, toInt_headerBytes, Int.bmod_eq_of_le (by omega) (by omega)]

end Bytes

/-! ## Their code -/

/-- Values are written to the members of an object, from a member on. -/
inductive Ir.Proc.Fills (q : Ir.Proc) (object : Ir.Operand) :
    Nat → List Ir.Operand → Ir.Point → Ir.Point → Prop
  | nil {index pt} : Fills q object index [] pt pt
  | cons {index value rest pt addr pt₁ pt₂ pt₃} : index < 2 ^ 31 →
      q.Member object index pt addr pt₁ → q.Stores addr value pt₁ pt₂ →
      Fills q object (index + 1) rest pt₂ pt₃ → Fills q object index (value :: rest) pt pt₃

/-- The code halts if the size of an array is negative or too large. -/
inductive Ir.Proc.ChecksSize (q : Ir.Proc) (size : Ir.Operand) (elem : TypeExpr) :
    Ir.Point → Ir.Point → Prop
  | mk {pt negative pt₁ pt₂ tooLarge pt₃ pt₄} :
      q.Defines (.binary · .lt size (.int 0)) pt negative pt₁ →
      q.HaltsIf negative Fault.negativeSize.message pt₁ pt₂ →
      q.Defines (.binary · .lt (.int (maxLength (.ofNat (headerBytes elem))
        (.ofNat (elemBytes elem)))) size) pt₂ tooLarge pt₃ →
      q.HaltsIf tooLarge Fault.outOfMemory.message pt₃ pt₄ → ChecksSize q size elem pt pt₄

/-- The elements of an array get their first values in a loop, whose counter
is in a slot. -/
inductive Ir.Proc.FillsElems (q : Ir.Proc) (array size : Ir.Operand) (elem : TypeExpr) :
    Ir.Point → Ir.Point → Prop
  | mk {pt pt₁ pt₂ cond body done i pt₃ more pt₄ slot pt₅ pt₆ next pt₇ pt₈ n} :
      q.HasSlot .int pt pt₁ → q.Stores (.temp pt.temps) (.int 0) pt₁ pt₂ →
      q.Ends pt₂ (.jump cond) → cond ≠ 0 → body ≠ 0 → done ≠ 0 →
      q.Defines (.load · (.temp pt.temps)) (pt₂.enter cond) i pt₃ →
      q.Defines (.binary · .lt i size) pt₃ more pt₄ → q.Ends pt₄ (.branch more body done) →
      q.Defines (.elementPtr · array [.int 0, .int 1, i]) (pt₄.enter body) slot pt₅ →
      q.Stores slot (defaultOperand elem) pt₅ pt₆ →
      q.Defines (.binary · .add i (.int 1)) pt₆ next pt₇ →
      q.Stores (.temp pt.temps) next pt₇ pt₈ → q.Ends pt₈ (.jump cond) → pt₄.temps ≤ n →
      FillsElems q array size elem pt ⟨n, done, 0⟩

namespace Lowering

open Ir (Operand ProcId StructId GlobalId Builder Proc Point)
open Ir.Builder

/-- **The code that makes objects** of a size with a vtable and the first values of
their fields. -/
inductive ObjectCode (q : Proc) (size : Int32) (vtable : GlobalId) (values : List Operand) : Prop
  | mk {raw pt₁ pt₂ object pt₃ header pt₄ pt₅ pt₆} :
      q.Defines (.alloc · (.int size)) ⟨0, 0, 0⟩ raw pt₁ →
      q.HaltsIfNull raw Fault.outOfMemory.message pt₁ pt₂ →
      q.Defines (.bitcast · raw) pt₂ object pt₃ → q.Member object 0 pt₃ header pt₄ →
      q.Stores header (.global vtable) pt₄ pt₅ → q.Fills object 1 values pt₅ pt₆ →
      q.Ends pt₆ (.ret object) → ObjectCode q size vtable values

/-- **The code that makes arrays** of a type of elements. -/
inductive ArrayCode (q : Proc) (elem : TypeExpr) : Prop
  | mk {pt bytes pt₁ total pt₂ raw pt₃ pt₄ array pt₅ length pt₆ pt₇ pt₈} :
      q.ChecksSize (.param 0) elem ⟨0, 0, 0⟩ pt →
      q.Defines (.binary · .mul (.param 0) (.int (.ofNat (elemBytes elem)))) pt bytes pt₁ →
      q.Defines (.binary · .add bytes (.int (.ofNat (headerBytes elem)))) pt₁ total pt₂ →
      q.Defines (.alloc · total) pt₂ raw pt₃ →
      q.HaltsIfNull raw Fault.outOfMemory.message pt₃ pt₄ →
      q.Defines (.bitcast · raw) pt₄ array pt₅ → q.Member array 0 pt₅ length pt₆ →
      q.Stores length (.param 0) pt₆ pt₇ → q.FillsElems array (.param 0) elem pt₇ pt₈ →
      q.Ends pt₈ (.ret array) → ArrayCode q elem

/-! ## The bytes of objects -/

section Bytes

variable {p : Program} {a : Analysis} {s : Session} {id : ClassId}

/-- Every value is aligned to its own size. -/
def scalarExtent (bytes : Nat) : Ir.Extent := ⟨bytes, bytes⟩

/-- What the parts of an object take: the pointer to its vtable, and its fields. -/
def objectParts (p : Program) (id : ClassId) : List Nat :=
  8 :: (p.fieldRefs id).filterMap fun ref => (fieldDecl? p ref).map (elemBytes ·.ty)

/-- **The bytes of an object** of a class. -/
def objectBytes (p : Program) (id : ClassId) : Nat :=
  (Ir.structExtent ((objectParts p id).map scalarExtent)).size

/-- A value takes as much memory in an object as in an array. -/
theorem Represents.extent {written : TypeExpr} {target : Ir.Ty} (h : Represents p a s written target)
    (struct : StructId → Ir.Extent) : target.extent struct = scalarExtent (elemBytes written) := by
  cases h <;> rfl

/-- The members of an object take what its parts do. -/
theorem extents_of_fields {refs : List MemberRef} {fields : List Ir.Field}
    (h : List.Forall₂ (FieldFor p a s) refs fields) (struct : StructId → Ir.Extent) :
    fields.map (·.ty.extent struct) =
      (refs.filterMap fun ref => (fieldDecl? p ref).map (elemBytes ·.ty)).map scalarExtent := by
  induction h with
  | nil => rfl
  | cons hfield _ ih =>
    obtain ⟨decl, hdecl, hr⟩ := hfield.decl
    rw [List.map_cons, List.filterMap_cons_some (by rw [hdecl, Option.map_some]), List.map_cons,
      hr.extent, ih]

/-- **The struct of a class has the size of its objects.** -/
theorem sizeOf_object {ir : Ir.Program} {name : String} {fields : List Ir.Field}
    (hinstance : ir.structs[2 * id]? = some ⟨name, headerField id :: fields⟩)
    (hfields : List.Forall₂ (FieldFor p a s) (p.fieldRefs id) fields) :
    ir.sizeOf (.struct (2 * id)) = objectBytes p id := by
  -- There is a struct, so it is seen at the first level at least.
  obtain ⟨depth, hdepth⟩ := Nat.exists_eq_add_of_lt (List.getElem?_eq_some_iff.1 hinstance).1
  rw [Ir.Program.sizeOf, Ir.Program.extent, Ir.Ty.extent, hdepth, Ir.Program.structExtentWithin,
    hinstance]
  dsimp only
  rw [List.map_cons, extents_of_fields hfields]
  rfl

end Bytes

/-! ## Building it -/

section Bodies

variable {b : Builder} {p : Ir.Program}

theorem yields_storeDefaults (hp : p.Typed) (hs : b.Sound p) {object : Operand}
    {struct : StructId} {decl : Ir.StructDef} (h : b.HasTy p object (.ptr (.struct struct)))
    (hdecl : p.structs[struct]? = some decl) (index : Nat) {fields : List Ir.Field}
    (hfields : ∀ (j : Nat) field, fields[j]? = some field →
      decl.fields[index + j]? = some field) (htys : ∀ field ∈ fields, Storable field.ty)
    (hlength : index + fields.length ≤ 2 ^ 31) :
    Yields (storeDefaults p object index fields) b fun _ b' =>
      Emission p b b' fun q => q.Fills object index (fields.map (defaultValue ·.ty)) := by
  induction fields generalizing b index with
  | nil =>
    refine .pure ((Emission.refl hs).mono fun q pt pt' heq => ?_)
    subst heq
    exact .nil
  | cons field rest ih =>
    rw [List.length_cons] at hlength
    rw [List.forall_mem_cons] at htys
    have hindex : index < 2 ^ 31 := by omega
    refine (yields_member hp hs "field" h hdecl (hfields 0 field rfl) hindex).bind
      fun addr b₁ ⟨h₁, haddr⟩ => ?_
    refine (yields_storeDefault h₁.grows.sound haddr htys.1).bind fun _ b₂ h₂ => ?_
    have hty := h.mono (.refl p) (h₁.grows.trans h₂.grows).into
    refine (ih h₂.grows.sound hty (index + 1) (fun j f hf => ?_) htys.2 (by omega)).mono
      fun _ b' h₃ => ?_
    · rw [show index + 1 + j = index + (j + 1) by omega]
      exact hfields (j + 1) f hf
    · refine ((h₁.trans h₂).trans h₃).mono fun q pt pt' ⟨_, ⟨_, hmember, hstore⟩, hfills⟩ => ?_
      exact .cons hindex hmember hstore hfills

/-- **The body that makes objects.** -/
theorem yields_objectBody (hp : p.Typed) {struct : StructId} {vtable : GlobalId}
    {decl : Ir.StructDef} {header : Ir.Field} {fields : List Ir.Field}
    (hdecl : p.structs[struct]? = some decl) (hfields : decl.fields = header :: fields)
    {params : List Ir.Field}
    (hvtable : (Builder.start params (.ptr (.struct struct))).HasTy p (.global vtable) header.ty)
    (htys : ∀ field ∈ fields, Storable field.ty) (hlength : fields.length + 1 < 2 ^ 31) :
    Yields (objectBody p struct vtable fields) (.start params (.ptr (.struct struct)))
      fun _ b => (Builder.start params (.ptr (.struct struct))).Grows p b ∧
        ∀ q : Proc, q.Covers b → ObjectCode q (.ofNat (p.sizeOf (.struct struct))) vtable
          (fields.map (defaultValue ·.ty)) := by
  have hheader : decl.fields[0]? = some header := by rw [hfields]; rfl
  have hstruct : (Ir.Ty.struct struct).Within p :=
    Ir.Ty.within_struct.2 (List.getElem?_eq_some_iff.1 hdecl).1
  refine (yields_alloc (sound_start p params _) "raw" (Ir.hasTy_int _)).bind
    fun raw b₁ ⟨h₁, hraw⟩ => ?_
  refine (yields_haltIfNull h₁.grows.sound hraw _).bind fun _ b₂ h₂ => ?_
  refine (yields_bitcast h₂.grows.sound "object" (hraw.mono (.refl p) h₂.grows.into)
    (.inr ⟨_, rfl⟩) hstruct).bind fun object b₃ ⟨h₃, hty⟩ => ?_
  refine (yields_member hp h₃.grows.sound "vtable" hty hdecl hheader
    (by decide)).bind fun head b₄ ⟨h₄, hhead⟩ => ?_
  have hvtable₄ := hvtable.mono (.refl p) (((h₁.trans h₂).trans h₃).trans h₄).grows.into
  refine (yields_store h₄.grows.sound hhead hvtable₄).bind fun _ b₅ h₅ => ?_
  refine (yields_storeDefaults hp h₅.grows.sound (hty.mono (.refl p) (h₄.grows.trans h₅.grows).into)
    hdecl 1 (fun j field hfield => ?_) htys (by omega)).bind fun _ b₆ h₆ => ?_
  · rw [hfields, Nat.add_comm, List.getElem?_cons_succ, hfield]
  · have hall := ((((h₁.trans h₂).trans h₃).trans h₄).trans h₅).trans h₆
    have hobject := hty.mono (.refl p) ((h₄.grows.trans h₅.grows).trans h₆.grows).into
    have hE := grows_terminate h₆.grows.sound (t := .ret object)
      (.ret (by rw [hall.grows.into.ret]; exact hobject))
    refine yields_terminate ⟨hall.grows.trans hE, fun q hq => ?_⟩
    obtain ⟨pt, hpt, hcode⟩ := hall.code _ (here?_start params _)
    obtain ⟨_, ⟨_, ⟨_, ⟨_, ⟨_, hraw, hhalt⟩, hcast⟩, hhead⟩, hstore⟩, hfills⟩ :=
      hcode q (hE.into.covers hq)
    exact .mk hraw hhalt hcast hhead hstore hfills (ends_terminate h₆.grows.sound hpt hq)

/-- What an array needs of memory, as the type of its elements says. -/
structure ElemLayout (p : Ir.Program) (struct : StructId) (elem : TypeExpr) (target : Ir.Ty) :
    Prop where
  size : p.sizeOf target = elemBytes elem
  header : p.fieldOffset struct 1 = headerBytes elem
  first : defaultValue target = defaultOperand elem

theorem max_elemBytes (elem : TypeExpr) :
    max (Int32.ofNat (elemBytes elem)) 1 = .ofNat (elemBytes elem) := by
  cases elem <;> rfl

/-- Halts if the size of an array is negative or too large. -/
def checkSize (size : Operand) (header elemSize : Int32) : Emit Unit := do
  let negative ← Emit.binary "negative" .lt size (.int 0)
  Emit.haltIf negative "negative_size" "size_ok" Fault.negativeSize.message
  let tooLarge ← Emit.binary "too_large" .lt (.int (maxLength header elemSize)) size
  Emit.haltIf tooLarge "too_large" "size_fits" Fault.outOfMemory.message

/-- Writes first values to the elements of an array in a loop, and goes on
behind it. -/
def fillElems (p : Ir.Program) (array size : Operand) (elemTy : Ir.Ty) : Emit Unit := do
  let counter ← Emit.entryAlloca "i" .int
  Emit.store counter (.int 0)
  let cond ← Emit.newBlock "init_cond"
  let body ← Emit.newBlock "init_body"
  let done ← Emit.newBlock "init_done"
  Emit.terminate (.jump cond)
  Emit.switchTo cond
  let i ← Emit.load p "i" counter
  let more ← Emit.binary "more" .lt i size
  Emit.terminate (.branch more body done)
  Emit.switchTo body
  let slot ← Emit.elementPtr p "elem" array [.int 0, .int 1, i]
  Emit.store slot (defaultValue elemTy)
  let next ← Emit.binary "next" .add i (.int 1)
  Emit.store counter next
  Emit.terminate (.jump cond)
  Emit.switchTo done

/-- The body that makes arrays checks the size, allocates, and fills. -/
theorem arrayBody_eq (p : Ir.Program) (struct : StructId) (elemTy : Ir.Ty) :
    arrayBody p struct elemTy = (do
      let elemSize := max (Int32.ofNat (p.sizeOf elemTy)) 1
      let header := Int32.ofNat (p.fieldOffset struct 1)
      checkSize (.param 0) header elemSize
      let bytes ← Emit.binary "bytes" .mul (.param 0) (.int elemSize)
      let total ← Emit.binary "total" .add bytes (.int header)
      let raw ← Emit.alloc "raw" total
      Emit.haltIfNull raw outOfMemory
      let array ← Emit.bitcast "array" raw (.ptr (.struct struct))
      let length ← Emit.member p "length" array 0
      Emit.store length (.param 0)
      fillElems p array (.param 0) elemTy
      Emit.terminate (.ret array)) := by
  simp only [arrayBody, checkSize, fillElems, bind_assoc]
  rfl

theorem yields_checkSize (hs : b.Sound p) {size : Operand} (hsize : b.HasTy p size .int)
    (elem : TypeExpr) :
    Yields (checkSize size (.ofNat (headerBytes elem)) (.ofNat (elemBytes elem))) b fun _ b' =>
      Emission p b b' fun q => q.ChecksSize size elem := by
  refine (yields_ints hs "negative" (by simp) hsize (Ir.hasTy_int _)).bind
    fun negative b₁ ⟨h₁, hnegative⟩ => ?_
  refine (yields_haltIf h₁.grows.sound hnegative _ _ _).bind fun _ b₂ h₂ => ?_
  have hE₂ := h₁.trans h₂
  refine (yields_ints h₂.grows.sound "too_large" (by simp) (Ir.hasTy_int _)
    (hsize.mono (.refl p) hE₂.grows.into)).bind fun tooLarge b₃ ⟨h₃, htooLarge⟩ => ?_
  refine (yields_haltIf h₃.grows.sound htooLarge _ _ _).mono fun _ b₄ h₄ => ?_
  exact ((hE₂.trans h₃).trans h₄).mono fun q pt pt' ⟨_, ⟨_, ⟨_, hlt, hhalt⟩, hlt'⟩, hhalt'⟩ =>
    .mk hlt hhalt hlt' hhalt'

theorem yields_fillElems (hp : p.Typed) (hs : b.Sound p) {struct : StructId} {elem : TypeExpr}
    {target : Ir.Ty} {decl : Ir.StructDef} (hdecl : p.structs[struct]? = some decl)
    (hfields : decl.fields = arrayFields target) (htarget : Storable target)
    (hfirst : defaultValue target = defaultOperand elem) {array size : Operand}
    (harray : b.HasTy p array (.ptr (.struct struct))) (hsize : b.HasTy p size .int) :
    Yields (fillElems p array size target) b fun _ b' =>
      Emission p b b' fun q => q.FillsElems array size elem := by
  refine (yields_entryAlloca hs "i" Ir.Ty.within_int).bind fun counter b₁ ⟨h₁, hcounter⟩ => ?_
  refine (yields_store h₁.grows.sound hcounter (Ir.hasTy_int _)).bind fun _ b₂ h₂ => ?_
  have hE₂ := h₁.trans h₂
  refine yields_newBlock_bind h₂.grows.sound _ fun cond c₁ hcond => ?_
  refine yields_newBlock_bind hcond.grows.sound _ fun body c₂ hbody => ?_
  refine yields_newBlock_bind hbody.grows.sound _ fun done c₃ hdone => ?_
  have hE := (hcond.grows.trans hbody.grows).trans hdone.grows
  have hcond₃ := (hcond.reserved.grows hbody.grows).grows hdone.grows
  have hbody₃ := (hbody.reserved.weaken hcond.grows.into.length_le).grows hdone.grows
  have hdone₃ := hdone.reserved.weaken (hcond.grows.trans hbody.grows).into.length_le
  -- The condition of the loop.
  refine yields_moveTo_bind hE (Nat.le_refl _) hcond₃ (.jump hcond₃.target) fun b₃ hm₃ => ?_
  have hbody₄ := hm₃.reserved hbody₃ (hbody.other hcond.reserved)
  have hdone₄ := hm₃.reserved hdone₃ (hdone.other (hcond.reserved.grows hbody.grows))
  have hcounter₃ := hcounter.mono (.refl p) (h₂.grows.into.trans hm₃.extends_.into)
  refine (yields_load hm₃.extends_.sound "i" hcounter₃).bind fun i b₄ ⟨h₄, hi⟩ => ?_
  have hE₄ := hE₂.grows.into.trans (hm₃.extends_.into.trans h₄.grows.into)
  refine (yields_ints h₄.grows.sound "more" (by simp) hi (hsize.mono (.refl p) hE₄)).bind
    fun more b₅ ⟨h₅, hmore⟩ => ?_
  have h₄₅ := h₄.trans h₅
  have hbody₅ := hbody₄.grows h₄₅.grows
  have hdone₅ := hdone₄.grows h₄₅.grows
  -- The body of the loop.
  refine yields_moveTo_bind (hm₃.extends_.grows h₄₅.grows (Nat.le_refl _)) (Nat.le_refl _)
    hbody₅ (.branch hmore hbody₅.target hdone₅.target) fun b₆ hm₆ => ?_
  have hE₆ := hE₂.grows.into.trans hm₆.extends_.into
  have hi₆ := hi.mono (.refl p) (h₅.grows.into.trans hm₆.into)
  have hcounter₆ := hcounter₃.mono (.refl p) (h₄₅.grows.into.trans hm₆.into)
  refine (yields_elementPtr hp hm₆.extends_.sound "elem" (harray.mono (.refl p) hE₆) hdecl hfields
    hi₆).bind fun slot b₇ ⟨h₇, hslot⟩ => ?_
  refine (yields_storeDefault h₇.grows.sound hslot htarget).bind fun _ b₈ h₈ => ?_
  have hE₈ := (h₇.trans h₈).grows.into
  refine (yields_ints h₈.grows.sound "next" (by simp) (hi₆.mono (.refl p) hE₈)
    (Ir.hasTy_int _)).bind fun next b₉ ⟨h₉, hnext⟩ => ?_
  refine (yields_store h₉.grows.sound
    (hcounter₆.mono (.refl p) (hE₈.trans h₉.grows.into)) hnext).bind fun _ b₁₀ h₁₀ => ?_
  have h₇₀ := ((h₇.trans h₈).trans h₉).trans h₁₀
  have hback := hcond₃.target.mono
    (((hm₃.into.trans h₄₅.grows.into).trans hm₆.into).trans h₇₀.grows.into)
  refine yields_moveTo_bind (x := pure ()) (hm₆.extends_.grows h₇₀.grows (Nat.le_refl _))
    (Nat.le_refl _) ((hm₆.reserved hdone₅ (hdone.other hbody.reserved)).grows h₇₀.grows)
    (.jump hback) fun b₁₁ hm₁₁ => .pure ⟨hE₂.grows.trans hm₁₁.extends_, fun pt hpt => ?_⟩
  -- The pieces of code, from the last to the first.
  obtain ⟨pt₂, hpt₂, hinit⟩ := hE₂.code pt hpt
  obtain ⟨pt₅, hpt₅, htest⟩ := h₄₅.code _ hm₃.here
  obtain ⟨pt₁₀, hpt₁₀, hstep⟩ := h₇₀.code _ hm₆.here
  refine ⟨_, hm₁₁.here, fun q hq => ?_⟩
  have hq₁₀ := hm₁₁.into.covers hq
  have hq₆ := h₇₀.grows.into.covers hq₁₀
  have hq₅ := hm₆.into.covers hq₆
  have hq₃ := h₄₅.grows.into.covers hq₅
  obtain ⟨_, ⟨hslot, rfl⟩, hzero⟩ := hinit q (hE.into.covers (hm₃.into.covers hq₃))
  obtain ⟨_, hload, hlt⟩ := htest q hq₅
  obtain ⟨_, ⟨_, ⟨_, helem, hdefault⟩, hadd⟩, hstore⟩ := hstep q hq₁₀
  have hpt := hdone.here _ (hbody.here _ (hcond.here _ hpt₂))
  have hle := (hm₆.into.trans h₇₀.grows.into).temps.length_le
  rw [← (h₄₅.grows.sound.here hpt₅).2.1] at hle helem
  rw [← (hE.sound.here hpt).2.1] at hload
  rw [hfirst] at hdefault
  exact .mk hslot hzero (hm₃.ends hpt hq₃) hcond.reserved.pos hbody.reserved.pos
    hdone.reserved.pos hload hlt (hm₆.ends hpt₅ hq₆) helem hdefault hadd hstore
    (hm₁₁.ends hpt₁₀ hq) hle

/-- **The body that makes arrays.** -/
theorem yields_arrayBody (hp : p.Typed) {struct : StructId} {elem : TypeExpr} {target : Ir.Ty}
    {decl : Ir.StructDef} (hdecl : p.structs[struct]? = some decl)
    (hfields : decl.fields = arrayFields target) (htarget : Storable target)
    (helem : ElemLayout p struct elem target) :
    Yields (arrayBody p struct target) (.start [⟨"size", .int⟩] (.ptr (.struct struct)))
      fun _ b => (Builder.start [⟨"size", .int⟩] (.ptr (.struct struct))).Grows p b ∧
        ∀ q : Proc, q.Covers b → ArrayCode q elem := by
  have hlength : decl.fields[0]? = some ⟨"length", .int⟩ := by rw [hfields]; rfl
  have hstruct : (Ir.Ty.struct struct).Within p :=
    Ir.Ty.within_struct.2 (List.getElem?_eq_some_iff.1 hdecl).1
  rw [arrayBody_eq]
  dsimp only
  rw [helem.size, helem.header, max_elemBytes]
  generalize hstart : Builder.start [⟨"size", .int⟩] (.ptr (.struct struct)) = b₀
  have hs₀ : b₀.Sound p := hstart ▸ sound_start p _ _
  have hsize : b₀.HasTy p (.param 0) .int :=
    hstart ▸ Ir.hasTy_param.2 ⟨⟨⟨"size", .int⟩, rfl, rfl⟩, Ir.Ty.within_int⟩
  -- The parts in their order: size, bytes, memory, length, elements. Each is typed by what
  -- is there before it.
  refine (yields_checkSize hs₀ hsize elem).bind fun _ b₁ h₁ => ?_
  refine (yields_ints h₁.grows.sound "bytes" (by simp) (hsize.mono (.refl p) h₁.grows.into)
    (Ir.hasTy_int _)).bind fun bytes b₂ ⟨h₂, hbytes⟩ => ?_
  refine (yields_ints h₂.grows.sound "total" (by simp) hbytes (Ir.hasTy_int _)).bind
    fun total b₃ ⟨h₃, htotal⟩ => ?_
  refine (yields_alloc h₃.grows.sound "raw" htotal).bind fun raw b₄ ⟨h₄, hraw⟩ => ?_
  refine (yields_haltIfNull h₄.grows.sound hraw _).bind fun _ b₅ h₅ => ?_
  refine (yields_bitcast h₅.grows.sound "array" (hraw.mono (.refl p) h₅.grows.into)
    (.inr ⟨_, rfl⟩) hstruct).bind fun array b₆ ⟨h₆, hty⟩ => ?_
  refine (yields_member hp h₆.grows.sound "length" hty hdecl hlength (by decide)).bind
    fun length b₇ ⟨h₇, hlengthTy⟩ => ?_
  have hE₇ := (((((h₁.trans h₂).trans h₃).trans h₄).trans h₅).trans h₆).trans h₇
  refine (yields_store h₇.grows.sound hlengthTy (hsize.mono (.refl p) hE₇.grows.into)).bind
    fun _ b₈ h₈ => ?_
  have hE₈ := hE₇.trans h₈
  refine (yields_fillElems hp h₈.grows.sound hdecl hfields htarget helem.first
    (hty.mono (.refl p) (h₇.trans h₈).grows.into) (hsize.mono (.refl p) hE₈.grows.into)).bind
    fun _ b₉ h₉ => ?_
  have hall := hE₈.trans h₉
  have hret : b₉.HasTy p array b₉.ret := by
    rw [hall.grows.into.ret, ← hstart]
    exact hty.mono (.refl p) ((h₇.trans h₈).trans h₉).grows.into
  have hE := grows_terminate h₉.grows.sound (t := .ret array) (.ret hret)
  refine yields_terminate ⟨hall.grows.trans hE, fun q hq => ?_⟩
  obtain ⟨pt, hpt, hcode⟩ := hall.code ⟨0, 0, 0⟩ (by rw [← hstart]; exact here?_start _ _)
  obtain ⟨_, ⟨_, ⟨_, ⟨_, ⟨_, ⟨_, ⟨_, ⟨_, hcheck, hmul⟩, hadd⟩, hraw⟩, hnull⟩, hcast⟩, hlen⟩, hstore⟩,
    hfills⟩ := hcode q (hE.into.covers hq)
  exact .mk hcheck hmul hadd hraw hnull hcast hlen hstore hfills
    (ends_terminate h₉.grows.sound hpt hq)

end Bodies

/-! ## Sessions in which bodies are lowered -/

section Ready

variable {p : Program} {printName : String} {a : Analysis} {s s' : Session}

/-- The operand is the first value of the field. -/
def FirstValue (p : Program) (ref : MemberRef) (value : Operand) : Prop :=
  ∃ field, fieldDecl? p ref = some field ∧ value = defaultOperand field.ty

/-- The procedure makes objects of a class, of their size, and is named for it. -/
def MakesObject (p : Program) (s : Session) (id : ClassId) (proc : ProcId) : Prop :=
  ∃ q values, s.ir.procs[proc]? = some q ∧ q.params = [] ∧ q.ret = .ptr (.struct (2 * id)) ∧
    q.Formed ∧ q.Single ∧ List.Forall₂ (FirstValue p) (p.fieldRefs id) values ∧
    ObjectCode q (.ofNat (objectBytes p id)) id values ∧
    ∀ c, p.classes[id]? = some c → q.name = "new_class_" ++ c.name

/-- The procedure makes arrays over a type of elements, and is named for it. -/
def MakesArray (p : Program) (a : Analysis) (s : Session) (ty : Ty) (proc : ProcId) : Prop :=
  ∃ q elem struct, s.ir.procs[proc]? = some q ∧ Denotes p a.findings.table ty elem ∧
    s.arrayStructs.get? ty = some struct ∧ q.params = [⟨"size", .int⟩] ∧
    q.ret = .ptr (.struct struct) ∧ q.Formed ∧ q.Single ∧ ArrayCode q elem ∧
    q.name = "new_array_" ++ mangle a.findings.table ty

/-- The procedure is none of a function or a method. -/
def Session.Spare (s : Session) (proc : ProcId) : Prop :=
  proc ∉ s.functionProcs ∧ ∀ ref, s.methodProcs.get? ref ≠ some proc

/-- **Bodies can be lowered**: all is declared and laid out, and allocators
are what they should be. -/
structure Session.Ready (p : Program) (a : Analysis) (s : Session) : Prop where
  typed : s.Typed p a
  apart : s.Apart p
  laid : ∀ id < p.classes.length, ∃ entries fields slots, LaidOut p a s id entries fields slots
  functions : ∀ (index : Nat) f, p.functions[index]? = some f →
    ∃ proc, s.functionProcs[index]? = some proc ∧ HasProc p a s f.name [] f proc
  methods : ∀ (id : ClassId) c, p.classes[id]? = some c → ∀ (index : Nat) m,
    c.methods[index]? = some m → HasMethodProc p a s c ⟨id, index⟩ m
  objects : ∀ id proc, s.classAllocators.get? id = some proc →
    id < p.classes.length ∧ s.Spare proc ∧ MakesObject p s id proc
  arrays : ∀ ty proc, s.arrayAllocators.get? ty = some proc → s.Spare proc ∧ MakesArray p a s ty proc

/-- **What is known of a program that the analysis has no objections to**,
and that it has no more members than an integer can count. -/
structure Supports (p : Program) (printName : String) (a : Analysis) : Prop where
  classes : a.classes.Describes p
  sound : p.SoundClasses
  covers : a.findings.Covers p printName
  fields : ∀ id, (p.fieldRefs id).length + 1 < 2 ^ 31
  slots : ∀ id, (p.slotNames id).length < 2 ^ 31

/-- The objects of every class have the size of its struct. -/
theorem Session.Ready.sizeOf (hs : s.Ready p a) {id : ClassId} (hid : id < p.classes.length) :
    s.ir.sizeOf (.struct (2 * id)) = objectBytes p id := by
  obtain ⟨_, fields, _, hlaid⟩ := hs.laid id hid
  obtain ⟨_, hinstance⟩ := hlaid.instance_
  exact sizeOf_object hinstance hlaid.fields

theorem Session.Spare.congr {proc : ProcId} (h : s.Spare proc)
    (hfunctions : s'.functionProcs = s.functionProcs)
    (hmethods : s'.methodProcs = s.methodProcs) : s'.Spare proc := by
  rw [Session.Spare, hfunctions, hmethods]
  exact h

theorem MakesObject.mono (h : s.ir.procs <+: s'.ir.procs) {id : ClassId} {proc : ProcId}
    (hm : MakesObject p s id proc) : MakesObject p s' id proc := by
  obtain ⟨q, values, hq, hrest⟩ := hm
  exact ⟨q, values, getElem?_of_initial h hq, hrest⟩

theorem MakesArray.mono (h : s.ir.procs <+: s'.ir.procs)
    (harrays : Kept s.arrayStructs s'.arrayStructs) {ty : Ty} {proc : ProcId}
    (hm : MakesArray p a s ty proc) : MakesArray p a s' ty proc := by
  obtain ⟨q, elem, struct, hq, hd, hstruct, hrest⟩ := hm
  exact ⟨q, elem, struct, getElem?_of_initial h hq, hd, harrays _ _ hstruct, hrest⟩

/-- A session stays ready while it grows. Allocators that come in have to be
what they should be. -/
theorem Session.Ready.extends_ (hs : s.Ready p a) (h : s.Extends s') (htyped : s'.Typed p a)
    (hapart : s'.Apart p) (hfunctions : s'.functionProcs = s.functionProcs)
    (hmethods : s'.methodProcs = s.methodProcs)
    (hobjects : ∀ id proc, s'.classAllocators.get? id = some proc →
      s.classAllocators.get? id = some proc ∨
        (id < p.classes.length ∧ s'.Spare proc ∧ MakesObject p s' id proc))
    (harrays : ∀ ty proc, s'.arrayAllocators.get? ty = some proc →
      s.arrayAllocators.get? ty = some proc ∨ (s'.Spare proc ∧ MakesArray p a s' ty proc)) :
    s'.Ready p a := by
  refine ⟨htyped, hapart, fun id hid => ?_,
    fun index f hf => ?_, fun id c hc index m hm => (hs.methods id c hc index m hm).mono h.grows,
    fun id proc hproc => ?_, fun ty proc hproc => ?_⟩
  · obtain ⟨entries, fields, slots, hlaid⟩ := hs.laid id hid
    exact ⟨entries, fields, slots, hlaid.extends_ h⟩
  · obtain ⟨proc, hproc, hhas⟩ := hs.functions index f hf
    exact ⟨proc, by rw [hfunctions, hproc], hhas.mono h.grows⟩
  · rcases hobjects id proc hproc with hold | hnew
    · obtain ⟨hid, hsp, hm⟩ := hs.objects id proc hold
      exact ⟨hid, hsp.congr hfunctions hmethods, hm.mono h.procs⟩
    · exact hnew
  · rcases harrays ty proc hproc with hold | hnew
    · obtain ⟨hsp, hm⟩ := hs.arrays ty proc hold
      exact ⟨hsp.congr hfunctions hmethods, hm.mono h.procs h.arrayStructs⟩
    · exact hnew

theorem Session.Ready.retyped (hs : s.Ready p a) (h : s.Retyped p a s') : s'.Ready p a :=
  hs.extends_ h.extends_ h.typed (hs.apart.retyped h) h.functionProcs h.methodProcs
    (fun _ _ hproc => .inl (h.sameAllocators.classes ▸ hproc))
    fun _ _ hproc => .inl (h.sameAllocators.arrays ▸ hproc)

/-- A new procedure is none of a function or a method. -/
theorem Session.Apart.spare (h : s.Apart p) : s.Spare s.ir.procs.length :=
  ⟨fun hmem => Nat.lt_irrefl _ (h.bounded _ hmem),
    fun ref href => Nat.lt_irrefl _ (h.boundedMethods ref _ href)⟩

theorem Represents.storable {written : TypeExpr} {target : Ir.Ty}
    (h : Represents p a s written target) : Storable target := by
  cases h with
  | int => exact .inl rfl
  | bool => exact .inr (.inl rfl)
  | class_ => exact .inr (.inr ⟨_, rfl⟩)
  | array => exact .inr (.inr ⟨_, rfl⟩)

/-- The layout in memory of arrays whose elements are values of a type. -/
theorem elemLayout {ir : Ir.Program} {elem : TypeExpr} {target : Ir.Ty} {struct : StructId}
    {name : String} (h : Represents p a s elem target)
    (hstruct : ir.structs[struct]? = some ⟨name, arrayFields target⟩) :
    ElemLayout ir struct elem target := by
  cases h <;> refine ⟨rfl, ?_, rfl⟩ <;>
    simp [Ir.Program.fieldOffset, hstruct, arrayFields, Ir.place, Ir.Program.extent, Ir.Ty.extent,
      Ir.alignUp, headerBytes]

/-- The last procedure gets its body. -/
theorem yields_defineWith {procs : List Ir.Proc} {name : String} {ret : Ir.Ty}
    {params : List Ir.Field} (hs : s.ir.Typed)
    (hprocs : s.ir.procs = procs ++ [⟨name, ret, params, [], []⟩]) {body : Ir.Program → Emit Unit}
    {P : Proc → Prop}
    (h : Yields (body s.ir) (.start params ret) fun _ b =>
      (Builder.start params ret).Grows s.ir b ∧ ∀ q : Proc, q.Covers b → P q) :
    Yields (defineWith procs.length body) s fun _ s' => ∃ q : Proc, q.name = name ∧ q.params = params ∧
      q.ret = ret ∧ q.Formed ∧ q.Single ∧ P q ∧ s'.ir.Typed ∧
      s' = { s with ir := { s.ir with procs := procs ++ [q] } } := by
  generalize hdecl : (⟨name, ret, params, [], []⟩ : Ir.Proc) = decl at hprocs
  have hget : s.ir.procs[procs.length]? = some decl := by rw [hprocs]; simp
  obtain ⟨⟨⟩, b, hrun, hgrows, hP⟩ := h
  have hrun : (body s.ir).run (.start decl.params decl.ret) = .ok ((), b) := by rw [← hdecl, ← hrun]
  refine (yields_procDecl (P := fun d s' => d = decl ∧ s' = s) hget ⟨rfl, rfl⟩).bind
    fun d s₁ hd => ?_
  obtain ⟨rfl, rfl⟩ := hd
  refine .get_bind (.lift_bind (ofIr_ok hrun) ?_)
  refine (yields_procDecl (P := fun d' s' => d' = d ∧ s' = s₁) hget ⟨rfl, rfl⟩).bind
    fun d' s₂ hd => ?_
  obtain ⟨rfl, rfl⟩ := hd
  refine yields_modifyIr (setBody_ok hget _ _) ?_
  generalize hq : ({ d' with
    temps := (b.finish ("Missing return statement in " ++ d'.name)).1
    blocks := (b.finish ("Missing return statement in " ++ d'.name)).2 } : Ir.Proc) = q
  have hmade : q.MadeOf s₂.ir b ("Missing return statement in " ++ d'.name) := by
    have hsignature := (hs.procs d' (List.mem_of_getElem? hget)).signature
    subst hq hdecl
    exact madeOf_finish hgrows.sound hsignature hgrows.into.params.symm hgrows.into.ret.symm rfl rfl
  have htyped := (hs.setBody hget (hq ▸ hmade.typed)).2
  rw [hq] at htyped
  refine ⟨q, by rw [← hq, ← hdecl], by rw [← hq, ← hdecl], by rw [← hq, ← hdecl], hmade.formed, hmade.single,
    hP q hmade.covers, hq ▸ htyped, ?_⟩
  rw [hprocs, List.set_append_right _ _ (Nat.le_refl _), Nat.sub_self, ← hq]
  rfl

/-! ## Asking for them -/

/-- **The allocator of a class**, found or made. -/
theorem yields_classAllocator (ha : Supports p printName a) (hs : s.Ready p a) {id : ClassId}
    (hid : id < p.classes.length) : Yields (classAllocator id) s fun proc s' =>
      s.Extends s' ∧ s'.Ready p a ∧ s'.classAllocators.get? id = some proc := by
  refine .get_bind ?_
  cases hget : s.classAllocators.get? id with
  -- It was asked for before: the session is left as it is.
  | some proc => exact .pure ⟨.refl s, hs, hget⟩
  | none =>
    obtain ⟨entries, fields, slots, hlaid⟩ := hs.laid id hid
    obtain ⟨c, hc, hlayout⟩ := hlaid.layout
    obtain ⟨name, hinstance⟩ := hlaid.instance_
    dsimp only
    refine (yields_classLayout (P := fun l s' => l = ⟨c.name, 2 * id, 2 * id + 1, id, entries⟩ ∧
      s' = s) hlayout ⟨rfl, rfl⟩).bind fun l s₁ h => ?_
    obtain ⟨rfl, rfl⟩ := h
    refine yields_declareProc_bind (.modify_bind (.get_bind
      (.lift_bind (ofIr_ok (find_ok hinstance)) ?_)))
    -- The procedure is declared and noted before it gets its body.
    have hlength : fields.length + 1 < 2 ^ 31 := hlaid.fields.length_eq ▸ ha.fields id
    have hret : (Ir.Ty.ptr (.struct (2 * id))).Within s₁.ir :=
      Ir.Ty.within_struct.2 (List.getElem?_eq_some_iff.1 hinstance).1
    have hdeclared := hs.typed.ir.declare ("new_class_" ++ c.name) hret (List.forall_mem_nil _)
    have hsize {procs : List Proc} : ({ s₁.ir with procs := procs } : Ir.Program).sizeOf
        (.struct (2 * id)) = objectBytes p id := sizeOf_object hinstance hlaid.fields
    have hstorable : ∀ f ∈ fields, Storable f.ty := fun f hf => by
      obtain ⟨i, hi⟩ := List.mem_iff_getElem?.1 hf
      obtain ⟨ref, -, hfield⟩ := getElem?_of_forall₂ (R := flip (FieldFor p a s₁))
        hlaid.fields.flip hi
      exact hfield.decl.choose_spec.2.storable
    refine (yields_defineWith hdeclared rfl
      (yields_objectBody hdeclared hinstance rfl
        (hlaid.hasTy_vtable.mono (.addProc s₁.ir _) List.prefix_rfl) hstorable hlength)).bind
        fun _ s' ⟨q, hname, hparams, hret, hformed, hsingle, hcode, htyped, hs'⟩ => .pure ?_
    have hext : s₁.Extends s' := by
      subst hs'
      exact ⟨List.prefix_rfl, rfl, List.prefix_append _ _, rfl, .refl _, .refl _, List.prefix_rfl,
        .refl _, .insert hget _, .refl _⟩
    have hmakes : MakesObject p s' id s₁.ir.procs.length := by
      rw [hsize] at hcode
      subst hs'
      refine ⟨q, fields.map (defaultValue ·.ty), by simp, hparams, hret, hformed, hsingle,
        ?_, hcode, fun c' hc' => by rw [hname, Option.some.inj (hc.symm.trans hc')]⟩
      refine List.forall₂_map_right_iff.2 (hlaid.fields.imp fun ref field hfield => ?_)
      obtain ⟨decl, hdecl, hr⟩ := hfield.decl
      exact ⟨decl, hdecl, hr.default⟩
    have hspare : s'.Spare s₁.ir.procs.length := by
      subst hs'
      exact hs.apart.spare.congr rfl rfl
    -- What is new is one procedure and one note; all else in the session is as before.
    refine ⟨hext, hs.extends_ hext ?_ ?_ ?_ ?_ (fun other proc hproc => ?_) fun ty proc hproc => ?_, ?_⟩
    · subst hs'
      exact hs.typed.mono hext.grows htyped rfl rfl
    · subst hs'
      refine hs.apart.mono (hext.procs.length_le) (fun proc hge hlt => ?_) hext.classAllocators
        hext.arrayAllocators rfl rfl
      rw [List.length_append] at hlt
      obtain rfl := Nat.le_antisymm (Nat.lt_succ_iff.1 hlt) hge
      exact .object (Table.get?_insert_self _ _ _)
    · subst hs'
      rfl
    · subst hs'
      rfl
    · by_cases hother : id = other
      · subst hother
        subst hs'
        rw [Table.get?_insert_self] at hproc
        obtain rfl := Option.some.inj hproc
        exact .inr ⟨hid, hspare, hmakes⟩
      · subst hs'
        rw [Table.get?_insert_of_ne _ _ hother] at hproc
        exact .inl hproc
    · subst hs'
      exact .inl hproc
    · subst hs'
      exact Table.get?_insert_self _ _ _

/-- **The allocator of arrays**, found or made. -/
theorem yields_arrayAllocator (ha : Supports p printName a) (hs : s.Ready p a) {ty : Ty}
    {elem : TypeExpr} (hd : Denotes p a.findings.table ty elem) :
    Yields (arrayAllocator a ty) s fun proc s' =>
      s.Extends s' ∧ s'.Ready p a ∧ s'.arrayAllocators.get? ty = some proc := by
  refine .get_bind ?_
  cases hget : s.arrayAllocators.get? ty with
  | some proc => exact .pure ⟨.refl s, hs, hget⟩
  | none =>
    dsimp only
    -- Struct and type of the elements may be new; what they add stands beside procedures.
    refine (yields_arrayStruct ha.covers.table hs.typed hd).bind fun struct s₁ ⟨h₁, hstruct₁⟩ => ?_
    refine (yields_irTy ha.covers.table h₁.typed hd).bind fun target s₂ ⟨h₂, hr⟩ => ?_
    have hs₂ := (hs.retyped h₁).retyped h₂.toRetyped
    have hstruct := h₂.extends_.arrayStructs _ _ hstruct₁
    obtain ⟨target', name, hr', hdecl⟩ := hs₂.typed.array hstruct hd
    obtain rfl := hr.unique ha.covers.table hr'
    refine yields_declareProc_bind (.modify_bind ?_)
    have hret : (Ir.Ty.ptr (.struct struct)).Within s₂.ir :=
      Ir.Ty.within_struct.2 (List.getElem?_eq_some_iff.1 hdecl).1
    have hparam : ∀ f ∈ [(⟨"size", .int⟩ : Ir.Field)], f.ty.Within s₂.ir :=
      List.forall_mem_singleton.2 Ir.Ty.within_int
    have hdeclared := hs₂.typed.ir.declare ("new_array_" ++ mangle a.findings.table ty) hret hparam
    refine (yields_defineWith hdeclared rfl
      (yields_arrayBody hdeclared hdecl rfl hr.storable (elemLayout hr hdecl))).bind
        fun _ s' ⟨q, hname, hparams, hret, hformed, hsingle, hcode, htyped, hs'⟩ => .pure ?_
    have hget₂ : s₂.arrayAllocators.get? ty = none := by
      rw [h₂.sameAllocators.arrays, h₁.sameAllocators.arrays, hget]
    have hext : s₂.Extends s' := by
      subst hs'
      exact ⟨List.prefix_rfl, rfl, List.prefix_append _ _, rfl, .refl _, .refl _, List.prefix_rfl,
        .refl _, .refl _, .insert hget₂ _⟩
    have hmakes : MakesArray p a s' ty s₂.ir.procs.length := by
      subst hs'
      exact ⟨q, elem, struct, by simp, hd, hstruct, hparams, hret, hformed, hsingle, hcode, hname⟩
    have hspare : s'.Spare s₂.ir.procs.length := by
      subst hs'
      exact hs₂.apart.spare.congr rfl rfl
    -- As for a class: one procedure and one note are new.
    refine ⟨(h₁.extends_.trans h₂.extends_).trans hext,
      hs₂.extends_ hext ?_ ?_ ?_ ?_ (fun id proc hproc => ?_) fun other proc hproc => ?_, ?_⟩
    · subst hs'
      exact hs₂.typed.mono hext.grows htyped rfl rfl
    · subst hs'
      refine hs₂.apart.mono (hext.procs.length_le) (fun proc hge hlt => ?_) hext.classAllocators
        hext.arrayAllocators rfl rfl
      rw [List.length_append] at hlt
      obtain rfl := Nat.le_antisymm (Nat.lt_succ_iff.1 hlt) hge
      exact .array (Table.get?_insert_self _ _ _)
    · subst hs'
      rfl
    · subst hs'
      rfl
    · subst hs'
      exact .inl hproc
    · by_cases hother : ty = other
      · subst hother
        subst hs'
        rw [Table.get?_insert_self] at hproc
        obtain rfl := Option.some.inj hproc
        exact .inr ⟨hspare, hmakes⟩
      · subst hs'
        rw [Table.get?_insert_of_ne _ _ hother] at hproc
        exact .inl hproc
    · subst hs'
      exact Table.get?_insert_self _ _ _

end Ready

end Lowering

end ClassLang
