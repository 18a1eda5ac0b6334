import ClassLang.Proofs.Hierarchy.Orders
import Mathlib.Data.Fintype.Card
/-!
# Hierarchy — subtypes

`ClassTable.reaches` walks up a bounded number of superclasses, so that
superclasses which lead back to each other cannot hang it. The bound cuts off
no class: a shortest way between two classes passes no class twice, so it has
no more steps than there are classes (`length_climb_le`), and the walk finds
what the links of the table reach, with cycles among them or not
(`inheritsFrom_iff_links`). Over the types of which something definite is
known, to fit is the order that these links generate (`subtypes_ordered`).
-/


namespace ClassLang

open Source (Program)

/-- Something definite is known of the type: it is neither `any` nor
`invalid`, nor an array type of `any` elements. -/
def TypeTable.Definite (types : TypeTable) : Ty → Prop
  | .any | .invalid => False
  | .array id => types.elem id ≠ .any
  | _ => True

namespace ClassTable

/-- `b` is what the table has as the superclass of `a`. -/
def Links (t : ClassTable) (a b : ClassId) : Prop := t.superclass a = some b

/-- The class that is `n` superclasses above a class. -/
def above (t : ClassTable) : Nat → ClassId → Option ClassId
  | 0, a => some a
  | n + 1, a => (t.superclass a).bind (t.above n)

variable {t : ClassTable} {a b : ClassId}

/-! ## The classes above a class -/

theorem above_add (m n : Nat) (a : ClassId) :
    t.above (m + n) a = (t.above m a).bind (t.above n) := by
  induction m generalizing a with
  | zero => rw [Nat.zero_add, above, Option.bind_some]
  | succ m ih =>
    rw [Nat.add_right_comm, above, above, Option.bind_assoc]
    exact Option.bind_congr fun s _ => ih s

/-- A class that has a class above it is one of the table. -/
theorem lt_size_of_above {n : Nat} (h : t.above (n + 1) a = some b) : a < t.size := by
  obtain ⟨s, hs, -⟩ := Option.bind_eq_some_iff.1 h
  obtain ⟨info, hinfo, -⟩ := Option.bind_eq_some_iff.1 hs
  obtain ⟨hlt, -⟩ := List.getElem?_eq_some_iff.1 (Option.join_eq_some_iff.1 hinfo)
  exact hlt

theorem links_iff_above : Relation.ReflTransGen t.Links a b ↔ ∃ n, t.above n a = some b := by
  constructor
  · intro h
    induction h using Relation.ReflTransGen.head_induction_on with
    | refl => exact ⟨0, rfl⟩
    | head hstep _ ih =>
      obtain ⟨n, hn⟩ := ih
      exact ⟨n + 1, by rw [above, hstep, Option.bind_some, hn]⟩
  · rintro ⟨n, hn⟩
    induction n generalizing a with
    | zero => exact Option.some.inj hn ▸ .refl
    | succ n ih =>
      obtain ⟨s, hs, hrest⟩ := Option.bind_eq_some_iff.1 hn
      exact .head hs (ih hrest)

theorem reaches_iff_above (b : ClassId) (n : Nat) (a : ClassId) :
    t.reaches b n a = true ↔ ∃ k ≤ n, t.above k a = some b := by
  induction n generalizing a with
  | zero => simp [reaches, above]
  | succ n ih =>
    rw [reaches, Bool.or_eq_true, beq_iff_eq, Option.any_eq_true]
    constructor
    · rintro (rfl | ⟨s, hs, hrest⟩)
      · exact ⟨0, Nat.zero_le _, rfl⟩
      · obtain ⟨k, hk, hb⟩ := (ih s).1 hrest
        exact ⟨k + 1, Nat.succ_le_succ hk, by rw [above, hs, Option.bind_some, hb]⟩
    · rintro ⟨k, hk, hb⟩
      cases k with
      | zero => exact .inl (Option.some.inj hb)
      | succ k =>
        obtain ⟨s, hs, hrest⟩ := Option.bind_eq_some_iff.1 hb
        exact .inr ⟨s, hs, (ih s).2 ⟨k, Nat.le_of_succ_le_succ hk, hrest⟩⟩

/-! ## The bound on the walk -/

/-- Where a way passes a class twice, what lies between can be left out. -/
theorem above_cut {i j n : Nat} (hjn : j ≤ n) (hsame : t.above i a = t.above j a)
    (h : t.above n a = some b) : t.above (i + (n - j)) a = some b := by
  rw [above_add, hsame, ← above_add, Nat.add_sub_cancel' hjn, h]

/-- **The bound cuts off no class**: a shortest way up to a class has no more
steps than there are classes. -/
theorem length_climb_le {n : Nat} (h : t.above n a = some b)
    (hshortest : ∀ k < n, t.above k a ≠ some b) : n ≤ t.size := by
  by_contra hlong
  -- More steps than classes start at classes of the table, so two of them start at the same one.
  have hmaps : ∀ i ∈ Finset.range n, t.above i a ∈ (Finset.range t.size).image some := by
    intro i hi
    have hin := Finset.mem_range.1 hi
    rw [← Nat.add_sub_of_le hin.le, above_add] at h
    obtain ⟨c, hc, hrest⟩ := Option.bind_eq_some_iff.1 h
    obtain ⟨m, hm⟩ := Nat.exists_eq_succ_of_ne_zero (Nat.sub_ne_zero_of_lt hin)
    rw [hm] at hrest
    exact Finset.mem_image.2 ⟨c, Finset.mem_range.2 (lt_size_of_above hrest), hc.symm⟩
  have hcard : ((Finset.range t.size).image some).card < (Finset.range n).card := by
    rw [Finset.card_image_of_injective _ (Option.some_injective _), Finset.card_range,
      Finset.card_range]
    exact Nat.lt_of_not_le hlong
  obtain ⟨i, hi, j, hj, hne, hsame⟩ := Finset.exists_ne_map_eq_of_card_lt_of_maps_to hcard hmaps
  rw [Finset.mem_range] at hi hj
  rcases Nat.lt_or_gt_of_ne hne with hij | hji
  · exact hshortest _ (by omega) (above_cut hj.le hsame h)
  · exact hshortest _ (by omega) (above_cut hi.le hsame.symm h)

/-- **The walk finds what the links reach**, whatever the table holds. -/
theorem inheritsFrom_iff_links :
    t.inheritsFrom a b = true ↔ Relation.ReflTransGen t.Links a b := by
  rw [inheritsFrom, reaches_iff_above, links_iff_above]
  constructor
  · rintro ⟨n, -, hn⟩
    exact ⟨n, hn⟩
  · intro h
    refine ⟨Nat.find h, length_climb_le (Nat.find_spec h) fun k hk => Nat.find_min h hk,
      Nat.find_spec h⟩

/-! ## The links of a program -/

/-- When all classes are resolved the links are those that the program
declares, those of cycles among them. -/
theorem superclass_resolveAll (p : Program) (fallback : Pos) (id : ClassId) :
    ((ofProgram p).resolveAll p fallback).1.superclass id = p.superOf id := by
  have h := learned_resolveEach fallback (List.range p.classes.length)
    (fun _ h => List.mem_range.1 h) (faithful_ofProgram p)
  change (((ofProgram p).resolveAll p fallback).1.info id).bind _ = _
  rcases Nat.lt_or_ge id p.classes.length with hid | hid
  · obtain ⟨info, hinfo⟩ := Option.isSome_iff_exists.1 (h.known id (List.mem_range.2 hid))
    have hinfo' : ((ofProgram p).resolveAll p fallback).1.info id = some info := hinfo
    rw [hinfo', Option.bind_some, h.faithful.superclass id info hinfo]
  · have hnone : ((ofProgram p).resolveAll p fallback).1.info id = none := by
      rw [info, List.getElem?_eq_none (h.faithful.size ▸ hid), Option.join_none]
    rw [hnone, Option.bind_none]
    cases hs : p.superOf id with
    | none => rfl
    | some s => exact absurd (Program.lt_of_superOf hs) (Nat.not_lt.2 hid)

/-- Where no class is above itself, classes that reach each other are one. -/
theorem Links.antisymm (hacyclic : ∀ id, ¬ Relation.TransGen t.Links id id)
    (hab : Relation.ReflTransGen t.Links a b) (hba : Relation.ReflTransGen t.Links b a) : a = b := by
  rcases Relation.reflTransGen_iff_eq_or_transGen.1 hab with heq | hab
  · exact heq.symm
  · exact absurd (hab.trans_left hba) (hacyclic a)

/-! ## Types that fit -/

variable {types : TypeTable} {x y z : Ty}

/-- **What fits**, of types of which something definite is known: a type fits
itself, `null` fits the reference types, and classes fit along the links. -/
theorem fits_iff (hx : types.Definite x) (hy : types.Definite y) :
    t.isSubtype types x y = true ↔ x = y ∨ x = .null ∧ y.isReference = true ∨
      ∃ a b, x = .class_ a ∧ y = .class_ b ∧ Relation.ReflTransGen t.Links a b := by
  cases x <;> cases y <;>
    simp_all [isSubtype, TypeTable.Definite, Ty.isReference, inheritsFrom_iff_links]
  -- A class fits itself in the empty number of steps.
  exact fun h => h ▸ .refl

theorem fits_trans (hx : types.Definite x) (hy : types.Definite y) (hz : types.Definite z)
    (hxy : t.isSubtype types x y = true) (hyz : t.isSubtype types y z = true) :
    t.isSubtype types x z = true := by
  rw [fits_iff hx hy] at hxy
  rw [fits_iff hy hz] at hyz
  rw [fits_iff hx hz]
  rcases hxy with rfl | ⟨rfl, hy'⟩ | ⟨a, b, rfl, rfl, hab⟩
  · exact hyz
  · rcases hyz with rfl | ⟨rfl, hz'⟩ | ⟨b, c, rfl, rfl, -⟩
    · exact .inr (.inl ⟨rfl, hy'⟩)
    · exact .inr (.inl ⟨rfl, hz'⟩)
    · exact .inr (.inl ⟨rfl, rfl⟩)
  · rcases hyz with rfl | ⟨hnull, -⟩ | ⟨b', c, hb, rfl, hbc⟩
    · exact .inr (.inr ⟨a, b, rfl, rfl, hab⟩)
    · cases hnull
    · cases hb
      exact .inr (.inr ⟨a, c, rfl, rfl, hab.trans hbc⟩)

theorem fits_antisymm (hacyclic : ∀ id, ¬ Relation.TransGen t.Links id id) (hx : types.Definite x)
    (hy : types.Definite y) (hxy : t.isSubtype types x y = true)
    (hyx : t.isSubtype types y x = true) : x = y := by
  rw [fits_iff hx hy] at hxy
  rw [fits_iff hy hx] at hyx
  rcases hxy with heq | ⟨rfl, -⟩ | ⟨a, b, rfl, rfl, hab⟩
  · exact heq
  · rcases hyx with heq | ⟨rfl, -⟩ | ⟨_, _, -, hnull, -⟩
    · exact heq.symm
    · rfl
    · cases hnull
  · rcases hyx with heq | ⟨hnull, -⟩ | ⟨_, _, hb, ha, hba⟩
    · exact heq.symm
    · cases hnull
    · cases ha
      cases hb
      rw [Links.antisymm hacyclic hab hba]

theorem array_fits_iff {id : ArrayId} (hid : types.Definite (.array id)) (hx : types.Definite x) :
    t.isSubtype types (.array id) x = true ↔ x = .array id := by
  rw [fits_iff hid hx]
  refine ⟨?_, fun h => .inl h.symm⟩
  rintro (h | ⟨hnull, -⟩ | ⟨_, _, hclass, -⟩)
  · exact h.symm
  · cases hnull
  · cases hclass

theorem fits_array_iff {id : ArrayId} (hid : types.Definite (.array id)) (hx : types.Definite x) :
    t.isSubtype types x (.array id) = true ↔ x = .array id ∨ x = .null := by
  rw [fits_iff hx hid]
  simp [Ty.isReference]

theorem null_fits_iff (hx : x ≠ .any) : t.isSubtype types .null x = true ↔
    x = .null ∨ (∃ id, x = .array id) ∨ ∃ id, x = .class_ id := by
  cases x <;> simp_all [isSubtype]

/-- **To fit is the order of the hierarchy.** When all classes of a program are
resolved, with cycles among them or not, the links of the table are the
superclasses that the program declares, and a class fits another exactly if
the links lead up to that. So the types of which something definite is known
are preordered, and ordered where no class inherits from itself; an array type
is related to no other but `null`, and `null` fits `null`, the array types and
the classes. -/
theorem subtypes_ordered (p : Program) (fallback : Pos) (types : TypeTable) :
    let t := ((ofProgram p).resolveAll p fallback).1
    (∀ a, t.superclass a = p.superOf a) ∧
    (∀ a b, t.isSubtype types (.class_ a) (.class_ b) = true ↔
      Relation.ReflTransGen t.Links a b) ∧
    (∀ x, types.Definite x → t.isSubtype types x x = true) ∧
    (∀ x y z, types.Definite x → types.Definite y → types.Definite z →
      t.isSubtype types x y = true → t.isSubtype types y z = true →
      t.isSubtype types x z = true) ∧
    (p.Acyclic → ∀ x y, types.Definite x → types.Definite y →
      t.isSubtype types x y = true → t.isSubtype types y x = true → x = y) ∧
    (∀ id x, types.Definite (.array id) → types.Definite x →
      (t.isSubtype types (.array id) x = true ↔ x = .array id) ∧
      (t.isSubtype types x (.array id) = true ↔ x = .array id ∨ x = .null)) ∧
    (∀ x, x ≠ .any → (t.isSubtype types .null x = true ↔
      x = .null ∨ (∃ id, x = .array id) ∨ ∃ id, x = .class_ id)) ∧
    ∀ a b, ¬ Relation.ReflTransGen t.Links a b → ¬ Relation.ReflTransGen t.Links b a →
      t.isSubtype types (.class_ a) (.class_ b) = false ∧
      t.isSubtype types (.class_ b) (.class_ a) = false := by
  intro t
  have hlinks : t.Links = p.Extends := by
    funext a b
    rw [Links, superclass_resolveAll, Program.Extends]
  have hclasses (a b : ClassId) : t.isSubtype types (.class_ a) (.class_ b) = true ↔
      Relation.ReflTransGen t.Links a b := inheritsFrom_iff_links
  refine ⟨superclass_resolveAll p fallback, hclasses, fun x hx => (fits_iff hx hx).2 (.inl rfl),
    fun x y z => fits_trans, fun hacyclic x y => fits_antisymm (hlinks ▸ hacyclic),
    fun id x hid hx => ⟨array_fits_iff hid hx, fits_array_iff hid hx⟩, fun x => null_fits_iff,
    fun a b hab hba => ⟨?_, ?_⟩⟩
  · exact Bool.eq_false_iff.2 fun h => hab ((hclasses a b).1 h)
  · exact Bool.eq_false_iff.2 fun h => hba ((hclasses b a).1 h)

end ClassTable

end ClassLang
