import ClassLang.Proofs.Hierarchy.Climbs
/-!
# Hierarchy — resolution in any order

Classes may be resolved in any order, any number of times, before all of
them are. Each call makes its class known and changes nothing that was known
(`Learns`), so a whole sequence does what its calls do (`learned_resolveEach`).
In the end every class sees the nearest declaration of every name
(`members_of_resolveAll`), and every fault was reported once
(`reported_once`): without cycles, the order of the calls shows in nothing but
the order of the reports.
-/


namespace ClassLang

open Source (ClassDecl FunctionDecl VarDecl Program)

namespace ClassTable

variable (p : Program) (fallback : Pos)

/-- What a sequence of calls does to a table: the classes stay known, and
what is reported is reported for the classes that become known. -/
structure Learned (t t' : ClassTable) (ids : List ClassId) (errors : List TypeError) : Prop where
  faithful : t'.Faithful p
  mono : ∀ j i, t.info j = some i → t'.info j = some i
  known : ∀ id ∈ ids, (t'.info id).isSome
  tally : ∃ new closing, Tally p fallback t t' new closing errors ∧
    ∀ before, Closes p t before → Closes p t' (before ++ closing)

/-- What is reported when classes are resolved one after the other, and then
all of them. -/
def reported (ids : List ClassId) : List TypeError :=
  let first := (ofProgram p).resolveEach p fallback ids
  first.2 ++ (first.1.resolveAll p fallback).2

variable {p fallback} {t : ClassTable} {id : ClassId}

/-! ## Sequences of calls -/

theorem info_ofProgram (p : Program) (id : ClassId) : (ofProgram p).info id = none := by
  rw [ofProgram, ClassTable.info, List.getElem?_map]
  cases p.classes[id]? <;> rfl

/-- Before any call nothing is known. -/
theorem faithful_ofProgram (p : Program) : (ofProgram p).Faithful p := by
  refine ⟨rfl, by simp [ofProgram], ?_, ?_, ?_⟩
  all_goals
    intro id info h
    rw [info_ofProgram] at h
    cases h

theorem closes_ofProgram (p : Program) : Closes p (ofProgram p) [] :=
  ⟨by simp, by simp, by simp, .nil, fun id _ h => by simp [info_ofProgram] at h⟩

theorem Learned.trans {t' t'' : ClassTable} {ids ids' : List ClassId} {errors errors' : List TypeError}
    (h : Learned p fallback t t' ids errors) (h' : Learned p fallback t' t'' ids' errors') :
    Learned p fallback t t'' (ids ++ ids') (errors ++ errors') := by
  obtain ⟨new, closing, htally, hcloses⟩ := h.tally
  obtain ⟨new', closing', htally', hcloses'⟩ := h'.tally
  refine ⟨h'.faithful, fun j i hj => h'.mono j i (h.mono j i hj), fun j hj => ?_,
    new ++ new', closing ++ closing', htally.trans htally', fun before hbefore => ?_⟩
  · rcases List.mem_append.1 hj with hj | hj
    · obtain ⟨i, hi⟩ := Option.isSome_iff_exists.1 (h.known j hj)
      exact Option.isSome_iff_exists.2 ⟨i, h'.mono j i hi⟩
    · exact h'.known j hj
  · rw [← List.append_assoc]
    exact hcloses' _ (hcloses before hbefore)

variable (fallback) in
/-- **A call makes its class known.** -/
theorem learns_resolve (hid : id < p.classes.length) (ht : t.Faithful p) :
    Learns p fallback t [] id (t.resolve p fallback id) := by
  rcases climb_cases p fallback [] id t hid ht (.singleton id) (by simp) with h | ⟨start, h⟩
  · exact h
  · -- No class stands on the empty chain, so nothing is left to unwind.
    cases h.mem

variable (fallback) in
/-- **A sequence of calls does what its calls do.** -/
theorem learned_resolveEach (ids : List ClassId) (hids : ∀ id ∈ ids, id < p.classes.length)
    (ht : t.Faithful p) :
    Learned p fallback t (t.resolveEach p fallback ids).1 ids (t.resolveEach p fallback ids).2 := by
  induction ids generalizing t with
  | nil => exact ⟨ht, fun _ _ h => h, by simp, [], [], .refl t, by simp [resolveEach]⟩
  | cons id rest ih =>
    rw [List.forall_mem_cons] at hids
    have hfirst := learns_resolve fallback hids.1 ht
    have hcall : Learned p fallback t (t.resolve p fallback id).table [id]
        (t.resolve p fallback id).errors :=
      ⟨hfirst.faithful, hfirst.mono, by simpa using hfirst.known, hfirst.tally⟩
    exact hcall.trans (ih hids.2 hfirst.faithful)

/-- Some calls, and then one for each class. -/
theorem learned_reported (p : Program) (fallback : Pos) (ids : List ClassId)
    (hids : ∀ id ∈ ids, id < p.classes.length) :
    Learned p fallback (ofProgram p)
      (((ofProgram p).resolveEach p fallback ids).1.resolveAll p fallback).1
      (ids ++ List.range p.classes.length) (reported p fallback ids) := by
  have hfirst := learned_resolveEach fallback ids hids (faithful_ofProgram p)
  exact hfirst.trans
    (learned_resolveEach fallback _ (fun _ h => List.mem_range.1 h) hfirst.faithful)

/-- In the end the classes that have become known are all classes. -/
theorem perm_of_learned {t' : ClassTable} {ids new closing : List ClassId} {errors : List TypeError}
    (h : Learned p fallback (ofProgram p) t' (ids ++ List.range p.classes.length) errors)
    (htally : Tally p fallback (ofProgram p) t' new closing errors) :
    new.Perm (List.range p.classes.length) := by
  refine (List.perm_ext_iff_of_nodup htally.nodup List.nodup_range).2 fun id => ?_
  have hknown : (t'.info id).isSome ↔ id ∈ new := by simp [htally.known, info_ofProgram]
  rw [← hknown, List.mem_range]
  refine ⟨fun hsome => ?_, fun hlt => h.known id (by simp [hlt])⟩
  rw [← h.faithful.size]
  by_contra hge
  simp [ClassTable.info, List.getElem?_eq_none (Nat.le_of_not_lt hge)] at hsome

/-! ## What is known in the end -/

/-- **Every class sees the nearest declarations**, whatever was resolved
before all classes were: of every name the last declaration in the first class
that declares it, on the way from the class up to its superclasses. -/
theorem members_of_resolveAll (p : Program) (fallback : Pos) (ids : List ClassId)
    (hids : ∀ id ∈ ids, id < p.classes.length) :
    ∀ id < p.classes.length, ∃ info,
      (((ofProgram p).resolveEach p fallback ids).1.resolveAll p fallback).1.info id = some info ∧
        (∀ name, info.field? name = p.nearest? (·.fields.map (·.name)) id name) ∧
        ∀ name, info.method? name = p.nearest? (·.methods.map (·.name)) id name := by
  intro id hid
  have h := learned_reported p fallback ids hids
  obtain ⟨info, hinfo⟩ := Option.isSome_iff_exists.1 (h.known id (by simp [hid]))
  refine ⟨info, hinfo, fun name => Option.ext fun ref => ?_, fun name => Option.ext fun ref => ?_⟩
  · exact (h.faithful.fields id info hinfo name ref).trans Program.nearest?_eq_some_iff.symm
  · exact (h.faithful.methods id info hinfo name ref).trans Program.nearest?_eq_some_iff.symm

/-- Classes above a cycle, on one, and below a superclass that is not there:
`D` is below the cycle of `A` and `B`, which both declare `x`. -/
def tangled : Program :=
  ⟨[], [⟨0, "D", some "A", [], [], none⟩, ⟨1, "A", some "B", [⟨5, .int, "x", none⟩], [], none⟩,
    ⟨2, "B", some "A", [⟨6, .int, "x", none⟩, ⟨7, .bool, "y", none⟩], [], none⟩,
    ⟨3, "E", some "Missing", [], [], none⟩, ⟨4, "F", some "F", [], [], none⟩], none⟩

theorem members_of_tangled : (∀ id ∈ [2, 0, 2], id < tangled.classes.length) ∧
    ∀ id < tangled.classes.length, ∃ info,
      (((ofProgram tangled).resolveEach tangled ⟨1, 1⟩ [2, 0, 2]).1.resolveAll tangled
        ⟨1, 1⟩).1.info id = some info ∧
        (∀ name, info.field? name = tangled.nearest? (·.fields.map (·.name)) id name) ∧
        ∀ name, info.method? name = tangled.nearest? (·.methods.map (·.name)) id name :=
  ⟨by decide, members_of_resolveAll tangled ⟨1, 1⟩ [2, 0, 2] (by decide)⟩

/-! ## What is reported in the end -/

variable (fallback) in
/-- Without cycles, what is reported is what is wrong with each class. -/
theorem reported_perm (hacyclic : p.Acyclic) (ids : List ClassId)
    (hids : ∀ id ∈ ids, id < p.classes.length) :
    (reported p fallback ids).Perm
      ((List.range p.classes.length).flatMap (p.classErrors fallback)) := by
  have h := learned_reported p fallback ids hids
  obtain ⟨new, closing, htally, -⟩ := h.tally
  rw [htally.all hacyclic]
  exact (perm_of_learned h htally).flatMap_right _

theorem filter_classErrors (p : Program) (fallback : Pos) (id : ClassId) :
    (p.classErrors fallback id).filter (·.isOverride) = p.overrideConflicts fallback id := by
  have hsuperclass : (p.superclassError? fallback id).toList.filter (·.isOverride) = [] := by
    refine List.filter_eq_nil_iff.2 fun e he => ?_
    obtain ⟨d, -, hd⟩ := Option.bind_eq_some_iff.1 (Option.mem_toList.1 he)
    obtain ⟨name, -, rfl⟩ := Option.map_eq_some_iff.1 hd
    simp [TypeError.isOverride]
  have hconflicts : (p.overrideConflicts fallback id).filter (·.isOverride) =
      p.overrideConflicts fallback id := by
    refine List.filter_eq_self.2 fun e he => ?_
    rw [Program.overrideConflicts] at he
    cases hc : p.classes[id]? with
    | none => simp [hc] at he
    | some c =>
      rw [hc, Option.map_some, Option.getD_some, List.mem_filterMap] at he
      obtain ⟨m, -, hm⟩ := he
      split at hm
      · obtain ⟨ref, -, hconflict⟩ := Option.bind_eq_some_iff.1 hm
        obtain ⟨previous, -, hprevious⟩ := Option.bind_eq_some_iff.1 hconflict
        split at hprevious
        · cases hprevious
        · rw [← Option.some.inj hprevious]
          rfl
      · cases hm
  rw [Program.classErrors, List.filter_append, hsuperclass, hconflicts, List.nil_append]

/-- **Every call makes its class known, nothing that is known changes, and every
fault is reported once**: a cycle at one of its classes, a superclass that is
not there at the class that names it and, without cycles, an override of
another signature at the first method of the name in its class. Without cycles
the order of the calls does not matter for what is reported. -/
theorem reported_once (p : Program) (fallback : Pos) (ids : List ClassId)
    (hids : ∀ id ∈ ids, id < p.classes.length) :
    (∀ before id after, ids ++ List.range p.classes.length = before ++ id :: after →
      let t := ((ofProgram p).resolveEach p fallback before).1
      let r := t.resolve p fallback id
      (∃ info, r.info = some info ∧ r.table.info id = some info) ∧
        ∀ j info, t.info j = some info → r.table.info j = some info) ∧
    (∃ closing : List ClassId, closing.Nodup ∧
      (reported p fallback ids).filter (·.isCycle) = closing.filterMap (p.cycleError? fallback) ∧
      (∀ r ∈ closing, Relation.TransGen p.Extends r r) ∧
      ∀ id, Relation.TransGen p.Extends id id → ∃! r, r ∈ closing ∧ p.Inherits id r) ∧
    ((reported p fallback ids).filter (·.isUnknownSuperclass)).Perm
      ((List.range p.classes.length).filterMap (p.superclassError? fallback)) ∧
    (p.Acyclic →
      ((reported p fallback ids).filter (·.isOverride)).Perm
        ((List.range p.classes.length).flatMap (p.overrideConflicts fallback)) ∧
      ∀ ids' : List ClassId, (∀ id ∈ ids', id < p.classes.length) →
        (reported p fallback ids).Perm (reported p fallback ids')) := by
  have h := learned_reported p fallback ids hids
  obtain ⟨new, closing, htally, hcloses⟩ := h.tally
  have hclosing := hcloses [] (closes_ofProgram p)
  rw [List.nil_append] at hclosing
  refine ⟨fun before id after heq => ?_, ⟨closing, hclosing.nodup, htally.cycles, hclosing.cycle,
    fun id hcycle => ?_⟩, ?_, fun hacyclic => ⟨?_, fun ids' hids' => ?_⟩⟩
  · have hall : ∀ j ∈ before ++ id :: after, j < p.classes.length := fun j hj => by
      rcases List.mem_append.1 (heq ▸ hj) with hj | hj
      · exact hids j hj
      · exact List.mem_range.1 hj
    have hbefore := learned_resolveEach fallback before (fun j hj => hall j (by simp [hj]))
      (faithful_ofProgram p)
    -- A call knows its class behind it and forgets nothing, whatever was called before.
    have hcall := learns_resolve fallback (hall id (by simp)) hbefore.faithful
    obtain ⟨info, hinfo⟩ := Option.isSome_iff_exists.1 hcall.known
    exact ⟨⟨info, hcall.info.trans hinfo, hinfo⟩, hcall.mono⟩
  · -- The class of the cycle that was reported is the only one that was closed at.
    obtain ⟨next, hstep, -⟩ := Relation.TransGen.head'_iff.1 hcycle
    have hknown := h.known id (by simp [Program.lt_of_superOf hstep])
    obtain ⟨r, hr, hup⟩ := hclosing.covers id id hknown .refl hcycle
    refine ⟨r, ⟨hr, hup⟩, fun r' ⟨hr', hup'⟩ => ?_⟩
    exact hclosing.single r' hr' r hr ((Program.inherits_back hcycle hup').1.trans hup)
  · rw [htally.superclasses]
    exact (perm_of_learned h htally).filterMap _
  · have hperm := (reported_perm fallback hacyclic ids hids).filter (·.isOverride)
    rwa [List.filter_flatMap, funext (filter_classErrors p fallback)] at hperm
  · exact (reported_perm fallback hacyclic ids hids).trans
      (reported_perm fallback hacyclic ids' hids').symm

theorem reported_once_tangled : (∀ id ∈ [2, 0, 2], id < tangled.classes.length) ∧
    (∀ before id after, [2, 0, 2] ++ List.range tangled.classes.length = before ++ id :: after →
      let t := ((ofProgram tangled).resolveEach tangled ⟨1, 1⟩ before).1
      let r := t.resolve tangled ⟨1, 1⟩ id
      (∃ info, r.info = some info ∧ r.table.info id = some info) ∧
        ∀ j info, t.info j = some info → r.table.info j = some info) ∧
    (∃ closing : List ClassId, closing.Nodup ∧
      (reported tangled ⟨1, 1⟩ [2, 0, 2]).filter (·.isCycle) =
        closing.filterMap (tangled.cycleError? ⟨1, 1⟩) ∧
      (∀ r ∈ closing, Relation.TransGen tangled.Extends r r) ∧
      ∀ id, Relation.TransGen tangled.Extends id id →
        ∃! r, r ∈ closing ∧ tangled.Inherits id r) ∧
    ((reported tangled ⟨1, 1⟩ [2, 0, 2]).filter (·.isUnknownSuperclass)).Perm
      ((List.range tangled.classes.length).filterMap (tangled.superclassError? ⟨1, 1⟩)) ∧
    (tangled.Acyclic →
      ((reported tangled ⟨1, 1⟩ [2, 0, 2]).filter (·.isOverride)).Perm
        ((List.range tangled.classes.length).flatMap (tangled.overrideConflicts ⟨1, 1⟩)) ∧
      ∀ ids' : List ClassId, (∀ id ∈ ids', id < tangled.classes.length) →
        (reported tangled ⟨1, 1⟩ [2, 0, 2]).Perm (reported tangled ⟨1, 1⟩ ids')) :=
  ⟨by decide, reported_once tangled ⟨1, 1⟩ [2, 0, 2] (by decide)⟩

end ClassTable

end ClassLang
