import ClassLang.Proofs.Hierarchy.Description
import ClassLang.Proofs.Hierarchy.Orders
/-!
# Hierarchy — members that are there

Whatever the hierarchy looks like, with cycles or superclasses that are not
there, every member that a class sees is one that some class declares
(`declared_resolveAll`), what is known of a class is kept under its own index
(`indexed_resolveAll`), and no field is visible twice (`keyed_resolveAll`). All
three are so because flattening a class keeps them (`every_resolveAll`).
-/


namespace ClassLang

open Source (ClassDecl Program)

namespace Table

variable {κ ν : Type} [DecidableEq κ] {t : Table κ ν}

/-- What is found in a table is an entry. -/
theorem mem_of_get? {key : κ} {value : ν} (h : t.get? key = some value) : (key, value) ∈ t := by
  induction t with
  | nil => cases h
  | cons entry rest ih =>
    rw [get?] at h
    split at h
    next heq =>
      obtain rfl := Option.some.inj h
      exact heq ▸ List.mem_cons_self
    next => exact List.mem_cons_of_mem _ (ih h)

/-- An entry of a table with one more key is an old one or the new one. -/
theorem mem_insert {key : κ} {value : ν} {entry : κ × ν} (h : entry ∈ t.insert key value) :
    entry ∈ t ∨ entry = (key, value) := by
  induction t with
  | nil => exact .inr (by simpa [insert] using h)
  | cons first rest ih =>
    rw [insert] at h
    split at h
    · rcases List.mem_cons.1 h with rfl | hmem
      · exact .inr rfl
      · exact .inl (List.mem_cons_of_mem _ hmem)
    · rcases List.mem_cons.1 h with rfl | hmem
      · exact .inl List.mem_cons_self
      · exact (ih hmem).imp_left (List.mem_cons_of_mem _)

end Table

/-- A member of a class is inherited or one of its own. -/
theorem mem_declareMembers {id : ClassId} {names : List String}
    {inherited : Table String MemberRef} {entry : String × MemberRef}
    (h : entry ∈ declareMembers id names inherited) :
    entry ∈ inherited ∨ ∃ index < names.length, entry.2 = ⟨id, index⟩ := by
  have hfold (own : List (String × Nat)) (hown : ∀ m ∈ own, m.2 < names.length)
      (before : Table String MemberRef) (h : entry ∈ own.foldl
        (fun members m => members.insert m.1 ⟨id, m.2⟩) before) :
      entry ∈ before ∨ ∃ index < names.length, entry.2 = ⟨id, index⟩ := by
    induction own generalizing before with
    | nil => exact .inl h
    | cons m rest ih =>
      rw [List.forall_mem_cons] at hown
      rcases ih hown.2 _ h with hmem | hown'
      · exact (Table.mem_insert hmem).imp_right fun heq => ⟨m.2, hown.1, by rw [heq]⟩
      · exact .inr hown'
  refine hfold _ (fun m hm => ?_) inherited h
  have := List.snd_lt_of_mem_zipIdx hm
  omega

/-- The members of a class are declared somewhere. -/
structure ClassInfo.Declared (p : Program) (info : ClassInfo) : Prop where
  fields : ∀ entry ∈ info.fields, (fieldDecl? p entry.2).isSome
  methods : ∀ entry ∈ info.methods, (methodDecl? p entry.2).isSome

variable {p : Program}

/-- A class declares its own members, so only inherited ones are in
question. -/
theorem ClassInfo.Declared.flatten {id : ClassId} {c : ClassDecl} (hc : p.classes[id]? = some c)
    (superclass : Option ClassId) {inherited : Option ClassInfo}
    (h : ∀ info, inherited = some info → info.Declared p) :
    (flatten id c superclass inherited).Declared p := by
  constructor
  · intro entry hentry
    rcases mem_declareMembers hentry with hmem | ⟨index, hlt, heq⟩
    · cases hinh : inherited with
      | none => simp [hinh] at hmem
      | some info => exact (h info hinh).fields entry (by simpa [hinh] using hmem)
    · rw [List.length_map] at hlt
      simp [heq, fieldDecl?, hc, hlt]
  · intro entry hentry
    rcases mem_declareMembers hentry with hmem | ⟨index, hlt, heq⟩
    · cases hinh : inherited with
      | none => simp [hinh] at hmem
      | some info => exact (h info hinh).methods entry (by simpa [hinh] using hmem)
    · rw [List.length_map] at hlt
      simp [heq, methodDecl?, hc, hlt]

namespace ClassTable

/-- What is known of the classes, each with its index, is all like this. -/
def Every (P : ClassId → ClassInfo → Prop) (t : ClassTable) : Prop :=
  ∀ id info, t.info id = some info → P id info

variable {t : ClassTable} {id : ClassId} {info : ClassInfo} {P : ClassId → ClassInfo → Prop}

theorem Every.set (ht : t.Every P) (hinfo : P id info) :
    (ClassTable.mk t.names (t.infos.set id (some info))).Every P := by
  intro j i hj
  by_cases hid : id < t.infos.length
  · rw [info_set t hid] at hj
    split at hj
    next heq =>
      obtain rfl := Option.some.inj hj
      exact heq ▸ hinfo
    next => exact ht j i hj
  · rw [List.set_eq_of_length_le (Nat.le_of_not_lt hid)] at hj
    exact ht j i hj

/-- **A climb learns what flattening gives**, also where it meets a cycle. -/
theorem every_climb (fallback : Pos)
    (hflat : ∀ id c superclass inherited, p.classes[id]? = some c →
      (∀ info, inherited = some info → ∃ s, P s info) → P id (flatten id c superclass inherited))
    (chain : List ClassId) (id : ClassId) (t : ClassTable) (ht : t.Every P) :
    (t.climb p fallback chain id).table.Every P ∧
      ∀ info, (t.climb p fallback chain id).info = some info → P id info := by
  have hroot (id : ClassId) (c : ClassDecl) (hc : p.classes[id]? = some c) :
      P id (flatten id c none none) := hflat id c none none hc fun _ h => by cases h
  fun_induction ClassTable.climb p fallback chain id t with
  | case1 chain id info hinfo => exact ⟨ht, fun i hi => Option.some.inj hi ▸ ht id info hinfo⟩
  | case2 => exact ⟨ht, fun _ h => by cases h⟩
  | case3 chain id hinfo c hc => exact ⟨ht, fun i hi => Option.some.inj hi ▸ hroot id c hc⟩
  | case4 chain id hinfo c hc hmem found name s hfound above info hany ih =>
    exact ⟨ih.1, fun i hi => Option.some.inj hi ▸ hflat id c s above.info hc fun i h => ⟨s, ih.2 i h⟩⟩
  | case5 chain id hinfo c hc pos hmem found name s hfound above info hany inherited ih =>
    have hinfo : P id info := hflat id c s above.info hc fun i h => ⟨s, ih.2 i h⟩
    exact ⟨ih.1.set hinfo, fun i hi => Option.some.inj hi ▸ hinfo⟩
  | case6 chain id hinfo c hc =>
    exact ⟨ht.set (hroot id c hc), fun i hi => Option.some.inj hi ▸ hroot id c hc⟩

theorem every_resolveAll (p : Program) (fallback : Pos)
    (hflat : ∀ id c superclass inherited, p.classes[id]? = some c →
      (∀ info, inherited = some info → ∃ s, P s info) → P id (flatten id c superclass inherited)) :
    ((ofProgram p).resolveAll p fallback).1.Every P := by
  have heach (ids : List ClassId) (t : ClassTable) (ht : t.Every P) :
      (t.resolveEach p fallback ids).1.Every P := by
    induction ids generalizing t with
    | nil => exact ht
    | cons id rest ih => exact ih _ (every_climb fallback hflat [] id t ht).1
  exact heach _ _ fun id info h => by simp [info_ofProgram] at h

/-- The members of all classes that are known are declared somewhere. -/
def Declared (p : Program) (t : ClassTable) : Prop :=
  ∀ id info, t.info id = some info → info.Declared p

/-- **Every member that a class sees is declared**, whatever the hierarchy. -/
theorem declared_resolveAll (p : Program) (fallback : Pos) :
    ((ofProgram p).resolveAll p fallback).1.Declared p :=
  every_resolveAll p fallback fun _ _ superclass _ hc hinherited =>
    .flatten hc superclass fun info h => (hinherited info h).elim fun _ hdeclared => hdeclared

/-- What is known of the classes in the end is what their declarations say. -/
theorem faithful_resolveAll (p : Program) (fallback : Pos) :
    ((ofProgram p).resolveAll p fallback).1.Faithful p :=
  (learned_resolveEach fallback _ (fun _ h => List.mem_range.1 h) (faithful_ofProgram p)).faithful

/-- What is known of a class tells which class that is. -/
def Indexed (t : ClassTable) : Prop := ∀ id info, t.info id = some info → info.id = id

/-- **What is known of a class is kept under its own index.** -/
theorem indexed_resolveAll (p : Program) (fallback : Pos) :
    ((ofProgram p).resolveAll p fallback).1.Indexed :=
  every_resolveAll p fallback fun _ _ _ _ _ _ => rfl

/-- **No field is visible twice** in a class. -/
theorem keyed_resolveAll (p : Program) (fallback : Pos) :
    ((ofProgram p).resolveAll p fallback).1.Every fun _ info => (info.fields.map (·.1)).Nodup := by
  refine every_resolveAll p fallback fun id c superclass inherited _ hinherited =>
    nodup_keys_declareMembers id _ ?_
  cases inherited with
  | none => exact List.nodup_nil
  | some info => exact (hinherited info rfl).elim fun _ h => h

end ClassTable

end ClassLang
