import ClassLang.Proofs.Hierarchy.Lineage
/-!
# Hierarchy — resolution without errors

`Program.SoundHierarchy` says what the declarations of classes have to
satisfy, without resolving anything: superclasses exist, no class is above
itself, and an overriding method has the signature of the method that it
overrides. `resolveAll_errors_eq_nil_iff` says that resolution reports
nothing exactly then, and `info_of_resolveAll` that it then knows of every
class its superclass and the nearest declaration of every name.
-/


namespace ClassLang

open Source (ClassDecl FunctionDecl Program)

/-- The declarations of the classes of a program fit together. -/
structure Source.Program.SoundHierarchy (p : Program) : Prop where
  /-- A superclass that is named is there. -/
  superclasses : ∀ c ∈ p.classes, ∀ name, c.extends? = some name → (p.classId? name).isSome
  /-- No class is above itself. -/
  acyclic : p.Acyclic
  /-- A method has the return type and the parameter types, as written, of
  the nearest inherited method of its name. -/
  overrides : ∀ id c s, p.classes[id]? = some c → p.superOf id = some s →
    ∀ m ∈ c.methods, ∀ ref, p.methodRef? s m.name = some ref →
      ∀ inherited, methodDecl? p ref = some inherited → sameSignature inherited m

/-! ## Members -/

theorem get?_foldl_insert (id : ClassId) (members : List (String × Nat))
    (hnodup : (members.map (·.1)).Nodup) (t : Table String MemberRef) (name : String) :
    (members.foldl (fun t (n, index) => t.insert n (⟨id, index⟩ : MemberRef)) t).get? name =
      ((members.find? (·.1 == name)).map fun m => (⟨id, m.2⟩ : MemberRef)).or (t.get? name) := by
  induction members generalizing t with
  | nil => simp
  | cons m rest ih =>
    obtain ⟨n, index⟩ := m
    rw [List.map_cons, List.nodup_cons] at hnodup
    rw [List.foldl_cons, ih hnodup.2, List.find?_cons]
    by_cases h : n = name
    · subst h
      have hrest : rest.find? (·.1 == n) = none := by
        refine List.find?_eq_none.2 fun m hm => ?_
        have : m.1 ≠ n := fun heq => hnodup.1 (List.mem_map.2 ⟨m, hm, heq⟩)
        simpa using this
      simp [hrest]
    · have hne : (n == name) = false := by simpa using h
      simp only [hne, Table.get?_insert_of_ne _ _ h]

theorem find?_zipIdx (names : List String) (k : Nat) (name : String) :
    (names.zipIdx k).find? (·.1 == name) = (names.idxOf? name).map fun i => (name, k + i) := by
  induction names generalizing k with
  | nil => simp
  | cons n rest ih =>
    rw [List.zipIdx_cons, List.find?_cons, List.idxOf?_cons, ih]
    by_cases h : n = name
    · simp [h]
    · have hne : (n == name) = false := by simpa using h
      simp only [hne]
      cases rest.idxOf? name with
      | none => rfl
      | some i => simp; omega

/-- Where names do not repeat, a class sees its own member of a name or
else the inherited one. -/
theorem get?_declareMembers {names : List String} (hnodup : names.Nodup) (id : ClassId)
    (inherited : Table String MemberRef) (name : String) :
    (declareMembers id names inherited).get? name =
      ((names.idxOf? name).map (⟨id, ·⟩)).or (inherited.get? name) := by
  have hmap : (names.zipIdx.map (·.1)).Nodup := by simpa using hnodup
  rw [declareMembers, get?_foldl_insert id _ hmap, find?_zipIdx]
  cases names.idxOf? name <;> simp

/-- Where names do not repeat, overriding leaves no errors exactly if every
method has the signature of the method of another class that it
overrides. -/
theorem overrideErrors_eq_nil_iff (p : Program) (id : ClassId) (pos : Pos)
    (members : List (FunctionDecl × Nat)) (hnodup : (members.map (·.1.name)).Nodup)
    (methods : Table String MemberRef) :
    overrideErrors p id pos methods members = [] ↔
      ∀ m ∈ members, ∀ ref, methods.get? m.1.name = some ref → ref.class_ ≠ id →
        ∀ inherited, methodDecl? p ref = some inherited → sameSignature inherited m.1 := by
  induction members generalizing methods with
  | nil => simp [overrideErrors]
  | cons member rest ih =>
    obtain ⟨m, index⟩ := member
    rw [List.map_cons, List.nodup_cons] at hnodup
    rw [overrideErrors, List.append_eq_nil_iff, ih hnodup.2, List.forall_mem_cons]
    refine and_congr ?_ (forall₂_congr fun n hn => ?_)
    · cases methods.get? m.name with
      | none => simp
      | some ref =>
        by_cases href : ref.class_ = id
        · simp [Option.filter, href]
        · cases hdecl : methodDecl? p ref with
          | none => simp [Option.filter, href, hdecl]
          | some inherited => simp [Option.filter, href, hdecl]
    · have hne : m.name ≠ n.1.name := fun heq =>
        hnodup.1 (List.mem_map.2 ⟨n, hn, heq.symm⟩)
      rw [Table.get?_insert_of_ne _ _ hne]

/-- Nothing is overridden where there are no methods but those of the class
itself. -/
theorem overrideErrors_of_own (p : Program) (id : ClassId) (pos : Pos)
    (members : List (FunctionDecl × Nat)) (methods : Table String MemberRef)
    (hown : ∀ name ref, methods.get? name = some ref → ref.class_ = id) :
    overrideErrors p id pos methods members = [] := by
  induction members generalizing methods with
  | nil => rfl
  | cons member rest ih =>
    obtain ⟨m, index⟩ := member
    have hnone : (methods.get? m.name).filter (·.class_ ≠ id) = none := by
      cases href : methods.get? m.name with
      | none => rfl
      | some ref => simp [Option.filter, hown m.name ref href]
    rw [overrideErrors, hnone, List.nil_append]
    refine ih _ fun name ref href => ?_
    by_cases h : m.name = name
    · rw [h, Table.get?_insert_self] at href
      cases href
      rfl
    · exact hown name ref (by rwa [Table.get?_insert_of_ne _ _ h] at href)

/-! ## Tables without errors -/

namespace ClassTable

variable (p : Program)

/-- What is known of the superclass of a class. -/
def inheritedInfo (t : ClassTable) (id : ClassId) : Option ClassInfo :=
  (p.superOf id).bind t.info

/-- What is known of a class was computed without errors. -/
structure Entry (t : ClassTable) (id : ClassId) (info : ClassInfo) : Prop where
  founded : Acc (fun b a => p.Extends a b) id
  above : ∀ s, p.superOf id = some s → (t.info s).isSome
  decl : ∃ c, p.classes[id]? = some c ∧ (∀ name, c.extends? = some name → (p.superOf id).isSome) ∧
    info = flatten id c (p.superOf id) (t.inheritedInfo p id) ∧
    ∃ pos, overrideErrors p id pos (((t.inheritedInfo p id).map (·.methods)).getD [])
      c.methods.zipIdx = []

/-- All that a table knows was computed without errors. -/
structure Settled (t : ClassTable) : Prop where
  names : t.names = p.classes.map (·.name)
  size : t.infos.length = p.classes.length
  entry : ∀ id info, t.info id = some info → t.Entry p id info

variable {p} {t t' : ClassTable} {id : ClassId} {info : ClassInfo}

theorem Settled.lookup (ht : t.Settled p) (name : String) : t.lookup name = p.classId? name := by
  rw [ClassTable.lookup, ht.names, Program.classId?]

/-- What is known of a class stays right when more becomes known. -/
theorem Entry.mono (h : t.Entry p id info)
    (hle : ∀ j i, t.info j = some i → t'.info j = some i) : t'.Entry p id info := by
  have hinherited : t'.inheritedInfo p id = t.inheritedInfo p id := by
    unfold inheritedInfo
    cases hs : p.superOf id with
    | none => rfl
    | some s =>
      obtain ⟨i, hi⟩ := Option.isSome_iff_exists.1 (h.above s hs)
      simp [hi, hle s i hi]
  refine ⟨h.founded, fun s hs => ?_, ?_⟩
  · obtain ⟨i, hi⟩ := Option.isSome_iff_exists.1 (h.above s hs)
    simp [hle s i hi]
  · rw [hinherited]
    exact h.decl

theorem info_set (t : ClassTable) {id : ClassId} (hid : id < t.infos.length) (i : ClassInfo)
    (j : ClassId) :
    (ClassTable.mk t.names (t.infos.set id (some i))).info j =
      if j = id then some i else t.info j := by
  unfold ClassTable.info
  by_cases h : j = id
  · subst h
    simp [hid]
  · rw [if_neg h, List.getElem?_set_ne (Ne.symm h)]

theorem Entry.unique {info' : ClassInfo} (h : t.Entry p id info) (h' : t.Entry p id info') :
    info = info' := by
  obtain ⟨c, hc, -, hinfo, -⟩ := h.decl
  obtain ⟨c', hc', -, hinfo', -⟩ := h'.decl
  obtain rfl : c = c' := by simpa [hc] using hc'
  rw [hinfo, hinfo']

/-- A class becoming known leaves what is known of all classes as it was. -/
theorem Settled.info_set (ht : t.Settled p) (hid : id < p.classes.length)
    (hentry : t.Entry p id info) (j : ClassId) (i : ClassInfo) (hj : t.info j = some i) :
    (ClassTable.mk t.names (t.infos.set id (some info))).info j = some i := by
  rw [ClassTable.info_set t (ht.size ▸ hid)]
  split
  next heq =>
    subst heq
    rw [hentry.unique (ht.entry j i hj)]
  next => exact hj

/-- A settled table stays settled when a class becomes known. -/
theorem Settled.set (ht : t.Settled p) (hid : id < p.classes.length)
    (hentry : t.Entry p id info) :
    (ClassTable.mk t.names (t.infos.set id (some info))).Settled p := by
  refine ⟨ht.names, by simpa using ht.size, fun j i hj => ?_⟩
  rw [ClassTable.info_set t (ht.size ▸ hid)] at hj
  split at hj
  next heq =>
    cases hj
    exact heq ▸ hentry.mono (ht.info_set hid hentry)
  next => exact (ht.entry j i hj).mono (ht.info_set hid hentry)

/-! ## Resolving without errors -/

/-- What a climb without errors leaves behind. -/
structure Resolved (p : Program) (t : ClassTable) (id : ClassId) (r : Climb) : Prop where
  settled : r.table.Settled p
  mono : ∀ j i, t.info j = some i → r.table.info j = some i
  reentered : r.reentered = none
  info : r.info = r.table.info id
  known : (r.table.info id).isSome

theorem extends_eq {c : ClassDecl} (hc : p.classes[id]? = some c) :
    p.superOf id = c.extends?.bind p.classId? := by
  simp [Program.superOf, hc]

theorem Resolved.set {r : Climb} (hid : id < p.classes.length) (hr : r.table.Settled p)
    (hmono : ∀ j i, t.info j = some i → r.table.info j = some i)
    (hentry : r.table.Entry p id info) (errors : List TypeError) :
    Resolved p t id
      ⟨{ r.table with infos := r.table.infos.set id (some info) }, errors, some info, none⟩ := by
  have hlen : id < r.table.infos.length := by
    rw [hr.size]
    exact hid
  have hset := info_set r.table hlen info id
  rw [if_pos rfl] at hset
  exact ⟨hr.set hid hentry, fun j i hj => hr.info_set hid hentry j i (hmono j i hj), rfl,
    hset.symm, by simp [hset]⟩

/-- **A climb without errors settles its class.** -/
theorem resolved_of_climb (p : Program) (fallback : Pos) (chain : List ClassId) (id : ClassId)
    (t : ClassTable) (hid : id < p.classes.length) (ht : t.Settled p)
    (herr : (t.climb p fallback chain id).errors = []) :
    Resolved p t id (t.climb p fallback chain id) := by
  -- Cycles and missing superclasses are reported, so without errors only known classes, those
  -- with a superclass that was climbed to and those without one are left.
  fun_induction ClassTable.climb p fallback chain id t with
  | case1 chain id info hinfo => exact ⟨ht, fun _ _ h => h, rfl, hinfo.symm, by simp [hinfo]⟩
  | case2 chain id _ hnone => exact absurd (List.getElem?_eq_none_iff.1 hnone) (Nat.not_le.2 hid)
  | case3 => cases herr
  | case4 chain id hinfo c hc hchain found name s hfound above info hany ih =>
    obtain ⟨ext, hext, heq⟩ := Option.map_eq_some_iff.1 hfound
    obtain ⟨rfl, hlookup⟩ := Prod.mk.inj heq
    rw [ht.lookup] at hlookup
    have hre := (ih (Program.classId?_lt hlookup) herr).reentered
    simp [above, hre] at hany
  | case5 chain id hinfo c hc pos hchain found name s hfound above info hany inherited ih =>
    obtain ⟨ext, hext, heq⟩ := Option.map_eq_some_iff.1 hfound
    obtain ⟨rfl, hlookup⟩ := Prod.mk.inj heq
    rw [ht.lookup] at hlookup
    have hsuper : p.superOf id = some s := by rw [extends_eq hc, hext]; exact hlookup
    obtain ⟨herr, hover⟩ := List.append_eq_nil_iff.1 herr
    have hs := ih (Program.classId?_lt hlookup) herr
    obtain ⟨sInfo, hsInfo⟩ := Option.isSome_iff_exists.1 hs.known
    have hinherited : above.table.inheritedInfo p id = above.info := by
      rw [inheritedInfo, hsuper, Option.bind_some, hs.info]
    refine Resolved.set hid hs.settled hs.mono ⟨?_, ?_, c, hc, ?_, ?_, pos, ?_⟩ _
    · refine Acc.intro id fun b hb => ?_
      obtain rfl : s = b := by simpa [Program.Extends, hsuper] using hb
      exact (hs.settled.entry s sInfo hsInfo).founded
    · intro b hb
      obtain rfl : s = b := by simpa [hsuper] using hb
      exact hs.known
    · simp [hsuper]
    · rw [hinherited, hsuper]
    · rw [hinherited]
      exact hover
  | case6 chain id hinfo c hc pos hchain found info hfound missing =>
    have hext : c.extends? = none := by
      cases hext : c.extends? with
      | none => rfl
      | some name =>
        cases hlookup : t.lookup name with
        | none => simp [missing, found, hext, hlookup] at herr
        | some s => exact absurd (by simp [found, hext, hlookup]) (hfound name s)
    have hsuper : p.superOf id = none := by simp [extends_eq hc, hext]
    refine Resolved.set (r := ⟨t, [], none, none⟩) hid ht (fun _ _ h => h)
      ⟨?_, ?_, c, hc, ?_, ?_, pos, ?_⟩ _
    · exact Acc.intro id fun b hb => by simp [Program.Extends, hsuper] at hb
    · simp [hsuper]
    · simp [hext]
    · simp [inheritedInfo, hsuper, info]
    · rw [inheritedInfo, hsuper]
      exact overrideErrors_of_own p id pos _ _ fun name ref h => by simp at h

/-- **The nearest declarations are known**: what a settled table knows of a
class is what its lineage says, if no class declares a name twice. -/
theorem Settled.members (ht : t.Settled p) (hacyclic : p.Acyclic)
    (hfields : ∀ c ∈ p.classes, (c.fields.map (·.name)).Nodup)
    (hmethods : ∀ c ∈ p.classes, (c.methods.map (·.name)).Nodup)
    (hinfo : t.info id = some info) :
    info.superclass = p.superOf id ∧
      (∀ name, info.field? name = p.fieldRef? id name) ∧
      ∀ name, info.method? name = p.methodRef? id name := by
  -- The induction is along the superclasses, which a settled table has founded.
  have hacc := (ht.entry id info hinfo).founded
  induction hacc generalizing info with
  | intro id _ ih =>
    have hentry := ht.entry id info hinfo
    obtain ⟨c, hc, -, rfl, -⟩ := hentry.decl
    have hid : id < p.classes.length := (List.getElem?_eq_some_iff.1 hc).1
    have hmem : c ∈ p.classes := List.mem_of_getElem? hc
    have hown (names : ClassDecl → List String) (name : String) :
        p.ownMember? names id name = ((names c).idxOf? name).map (⟨id, ·⟩) := by
      simp [Program.ownMember?, hc]
    refine ⟨rfl, fun name => ?_, fun name => ?_⟩
    · rw [ClassInfo.field?, flatten, get?_declareMembers (hfields c hmem), Program.fieldRef?,
        Program.memberRef?_eq hacyclic _ hid, hown]
      congr 1
      cases hs : p.superOf id with
      | none => simp [inheritedInfo, hs]
      | some s =>
        obtain ⟨i, hi⟩ := Option.isSome_iff_exists.1 (hentry.above s hs)
        have hfield := (ih s hs hi).2.1 name
        rw [ClassInfo.field?, Program.fieldRef?] at hfield
        simp [inheritedInfo, hs, hi, hfield]
    · rw [ClassInfo.method?, flatten, get?_declareMembers (hmethods c hmem), Program.methodRef?,
        Program.memberRef?_eq hacyclic _ hid, hown]
      congr 1
      cases hs : p.superOf id with
      | none => simp [inheritedInfo, hs]
      | some s =>
        obtain ⟨i, hi⟩ := Option.isSome_iff_exists.1 (hentry.above s hs)
        have hmethod := (ih s hs hi).2.2 name
        rw [ClassInfo.method?, Program.methodRef?] at hmethod
        simp [inheritedInfo, hs, hi, hmethod]

/-- A method whose class sees an inherited one of its name conflicts with
nothing in a sound hierarchy. -/
theorem Settled.overrideErrors_eq_nil (ht : t.Settled p) (hsound : p.SoundHierarchy)
    (hfields : ∀ c ∈ p.classes, (c.fields.map (·.name)).Nodup)
    (hmethods : ∀ c ∈ p.classes, (c.methods.map (·.name)).Nodup)
    {c : ClassDecl} (hc : p.classes[id]? = some c) {s : ClassId} (hs : p.superOf id = some s)
    (hinfo : t.info s = some info) (pos : Pos) :
    overrideErrors p id pos info.methods c.methods.zipIdx = [] := by
  have hnodup : (c.methods.zipIdx.map (·.1.name)).Nodup := by
    have h := hmethods c (List.mem_of_getElem? hc)
    rwa [← List.zipIdx_map_fst 0 c.methods, List.map_map] at h
  refine (overrideErrors_eq_nil_iff p id pos _ hnodup _).2 fun m hm ref href _ inherited hdecl => ?_
  refine hsound.overrides id c s hc hs m.1 ?_ ref ?_ inherited hdecl
  · obtain ⟨-, -, heq⟩ := List.mem_zipIdx hm
    exact heq ▸ List.getElem_mem _
  · rw [← (ht.members hsound.acyclic hfields hmethods hinfo).2.2]
    exact href

/-- **In a sound hierarchy a climb reports nothing**, if it came through
classes below its own. -/
theorem climb_errors_eq_nil (p : Program) (fallback : Pos) (hsound : p.SoundHierarchy)
    (hfields : ∀ c ∈ p.classes, (c.fields.map (·.name)).Nodup)
    (hmethods : ∀ c ∈ p.classes, (c.methods.map (·.name)).Nodup)
    (chain : List ClassId) (id : ClassId) (t : ClassTable) (hid : id < p.classes.length)
    (ht : t.Settled p) (hchain : ∀ c ∈ chain, Relation.TransGen p.Extends c id) :
    (t.climb p fallback chain id).errors = [] := by
  -- What is reported is a cycle, a superclass or an override: a sound hierarchy has none.
  fun_induction ClassTable.climb p fallback chain id t with
  | case1 => rfl
  | case2 => rfl
  | case3 chain id _ _ _ _ hmem => exact absurd (hchain id hmem) (hsound.acyclic id)
  | case4 chain id hinfo c hc hmem found name s hfound above info hany ih =>
    obtain ⟨ext, hext, heq⟩ := Option.map_eq_some_iff.1 hfound
    obtain ⟨rfl, hlookup⟩ := Prod.mk.inj heq
    rw [ht.lookup] at hlookup
    have hsuper : p.superOf id = some s := by rw [extends_eq hc, hext]; exact hlookup
    refine ih (Program.classId?_lt hlookup) fun b hb => ?_
    rcases List.mem_cons.1 hb with rfl | hb
    · exact Relation.TransGen.single hsuper
    · exact (hchain b hb).tail hsuper
  | case5 chain id hinfo c hc pos hmem found name s hfound above info hany inherited ih =>
    obtain ⟨ext, hext, heq⟩ := Option.map_eq_some_iff.1 hfound
    obtain ⟨rfl, hlookup⟩ := Prod.mk.inj heq
    rw [ht.lookup] at hlookup
    have hs := Program.classId?_lt hlookup
    have hsuper : p.superOf id = some s := by rw [extends_eq hc, hext]; exact hlookup
    have herr : above.errors = [] := by
      refine ih hs fun b hb => ?_
      rcases List.mem_cons.1 hb with rfl | hb
      · exact Relation.TransGen.single hsuper
      · exact (hchain b hb).tail hsuper
    have hre := resolved_of_climb p fallback (id :: chain) s t hs ht herr
    obtain ⟨sInfo, hsInfo⟩ := Option.isSome_iff_exists.1 hre.known
    have hinherited : inherited = sInfo.methods := by
      simp only [inherited, above, hre.info, hsInfo, Option.map_some, Option.getD_some]
    change above.errors ++ overrideErrors p id pos inherited c.methods.zipIdx = []
    rw [herr, hinherited, List.nil_append]
    exact hre.settled.overrideErrors_eq_nil hsound hfields hmethods hc hsuper hsInfo pos
  | case6 chain id hinfo c hc pos hmem found info hfound missing =>
    cases hext : c.extends? with
    | none => simp [missing, found, hext]
    | some name =>
      have hknown := hsound.superclasses c (List.mem_of_getElem? hc) name hext
      obtain ⟨s, hs⟩ := Option.isSome_iff_exists.1 hknown
      exact absurd (by simp [found, hext, ht.lookup, hs]) (hfound name s)

/-! ## Resolving all classes -/

theorem settled_ofProgram (p : Program) : (ofProgram p).Settled p := by
  refine ⟨rfl, by simp [ofProgram], fun id info h => ?_⟩
  have hnone : (ofProgram p).info id = none := by
    simp only [ofProgram, ClassTable.info, List.getElem?_map]
    cases p.classes[id]? <;> rfl
  rw [hnone] at h
  cases h

/-- Resolving classes in turn without errors settles all of them. -/
theorem settled_of_resolveEach (p : Program) (fallback : Pos) (ids : List ClassId)
    (t : ClassTable) (hids : ∀ id ∈ ids, id < p.classes.length) (ht : t.Settled p)
    (herr : (t.resolveEach p fallback ids).2 = []) :
    (t.resolveEach p fallback ids).1.Settled p ∧
      (∀ j i, t.info j = some i → (t.resolveEach p fallback ids).1.info j = some i) ∧
      ∀ id ∈ ids, ((t.resolveEach p fallback ids).1.info id).isSome := by
  induction ids generalizing t with
  | nil => exact ⟨ht, fun _ _ h => h, by simp⟩
  | cons id rest ih =>
    rw [List.forall_mem_cons] at hids
    obtain ⟨hfirst, hrest⟩ := List.append_eq_nil_iff.1 herr
    have hr := resolved_of_climb p fallback [] id t hids.1 ht hfirst
    obtain ⟨hsettled, hmono, hknown⟩ := ih _ hids.2 hr.settled hrest
    refine ⟨hsettled, fun j i hj => hmono j i (hr.mono j i hj), fun j hj => ?_⟩
    rcases List.mem_cons.1 hj with rfl | hj
    · obtain ⟨i, hi⟩ := Option.isSome_iff_exists.1 hr.known
      exact Option.isSome_iff_exists.2 ⟨i, hmono _ i hi⟩
    · exact hknown j hj

theorem resolveEach_errors_eq_nil (p : Program) (fallback : Pos) (hsound : p.SoundHierarchy)
    (hfields : ∀ c ∈ p.classes, (c.fields.map (·.name)).Nodup)
    (hmethods : ∀ c ∈ p.classes, (c.methods.map (·.name)).Nodup)
    (ids : List ClassId) (t : ClassTable) (hids : ∀ id ∈ ids, id < p.classes.length)
    (ht : t.Settled p) : (t.resolveEach p fallback ids).2 = [] := by
  induction ids generalizing t with
  | nil => rfl
  | cons id rest ih =>
    rw [List.forall_mem_cons] at hids
    have hfirst : (t.resolve p fallback id).errors = [] :=
      climb_errors_eq_nil p fallback hsound hfields hmethods [] id t hids.1 ht (by simp)
    have hr := resolved_of_climb p fallback [] id t hids.1 ht hfirst
    exact List.append_eq_nil_iff.2 ⟨hfirst, ih _ hids.2 hr.settled⟩

/-- Resolution without errors leaves a settled table that knows every
class. -/
theorem settled_of_resolveAll {p : Program} {fallback : Pos}
    (herr : ((ofProgram p).resolveAll p fallback).2 = []) :
    ((ofProgram p).resolveAll p fallback).1.Settled p ∧
      ∀ id < p.classes.length, (((ofProgram p).resolveAll p fallback).1.info id).isSome := by
  obtain ⟨hsettled, -, hknown⟩ := settled_of_resolveEach p fallback _ _
    (fun _ h => List.mem_range.1 h) (settled_ofProgram p) herr
  exact ⟨hsettled, fun id hid => hknown id (List.mem_range.2 hid)⟩

/-- A table that was computed without errors and knows every class shows
that the hierarchy is sound. -/
theorem Settled.soundHierarchy (ht : t.Settled p)
    (hknown : ∀ id < p.classes.length, (t.info id).isSome)
    (hfields : ∀ c ∈ p.classes, (c.fields.map (·.name)).Nodup)
    (hmethods : ∀ c ∈ p.classes, (c.methods.map (·.name)).Nodup) : p.SoundHierarchy := by
  -- A class that is known has a well-founded line of superclasses.
  have hacyclic : p.Acyclic := by
    intro id hcycle
    have hid : id < p.classes.length := by
      obtain ⟨b, hb, -⟩ := Relation.TransGen.head'_iff.1 hcycle
      exact Program.lt_of_superOf hb
    obtain ⟨info, hinfo⟩ := Option.isSome_iff_exists.1 (hknown id hid)
    have hacc := (ht.entry id info hinfo).founded
    clear hinfo hid
    induction hacc with
    | intro id _ ih =>
      obtain ⟨c, hc, hback⟩ := Relation.TransGen.head'_iff.1 hcycle
      exact ih c hc (Relation.TransGen.tail' hback hc)
  refine ⟨fun c hc name hname => ?_, hacyclic, fun id c s hc hs m hm ref href inherited hdecl => ?_⟩
  · obtain ⟨id, hid⟩ := List.mem_iff_getElem?.1 hc
    have hlt := (List.getElem?_eq_some_iff.1 hid).1
    obtain ⟨info, hinfo⟩ := Option.isSome_iff_exists.1 (hknown id hlt)
    obtain ⟨c', hc', hext, -⟩ := (ht.entry id info hinfo).decl
    obtain rfl : c = c' := by simpa [hid] using hc'
    have hsuper := hext name hname
    rwa [extends_eq hid, hname, Option.bind_some] at hsuper
  · have hlt := (List.getElem?_eq_some_iff.1 hc).1
    obtain ⟨info, hinfo⟩ := Option.isSome_iff_exists.1 (hknown id hlt)
    have hentry := ht.entry id info hinfo
    obtain ⟨c', hc', -, -, pos, hover⟩ := hentry.decl
    obtain rfl : c = c' := by simpa [hc] using hc'
    obtain ⟨i, hi⟩ := Option.isSome_iff_exists.1 (hentry.above s hs)
    obtain ⟨k, hk⟩ := List.mem_iff_getElem?.1 hm
    have hnodup : (c.methods.zipIdx.map (·.1.name)).Nodup := by
      have h := hmethods c (List.mem_of_getElem? hc)
      rwa [← List.zipIdx_map_fst 0 c.methods, List.map_map] at h
    have hcond := (overrideErrors_eq_nil_iff p id pos _ hnodup _).1 hover (m, k)
      (List.mk_mem_zipIdx_iff_getElem?.2 hk) ref
    refine hcond ?_ (fun heq => ?_) inherited hdecl
    · rw [inheritedInfo, hs, Option.bind_some, hi, Option.map_some, Option.getD_some,
        ← ClassInfo.method?, (ht.members hacyclic hfields hmethods hi).2.2]
      exact href
    · have hup := (Program.memberRef?_eq_some href).1
      rw [heq] at hup
      exact hacyclic id (Relation.TransGen.head' hs hup)

/-- **Resolution reports nothing exactly if the hierarchy is sound**, where
no class declares a name twice. -/
theorem resolveAll_errors_eq_nil_iff (p : Program) (fallback : Pos)
    (hfields : ∀ c ∈ p.classes, (c.fields.map (·.name)).Nodup)
    (hmethods : ∀ c ∈ p.classes, (c.methods.map (·.name)).Nodup) :
    ((ofProgram p).resolveAll p fallback).2 = [] ↔ p.SoundHierarchy := by
  refine ⟨fun herr => ?_, fun hsound => ?_⟩
  · obtain ⟨hsettled, hknown⟩ := settled_of_resolveAll herr
    exact hsettled.soundHierarchy hknown hfields hmethods
  · exact resolveEach_errors_eq_nil p fallback hsound hfields hmethods _ _
      (fun _ h => List.mem_range.1 h) (settled_ofProgram p)

end ClassTable

end ClassLang
