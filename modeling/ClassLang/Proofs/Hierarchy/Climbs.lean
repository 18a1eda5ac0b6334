import ClassLang.Proofs.Hierarchy.Nearest
/-!
# Hierarchy — what one climb does, whatever the hierarchy

A climb either makes its class known or unwinds a cycle (`ClassTable.climb_cases`).
While it unwinds, what it has of a class is preliminary: it misses what the
classes of the cycle declare that were passed before (`Glimpses`), and at the
class that closes the cycle nothing is missing any more (`Glimpses.closes`).
A climb reports what is wrong with the classes that become known in it, each
class once (`Tally`), and one class of a cycle that nothing was known of.
-/


namespace ClassLang

open Source (ClassDecl FunctionDecl Program)

/-! ## What is reported of a class -/

/-- Is it a cycle that is reported? -/
def TypeError.isCycle (e : TypeError) : Bool :=
  match e.fault with
  | .inheritanceCycle _ => true
  | _ => false

/-- Is it a superclass that is not there? -/
def TypeError.isUnknownSuperclass (e : TypeError) : Bool :=
  match e.fault with
  | .unknownSuperclass _ _ => true
  | _ => false

/-- Is it a method that overrides one of another signature? -/
def TypeError.isOverride (e : TypeError) : Bool :=
  match e.fault with
  | .incompatibleOverride _ _ => true
  | _ => false

namespace Source.Program

variable (p : Program) (fallback : Pos)

/-- What is reported of a class at which a cycle is closed. -/
def cycleError? (id : ClassId) : Option TypeError :=
  p.classes[id]?.map fun c => ⟨.inheritanceCycle c.name, c.pos.getD fallback⟩

/-- What is reported of a class that names a superclass which is not
there. -/
def superclassError? (id : ClassId) : Option TypeError :=
  p.classes[id]?.bind fun c =>
    (c.extends?.filter fun name => (p.classId? name).isNone).map fun name =>
      ⟨.unknownSuperclass name c.name, c.pos.getD fallback⟩

/-- What is reported of a method that overrides another one, if their
signatures differ. -/
def conflict? (classPos : Pos) (m : FunctionDecl) (ref : MemberRef) : Option TypeError :=
  (methodDecl? p ref).bind fun previous =>
    if sameSignature previous m then none
    else
      let previousPos := (previous.pos <|> p.classes[ref.class_]?.bind (·.pos)).getD classPos
      some ⟨.incompatibleOverride m.name previousPos, m.pos.getD classPos⟩

/-- What is reported of the methods of a class: of every name, the first
method that the class declares itself against the nearest inherited one. -/
def overrideConflicts (id : ClassId) : List TypeError :=
  (p.classes[id]?.map fun c => c.methods.zipIdx.filterMap fun m =>
    if (c.methods.map (·.name)).idxOf? m.1.name = some m.2 then
      ((p.superOf id).bind fun s => p.nearest? (·.methods.map (·.name)) s m.1.name).bind
        (p.conflict? (c.pos.getD fallback) m.1)
    else none).getD []

/-- What is reported of a class that is not above itself. -/
def classErrors (id : ClassId) : List TypeError :=
  (p.superclassError? fallback id).toList ++ p.overrideConflicts fallback id

end Source.Program

/-- Overriding is reported of the first method of each name, if all that is
inherited comes from other classes. -/
theorem overrideErrors_eq (p : Program) (id : ClassId) (pos : Pos) (methods : List FunctionDecl)
    (inherited : Table String MemberRef)
    (hother : ∀ name ref, inherited.get? name = some ref → ref.class_ ≠ id) :
    overrideErrors p id pos inherited methods.zipIdx = methods.zipIdx.filterMap fun m =>
      if (methods.map (·.name)).idxOf? m.1.name = some m.2 then
        (inherited.get? m.1.name).bind (p.conflict? pos m.1)
      else none := by
  -- By the methods that are left: the table has this class for the names that were passed,
  -- and what is inherited for all others.
  have hrest (rest before : List FunctionDecl) (t : Table String MemberRef)
      (hmethods : methods = before ++ rest)
      (hbefore : ∀ name ∈ before.map (·.name), ∃ ref, t.get? name = some ref ∧ ref.class_ = id)
      (hnew : ∀ name, name ∉ before.map (·.name) → t.get? name = inherited.get? name) :
      overrideErrors p id pos t (rest.zipIdx before.length) =
        (rest.zipIdx before.length).filterMap fun m =>
          if (methods.map (·.name)).idxOf? m.1.name = some m.2 then
            (inherited.get? m.1.name).bind (p.conflict? pos m.1)
          else none := by
    induction rest generalizing before t with
    | nil => rfl
    | cons m rest ih =>
      have ih := ih (before ++ [m]) (t.insert m.name ⟨id, before.length⟩) (by simp [hmethods])
        (fun name hname => by
          by_cases h : m.name = name
          · exact ⟨⟨id, before.length⟩, by rw [h, Table.get?_insert_self], rfl⟩
          · rw [Table.get?_insert_of_ne _ _ h]
            exact hbefore name (by simpa [Ne.symm h] using hname))
        (fun name hname => by
          have hname : name ∉ before.map (·.name) ∧ name ≠ m.name := by simpa using hname
          rw [Table.get?_insert_of_ne _ _ hname.2.symm]
          exact hnew name hname.1)
      rw [List.length_append, List.length_singleton] at ih
      rw [List.zipIdx_cons, overrideErrors, ih, List.filterMap_cons]
      have hidx : (methods.map (·.name)).idxOf? m.name = some before.length ↔
          m.name ∉ before.map (·.name) := by
        rw [hmethods, List.map_append, List.map_cons, List.idxOf?_eq_some_iff]
        constructor
        · rintro ⟨_, _, hfirst⟩ hmem
          obtain ⟨j, hj, heq⟩ := List.getElem_of_mem hmem
          have hlt : j < before.length := by simpa using hj
          exact hfirst j hlt (by rw [List.getElem_append_left hj, heq])
        · intro hmem
          refine ⟨by simp, by simp [List.getElem_append_right], fun j hj heq => hmem ?_⟩
          rw [List.getElem_append_left (by simpa using hj)] at heq
          exact heq ▸ List.getElem_mem _
      by_cases hmem : m.name ∈ before.map (·.name)
      · obtain ⟨ref, href, rfl⟩ := hbefore _ hmem
        simp [href, Option.filter, hidx, hmem]
      · simp only [if_pos (hidx.2 hmem), hnew _ hmem]
        cases href : inherited.get? m.name with
        | none => simp
        | some ref =>
          have hne := hother _ ref href
          simp only [Option.filter, hne, ne_eq, not_false_eq_true, decide_true, if_true,
            Option.bind_some, Program.conflict?]
          cases methodDecl? p ref with
          | none => rfl
          | some previous => by_cases hsame : sameSignature previous m <;> simp [hsame]
  exact hrest methods [] inherited rfl (by simp) fun _ _ => rfl

theorem overrideErrors_isOverride (p : Program) (id : ClassId) (pos : Pos)
    (methods : List (FunctionDecl × Nat)) (t : Table String MemberRef) :
    ∀ e ∈ overrideErrors p id pos t methods, ∃ name previous,
      e.fault = .incompatibleOverride name previous := by
  fun_induction overrideErrors p id pos t methods with
  | case1 => simp
  | case2 t m index rest error ih =>
    intro e he
    rcases List.mem_append.1 he with he | he
    · simp only [error] at he
      split at he
      · split at he
        · split at he
          · cases he
          · rw [List.mem_singleton.1 he]
            exact ⟨_, _, rfl⟩
        · cases he
      · cases he
    · exact ih e he

/-! ## What a class sees -/

section Members

variable (p : Program) (names : ClassDecl → List String)

/-- Members are the nearest declarations that a class sees. -/
def Sees (id : ClassId) (members : Table String MemberRef) : Prop :=
  ∀ name ref, members.get? name = some ref ↔ p.Nearest names name id ref

/-- Members are the nearest declarations that a class sees, as far as they
stand before the classes of a chain that the class `reentered` closes to a
cycle. -/
structure Glimpses (chain : List ClassId) (reentered id : ClassId)
    (members : Table String MemberRef) : Prop where
  found : ∀ name ref, members.get? name = some ref → p.Nearest names name id ref
  missing : ∀ name, members.get? name = none → ∀ c, p.Inherits id c →
    p.lastOwn? names c name = none ∨ c ∈ chain.takeWhile (· ≠ reentered)

variable {p names} {id s reentered : ClassId} {c : ClassDecl} {chain : List ClassId}
  {inherited : Table String MemberRef}

theorem get?_declareMembers_own (hc : p.classes[id]? = some c) (inherited : Table String MemberRef)
    (name : String) : (declareMembers id (names c) inherited).get? name =
      (p.lastOwn? names id name).or (inherited.get? name) := by
  rw [get?_declareMembers_eq_or, Program.lastOwn?, hc, Option.bind_some]

/-- A class sees its own declarations and what its superclass sees. -/
theorem Sees.declare (h : Sees p names s inherited) (hc : p.classes[id]? = some c)
    (hs : p.superOf id = some s) : Sees p names id (declareMembers id (names c) inherited) := by
  intro name ref
  rw [get?_declareMembers_own hc]
  cases hown : p.lastOwn? names id name with
  | some own =>
    rw [Option.some_or]
    refine ⟨fun heq => .own (hown.trans heq), fun hnear => ?_⟩
    exact congrArg some ((Program.Nearest.own hown).unique hnear)
  | none =>
    rw [Option.none_or, h name ref]
    refine ⟨.above hown hs, fun hnear => ?_⟩
    cases hnear with
    | own hown' => rw [hown] at hown'; cases hown'
    | above _ hs' hnear => exact Option.some.inj (hs.symm.trans hs') ▸ hnear

/-- A class without superclass sees its own declarations. -/
theorem Sees.root (hc : p.classes[id]? = some c) (hs : p.superOf id = none) :
    Sees p names id (declareMembers id (names c) []) := by
  intro name ref
  rw [get?_declareMembers_own hc, Table.get?_nil, Option.or_none]
  refine ⟨.own, fun hnear => ?_⟩
  cases hnear with
  | own hown => exact hown
  | above _ hs' => rw [hs] at hs'; cases hs'

/-- What a class sees for a start that closes a cycle. -/
theorem Glimpses.start (hc : p.classes[id]? = some c) (hlinked : p.Linked chain id)
    (hmem : id ∈ chain) : Glimpses p names chain id id (declareMembers id (names c) []) := by
  refine ⟨fun name ref h => ?_, fun name h d hd => ?_⟩
  · rw [get?_declareMembers_own hc, Table.get?_nil, Option.or_none] at h
    exact .own h
  · rw [get?_declareMembers_own hc, Table.get?_nil, Option.or_none] at h
    exact (List.mem_cons.1 (hlinked.mem_of_inherits hmem hd)).imp_left fun heq : d = id => heq ▸ h

theorem Glimpses.found_declare {reentered : ClassId} {chain : List ClassId}
    (h : Glimpses p names chain reentered s inherited) (hc : p.classes[id]? = some c)
    (hs : p.superOf id = some s) {name : String} {ref : MemberRef}
    (href : (declareMembers id (names c) inherited).get? name = some ref) :
    p.Nearest names name id ref := by
  rw [get?_declareMembers_own hc] at href
  cases hown : p.lastOwn? names id name with
  | some own =>
    rw [hown] at href
    exact .own (hown.trans href)
  | none =>
    rw [hown] at href
    exact .above hown hs (h.found name ref href)

/-- While the cycle unwinds, a class more is no longer missing. -/
theorem Glimpses.declare (h : Glimpses p names (id :: chain) reentered s inherited)
    (hc : p.classes[id]? = some c) (hs : p.superOf id = some s) (hne : reentered ≠ id) :
    Glimpses p names chain reentered id (declareMembers id (names c) inherited) := by
  refine ⟨fun name ref => h.found_declare hc hs, fun name hnone d hd => ?_⟩
  rw [get?_declareMembers_own hc, Option.or_eq_none_iff] at hnone
  rcases Relation.ReflTransGen.cases_head hd with rfl | ⟨s', hs', hup⟩
  · exact .inl hnone.1
  · obtain rfl := Option.some.inj (hs'.symm.trans hs)
    have hmissing := h.missing name hnone.2 d hup
    -- What was missing is missing still, save for this class itself.
    rw [List.takeWhile_cons_of_pos (by simpa using hne.symm), List.mem_cons] at hmissing
    rcases hmissing with hown | rfl | hin
    · exact .inl hown
    · exact .inl hnone.1
    · exact .inr hin

/-- **The class that closes a cycle sees all there is.** -/
theorem Glimpses.closes (h : Glimpses p names (id :: chain) id s inherited)
    (hc : p.classes[id]? = some c) (hs : p.superOf id = some s) :
    Sees p names id (declareMembers id (names c) inherited) := by
  intro name ref
  refine ⟨h.found_declare hc hs, fun hnear => ?_⟩
  cases hget : (declareMembers id (names c) inherited).get? name with
  | some ref' => exact congrArg some ((h.found_declare hc hs hget).unique hnear)
  | none =>
    rw [get?_declareMembers_own hc, Option.or_eq_none_iff] at hget
    obtain ⟨hup, hdecl⟩ := hnear.declared
    rcases Relation.ReflTransGen.cases_head hup with heq | ⟨s', hs', hup⟩
    · rw [← heq, hget.1] at hdecl
      cases hdecl
    · obtain rfl := Option.some.inj (hs'.symm.trans hs)
      rcases h.missing name hget.2 _ hup with hown | hin
      · rw [hown] at hdecl
        cases hdecl
      · simp at hin

end Members

/-! ## Tables and what was reported with them -/

namespace ClassTable

variable (p : Program) (fallback : Pos)

/-- What is known of a class is what its declarations say. -/
structure Faithful (t : ClassTable) : Prop where
  names : t.names = p.classes.map (·.name)
  size : t.infos.length = p.classes.length
  superclass : ∀ id info, t.info id = some info → info.superclass = p.superOf id
  fields : ∀ id info, t.info id = some info → Sees p (·.fields.map (·.name)) id info.fields
  methods : ∀ id info, t.info id = some info → Sees p (·.methods.map (·.name)) id info.methods

/-- Classes become `new`, and the errors are those of the new classes and
of a cycle for each of the `closing` ones. -/
structure Tally (t t' : ClassTable) (new closing : List ClassId) (errors : List TypeError) :
    Prop where
  known : ∀ id, (t'.info id).isSome ↔ (t.info id).isSome ∨ id ∈ new
  before : ∀ id ∈ new, t.info id = none
  nodup : new.Nodup
  cycles : errors.filter (·.isCycle) = closing.filterMap (p.cycleError? fallback)
  superclasses : errors.filter (·.isUnknownSuperclass) = new.filterMap (p.superclassError? fallback)
  all : p.Acyclic → errors = new.flatMap (p.classErrors fallback)

/-- A class of every cycle that is known of is among the `closing` ones,
and no other class of the cycle is. -/
structure Closes (t : ClassTable) (closing : List ClassId) : Prop where
  cycle : ∀ r ∈ closing, Relation.TransGen p.Extends r r
  known : ∀ r ∈ closing, (t.info r).isSome
  single : ∀ r ∈ closing, ∀ r' ∈ closing, p.Inherits r r' → r = r'
  nodup : closing.Nodup
  covers : ∀ id c, (t.info id).isSome → p.Inherits id c → Relation.TransGen p.Extends c c →
    ∃ r ∈ closing, p.Inherits id r

variable {p fallback} {t t' t'' : ClassTable} {id s : ClassId} {new new' closing closing' : List ClassId}
  {errors errors' : List TypeError} {info : ClassInfo} {c : ClassDecl}

theorem Faithful.lookup (ht : t.Faithful p) (name : String) : t.lookup name = p.classId? name := by
  rw [ClassTable.lookup, ht.names, Program.classId?]

theorem Faithful.set (ht : t.Faithful p) (hid : id < p.classes.length)
    (hsuper : info.superclass = p.superOf id)
    (hfields : Sees p (·.fields.map (·.name)) id info.fields)
    (hmethods : Sees p (·.methods.map (·.name)) id info.methods) :
    (ClassTable.mk t.names (t.infos.set id (some info))).Faithful p := by
  have hset (j : ClassId) (i : ClassInfo)
      (hj : (ClassTable.mk t.names (t.infos.set id (some info))).info j = some i) :
      (j = id ∧ i = info) ∨ t.info j = some i := by
    rw [ClassTable.info_set t (ht.size ▸ hid)] at hj
    split at hj
    next heq => exact .inl ⟨heq, (Option.some.inj hj).symm⟩
    next => exact .inr hj
  refine ⟨ht.names, by simpa using ht.size, fun j i hj => ?_, fun j i hj => ?_, fun j i hj => ?_⟩
  all_goals rcases hset j i hj with ⟨rfl, rfl⟩ | hj
  · exact hsuper
  · exact ht.superclass j i hj
  · exact hfields
  · exact ht.fields j i hj
  · exact hmethods
  · exact ht.methods j i hj

theorem Tally.refl (t : ClassTable) : Tally p fallback t t [] [] [] :=
  ⟨by simp, by simp, .nil, rfl, rfl, fun _ => rfl⟩

theorem Tally.trans (h : Tally p fallback t t' new closing errors)
    (h' : Tally p fallback t' t'' new' closing' errors') :
    Tally p fallback t t'' (new ++ new') (closing ++ closing') (errors ++ errors') := by
  refine ⟨fun id => ?_, fun id hid => ?_, ?_, ?_, ?_, fun hacyclic => ?_⟩
  · rw [h'.known, h.known, List.mem_append, or_assoc]
  · rcases List.mem_append.1 hid with hid | hid
    · exact h.before id hid
    · have hnone := h'.before id hid
      by_contra hsome
      have hknown := (h.known id).2 (.inl (Option.isSome_iff_ne_none.2 hsome))
      simp [hnone] at hknown
  · refine List.nodup_append'.2 ⟨h.nodup, h'.nodup, fun id hid hid' => ?_⟩
    have hknown := (h.known id).2 (.inr hid)
    simp [h'.before id hid'] at hknown
  · rw [List.filter_append, List.filterMap_append, h.cycles, h'.cycles]
  · rw [List.filter_append, List.filterMap_append, h.superclasses, h'.superclasses]
  · rw [h.all hacyclic, h'.all hacyclic, List.flatMap_append]

/-- One class becomes known, with what is reported of it. -/
theorem Tally.set (hid : id < t.infos.length) (hnone : t.info id = none)
    (hcycles : errors.filter (·.isCycle) = closing.filterMap (p.cycleError? fallback))
    (hsuperclasses : errors.filter (·.isUnknownSuperclass) = (p.superclassError? fallback id).toList)
    (hall : p.Acyclic → errors = p.classErrors fallback id) :
    Tally p fallback t ⟨t.names, t.infos.set id (some info)⟩ [id] closing errors := by
  refine ⟨fun j => ?_, by simpa using hnone, List.nodup_singleton id, hcycles, ?_, fun hacyclic => ?_⟩
  · rw [ClassTable.info_set t hid]
    by_cases h : j = id <;> simp [h]
  · rw [hsuperclasses, List.filterMap_cons, List.filterMap_nil]
    cases p.superclassError? fallback id <;> rfl
  · rw [hall hacyclic, List.flatMap_singleton]

/-! ## Climbs -/

variable (p fallback)

/-- A climb unwinds the cycle that a class of its chain closes: nothing has
become known, and the class was reported. -/
structure Unwinds (t : ClassTable) (chain : List ClassId) (id start : ClassId) (r : Climb) :
    Prop where
  reentered : r.reentered = some start
  table : r.table = t
  errors : r.errors = (p.cycleError? fallback start).toList
  mem : start ∈ chain
  cycle : Relation.TransGen p.Extends start start
  fresh : ∀ c, p.Inherits start c → t.info c = none
  info : ∃ info, r.info = some info ∧
    Glimpses p (·.fields.map (·.name)) chain start id info.fields ∧
    Glimpses p (·.methods.map (·.name)) chain start id info.methods

/-- A climb makes its class known, and none of the classes it came through. -/
structure Learns (t : ClassTable) (chain : List ClassId) (id : ClassId) (r : Climb) : Prop where
  reentered : r.reentered = none
  faithful : r.table.Faithful p
  chain : ∀ c ∈ chain, r.table.info c = none
  mono : ∀ j i, t.info j = some i → r.table.info j = some i
  info : r.info = r.table.info id
  known : (r.table.info id).isSome
  tally : ∃ new closing, Tally p fallback t r.table new closing r.errors ∧
    ∀ before, Closes p t before → Closes p r.table (before ++ closing)

variable {p fallback} {chain : List ClassId} {r : Climb}

/-- A class becomes known behind what is above it. -/
theorem Learns.set (hid : id < p.classes.length) (hnone : t.info id = none)
    (hmem : id ∉ chain) (hfaithful : t'.Faithful p)
    (hmono : ∀ j i, t.info j = some i → t'.info j = some i)
    (hchain : ∀ c ∈ chain, t'.info c = none) (hsuper : info.superclass = p.superOf id)
    (hfields : Sees p (·.fields.map (·.name)) id info.fields)
    (hmethods : Sees p (·.methods.map (·.name)) id info.methods)
    (htally : ∃ new closing, Tally p fallback t
        ⟨t'.names, t'.infos.set id (some info)⟩ new closing errors ∧
      ∀ before, Closes p t before →
        Closes p ⟨t'.names, t'.infos.set id (some info)⟩ (before ++ closing)) :
    Learns p fallback t chain id
      ⟨⟨t'.names, t'.infos.set id (some info)⟩, errors, some info, none⟩ := by
  have hset := info_set t' (hfaithful.size ▸ hid) info
  refine ⟨rfl, hfaithful.set hid hsuper hfields hmethods, fun c hc => ?_, fun j i hj => ?_, ?_, ?_,
    htally⟩
  · have hne : c ≠ id := fun heq => hmem (heq ▸ hc)
    rw [hset, if_neg hne, hchain c hc]
  · have hne : j ≠ id := fun heq => by rw [heq, hnone] at hj; cases hj
    rw [hset, if_neg hne, hmono j i hj]
  · rw [hset, if_pos rfl]
  · rw [hset, if_pos rfl, Option.isSome_some]

/-- A class whose superclass is known becomes known; no cycle is closed at
it. -/
theorem Closes.set (h : Closes p t closing) (hid : id < t.infos.length) (hs : p.superOf id = some s)
    (hknown : (t.info s).isSome) :
    Closes p ⟨t.names, t.infos.set id (some info)⟩ closing := by
  have hset := info_set t hid info
  refine ⟨h.cycle, fun r hr => ?_, h.single, h.nodup, fun j c hj hup hcycle => ?_⟩
  · rw [hset]
    split
    · rfl
    · exact h.known r hr
  · rw [hset] at hj
    split at hj
    next heq =>
      subst heq
      -- A class on a cycle has its superclass on the same one.
      have hup' : p.Inherits s c := by
        rcases Relation.ReflTransGen.cases_head hup with rfl | ⟨s', hs', hup⟩
        · obtain ⟨s', hs', hup⟩ := Relation.TransGen.head'_iff.1 hcycle
          exact Option.some.inj (hs'.symm.trans hs) ▸ hup
        · exact Option.some.inj (hs'.symm.trans hs) ▸ hup
      obtain ⟨r, hr, hto⟩ := h.covers s c hknown hup' hcycle
      exact ⟨r, hr, .head hs hto⟩
    next => exact h.covers j c hj hup hcycle

/-- A class without superclass becomes known. -/
theorem Closes.root (h : Closes p t closing) (hid : id < t.infos.length) (hs : p.superOf id = none) :
    Closes p ⟨t.names, t.infos.set id (some info)⟩ closing := by
  have hset := info_set t hid info
  refine ⟨h.cycle, fun r hr => ?_, h.single, h.nodup, fun j c hj hup hcycle => ?_⟩
  · rw [hset]
    split
    · rfl
    · exact h.known r hr
  · rw [hset] at hj
    split at hj
    next heq =>
      subst heq
      have hroot (b : ClassId) : ¬ p.Extends j b := fun hb => by
        rw [show p.superOf j = some b from hb] at hs
        cases hs
      rcases Relation.ReflTransGen.cases_head hup with rfl | ⟨b, hb, -⟩
      · obtain ⟨b, hb, -⟩ := Relation.TransGen.head'_iff.1 hcycle
        exact absurd hb (hroot b)
      · exact absurd hb (hroot b)
    next => exact h.covers j c hj hup hcycle

/-- The class that closes a cycle becomes known, the first of its cycle. -/
theorem Closes.close (h : Closes p t closing) (hid : id < t.infos.length)
    (hcycle : Relation.TransGen p.Extends id id) (hfresh : ∀ c, p.Inherits id c → t.info c = none) :
    Closes p ⟨t.names, t.infos.set id (some info)⟩ (closing ++ [id]) := by
  have hset := info_set t hid info
  -- Nothing was known of this cycle, so it was not closed before.
  have hapart (r : ClassId) (hr : r ∈ closing) : ¬ p.Inherits id r := fun hup => by
    have hknown := h.known r hr
    simp [hfresh r hup] at hknown
  refine ⟨fun r hr => ?_, fun r hr => ?_, fun r hr r' hr' hup => ?_, ?_, fun j c hj hup hc => ?_⟩
  · rcases List.mem_append.1 hr with hr | hr
    · exact h.cycle r hr
    · exact List.mem_singleton.1 hr ▸ hcycle
  · rw [hset]
    split
    · rfl
    next hne =>
      exact h.known r ((List.mem_append.1 hr).resolve_right fun hr => hne (List.mem_singleton.1 hr))
  · rcases List.mem_append.1 hr with hold | hnew <;> rcases List.mem_append.1 hr' with hold' | hnew'
    · exact h.single r hold r' hold' hup
    · obtain rfl := List.mem_singleton.1 hnew'
      exact absurd (Program.inherits_back (h.cycle r hold) hup).1 (hapart r hold)
    · obtain rfl := List.mem_singleton.1 hnew
      exact absurd hup (hapart r' hold')
    · exact (List.mem_singleton.1 hnew).trans (List.mem_singleton.1 hnew').symm
  · refine List.nodup_append'.2 ⟨h.nodup, List.nodup_singleton id, fun r hr hr' => ?_⟩
    exact hapart r hr (List.mem_singleton.1 hr' ▸ .refl)
  · rw [hset] at hj
    split at hj
    next heq => exact ⟨id, by simp, heq ▸ .refl⟩
    next =>
      obtain ⟨r, hr, hto⟩ := h.covers j c hj hup hc
      exact ⟨r, List.mem_append_left _ hr, hto⟩

/-- Nothing but overriding is reported where a class is laid over what it
inherits. -/
theorem filter_overrideErrors (p : Program) (id : ClassId) (pos : Pos) (t : Table String MemberRef)
    (methods : List (FunctionDecl × Nat)) :
    (overrideErrors p id pos t methods).filter (·.isCycle) = [] ∧
      (overrideErrors p id pos t methods).filter (·.isUnknownSuperclass) = [] := by
  constructor
  all_goals
    refine List.filter_eq_nil_iff.2 fun e he => ?_
    obtain ⟨name, previous, hfault⟩ := overrideErrors_isOverride p id pos methods t e he
    simp [TypeError.isCycle, TypeError.isUnknownSuperclass, hfault]

/-- Without cycles, what is reported is the conflicts of the class. -/
theorem overrideErrors_eq_conflicts (hacyclic : p.Acyclic) (hc : p.classes[id]? = some c)
    (hs : p.superOf id = some s) {inherited : Table String MemberRef}
    (hsees : Sees p (·.methods.map (·.name)) s inherited) :
    overrideErrors p id (c.pos.getD fallback) inherited c.methods.zipIdx =
      p.overrideConflicts fallback id := by
  have hnearest (name : String) :
      inherited.get? name = p.nearest? (·.methods.map (·.name)) s name :=
    Option.ext fun ref => (hsees name ref).trans Program.nearest?_eq_some_iff.symm
  rw [overrideErrors_eq p id _ _ _ fun name ref href heq => ?_, Program.overrideConflicts, hc, hs]
  · simp only [hnearest, Option.map_some, Option.getD_some, Option.bind_some]
  · exact hacyclic id (.head' hs (heq ▸ ((hsees name ref).1 href).declared.1))

/-- **A class becomes known behind its superclass.** -/
theorem Learns.inherit {above : Climb} (hid : id < p.classes.length) (hinfo : t.info id = none)
    (hmem : id ∉ chain) (hc : p.classes[id]? = some c) (hsuper : p.superOf id = some s)
    (hnone : p.superclassError? fallback id = none)
    (habove : Learns p fallback t (id :: chain) s above) :
    Learns p fallback t chain id
      ⟨⟨above.table.names, above.table.infos.set id (some (flatten id c (some s) above.info))⟩,
        above.errors ++ overrideErrors p id (c.pos.getD fallback)
          ((above.info.map (·.methods)).getD []) c.methods.zipIdx,
        some (flatten id c (some s) above.info), none⟩ := by
  obtain ⟨sInfo, hsInfo⟩ := Option.isSome_iff_exists.1 habove.known
  have hinfo' : above.info = some sInfo := habove.info.trans hsInfo
  have hfields := habove.faithful.fields s sInfo hsInfo
  have hmethods := habove.faithful.methods s sInfo hsInfo
  have hlen : id < above.table.infos.length := habove.faithful.size ▸ hid
  obtain ⟨hfresh, hchain⟩ := List.forall_mem_cons.1 habove.chain
  obtain ⟨new, closing, htally, hcloses⟩ := habove.tally
  obtain ⟨hnoCycle, hnoSuperclass⟩ := filter_overrideErrors p id (c.pos.getD fallback)
    ((above.info.map (·.methods)).getD []) c.methods.zipIdx
  refine Learns.set hid hinfo hmem habove.faithful habove.mono hchain hsuper.symm ?_ ?_
    ⟨new ++ [id], closing ++ [], htally.trans (.set hlen hfresh hnoCycle ?_ fun hacyclic => ?_),
      fun before h => ?_⟩
  · simpa [flatten, hinfo'] using hfields.declare hc hsuper
  · simpa [flatten, hinfo'] using hmethods.declare hc hsuper
  · rw [hnoSuperclass, hnone]
    rfl
  · rw [Program.classErrors, hnone, hinfo',
      ← overrideErrors_eq_conflicts hacyclic hc hsuper hmethods]
    rfl
  · rw [List.append_nil]
    exact (hcloses before h).set hlen hsuper habove.known

/-- **The class that closes a cycle becomes known** when the cycle is unwound down
to it. The table is the one the climb began with: of the rest of the cycle
nothing is kept. -/
theorem Unwinds.close {above : Climb} (hid : id < p.classes.length) (ht : t.Faithful p)
    (hinfo : t.info id = none) (hmem : id ∉ chain) (hchain : ∀ c ∈ chain, t.info c = none)
    (hc : p.classes[id]? = some c) (hsuper : p.superOf id = some s)
    (hnone : p.superclassError? fallback id = none)
    (habove : Unwinds p fallback t (id :: chain) s id above) :
    Learns p fallback t chain id
      ⟨⟨above.table.names, above.table.infos.set id (some (flatten id c (some s) above.info))⟩,
        above.errors ++ overrideErrors p id (c.pos.getD fallback)
          ((above.info.map (·.methods)).getD []) c.methods.zipIdx,
        some (flatten id c (some s) above.info), none⟩ := by
  obtain ⟨i, hi, hfields, hmethods⟩ := habove.info
  have hlen : id < t.infos.length := ht.size ▸ hid
  obtain ⟨hnoCycle, hnoSuperclass⟩ := filter_overrideErrors p id (c.pos.getD fallback)
    ((above.info.map (·.methods)).getD []) c.methods.zipIdx
  have hisCycle : (p.cycleError? fallback id).toList.filter (·.isCycle) =
      [id].filterMap (p.cycleError? fallback) := by
    simp [Program.cycleError?, hc, TypeError.isCycle]
  have hnotSuperclass :
      (p.cycleError? fallback id).toList.filter (·.isUnknownSuperclass) = [] := by
    simp [Program.cycleError?, hc, TypeError.isUnknownSuperclass]
  rw [habove.table, habove.errors]
  refine Learns.set hid hinfo hmem ht (fun _ _ h => h) hchain hsuper.symm ?_ ?_
    ⟨[id], [id], .set hlen hinfo ?_ ?_ fun hacyclic => ?_,
      fun before h => h.close hlen habove.cycle habove.fresh⟩
  · simpa [flatten, hi] using hfields.closes hc hsuper
  · simpa [flatten, hi] using hmethods.closes hc hsuper
  · rw [List.filter_append, hnoCycle, List.append_nil, hisCycle]
  · rw [List.filter_append, hnoSuperclass, hnotSuperclass, hnone]
    rfl
  · exact absurd habove.cycle (hacyclic id)

/-- **A class without superclass becomes known**, and it is reported if it names
one. -/
theorem Learns.root (hid : id < p.classes.length) (ht : t.Faithful p) (hinfo : t.info id = none)
    (hmem : id ∉ chain) (hchain : ∀ c ∈ chain, t.info c = none) (hc : p.classes[id]? = some c)
    (hsuper : p.superOf id = none) :
    Learns p fallback t chain id ⟨⟨t.names, t.infos.set id (some (flatten id c none none))⟩,
      (p.superclassError? fallback id).toList, some (flatten id c none none), none⟩ := by
  have hconflicts : p.overrideConflicts fallback id = [] := by
    simp [Program.overrideConflicts, hc, hsuper]
  have hisSuperclass (e : TypeError) (he : e ∈ (p.superclassError? fallback id).toList) :
      e.isUnknownSuperclass ∧ ¬ e.isCycle := by
    obtain ⟨d, -, hd⟩ := Option.bind_eq_some_iff.1 (Option.mem_toList.1 he)
    obtain ⟨name, -, rfl⟩ := Option.map_eq_some_iff.1 hd
    simp [TypeError.isUnknownSuperclass, TypeError.isCycle]
  have hlen : id < t.infos.length := ht.size ▸ hid
  refine Learns.set hid hinfo hmem ht (fun _ _ h => h) hchain
    hsuper.symm (.root hc hsuper) (.root hc hsuper)
    ⟨[id], [], .set hlen hinfo ?_ ?_ fun _ => ?_, fun before h => ?_⟩
  · exact List.filter_eq_nil_iff.2 fun e he => (hisSuperclass e he).2
  · exact List.filter_eq_self.2 fun e he => (hisSuperclass e he).1
  · rw [Program.classErrors, hconflicts, List.append_nil]
  · rw [List.append_nil]
    exact h.root hlen hsuper

/-- **What a climb does**: it makes its class known, or it unwinds a cycle that
a class of its chain closes. -/
theorem climb_cases (p : Program) (fallback : Pos) (chain : List ClassId) (id : ClassId)
    (t : ClassTable) (hid : id < p.classes.length) (ht : t.Faithful p) (hlinked : p.Linked chain id)
    (hchain : ∀ c ∈ chain, t.info c = none) :
    Learns p fallback t chain id (t.climb p fallback chain id) ∨
      ∃ start, Unwinds p fallback t chain id start (t.climb p fallback chain id) := by
  fun_induction ClassTable.climb p fallback chain id t with
  | case1 chain id info hinfo =>
    exact .inl ⟨rfl, ht, hchain, fun _ _ h => h, hinfo.symm, by simp [hinfo], [], [], .refl t, by simp⟩
  | case2 chain id _ hnone => exact absurd (List.getElem?_eq_none_iff.1 hnone) (Nat.not_le.2 hid)
  | case3 chain id hinfo c hc pos hmem =>
    -- The class stands on its own chain: it closes a cycle, and the unwinding begins.
    refine .inr ⟨id, rfl, rfl, by simp [Program.cycleError?, hc, pos], hmem,
      hlinked.inherits hmem, fun d hd => ?_, _, rfl, .start hc hlinked hmem, .start hc hlinked hmem⟩
    rcases List.mem_cons.1 (hlinked.mem_of_inherits hmem hd) with rfl | hd
    · exact hinfo
    · exact hchain d (List.takeWhile_subset _ hd)
  | case4 chain id hinfo c hc hmem found name s hfound above info hany ih =>
    obtain ⟨ext, hext, heq⟩ := Option.map_eq_some_iff.1 hfound
    obtain ⟨rfl, hlookup⟩ := Prod.mk.inj heq
    rw [ht.lookup] at hlookup
    have hsuper : p.superOf id = some s := by rw [extends_eq hc, hext]; exact hlookup
    rcases ih (Program.classId?_lt hlookup) (hlinked.cons hsuper)
        (List.forall_mem_cons.2 ⟨hinfo, hchain⟩) with hlearns | ⟨start, hunwinds⟩
    · simp [above, hlearns.reentered] at hany
    · -- Another class closes the cycle, so this one is passed with nothing kept of it.
      have hne : start ≠ id := by simpa [above, hunwinds.reentered] using hany
      obtain ⟨i, hi, hfields, hmethods⟩ := hunwinds.info
      refine .inr ⟨start, hunwinds.reentered, hunwinds.table, hunwinds.errors,
        (List.mem_cons.1 hunwinds.mem).resolve_left hne, hunwinds.cycle, hunwinds.fresh, _, rfl, ?_, ?_⟩
      · simpa [info, flatten, above, hi] using hfields.declare hc hsuper hne
      · simpa [info, flatten, above, hi] using hmethods.declare hc hsuper hne
  | case5 chain id hinfo c hc pos hmem found name s hfound above info hany inherited ih =>
    obtain ⟨ext, hext, heq⟩ := Option.map_eq_some_iff.1 hfound
    obtain ⟨rfl, hlookup⟩ := Prod.mk.inj heq
    rw [ht.lookup] at hlookup
    have hsuper : p.superOf id = some s := by rw [extends_eq hc, hext]; exact hlookup
    have hnone : p.superclassError? fallback id = none := by
      simp [Program.superclassError?, hc, hext, hlookup, Option.filter]
    refine .inl ?_
    rcases ih (Program.classId?_lt hlookup) (hlinked.cons hsuper)
        (List.forall_mem_cons.2 ⟨hinfo, hchain⟩) with hlearns | ⟨start, hunwinds⟩
    · exact hlearns.inherit hid hinfo hmem hc hsuper hnone
    · obtain rfl : start = id := by simpa [above, hunwinds.reentered] using hany
      exact hunwinds.close hid ht hinfo hmem hchain hc hsuper hnone
  | case6 chain id hinfo c hc pos hmem found info hfound missing =>
    have hsuper : p.superOf id = none := by
      rw [extends_eq hc]
      cases hext : c.extends? with
      | none => rfl
      | some name =>
        cases hlookup : p.classId? name with
        | none => simpa using hlookup
        | some s => exact absurd (by simp [found, hext, ht.lookup, hlookup]) (hfound name s)
    have hmissing : missing = (p.superclassError? fallback id).toList := by
      cases hext : c.extends? with
      | none => simp [missing, found, hext, Program.superclassError?, hc]
      | some name =>
        have hlookup : p.classId? name = none := by simpa [extends_eq hc, hext] using hsuper
        simp [missing, found, hext, ht.lookup, hlookup, Program.superclassError?, hc, Option.filter, pos]
    rw [hmissing]
    exact .inl (.root hid ht hinfo hmem hchain hc hsuper)

end ClassTable

end ClassLang
