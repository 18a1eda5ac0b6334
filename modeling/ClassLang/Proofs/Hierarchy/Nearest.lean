import ClassLang.Proofs.Hierarchy.Resolution
import Mathlib.Data.List.Chain
/-!
# Hierarchy — the nearest declaration of a name

What a class sees of a name when nothing is known of the hierarchy: names
may repeat, superclasses may be missing, and a class may be above itself.
`Program.walk` is the way from a class up to its superclasses, which ends
where it comes back to a class, and `Program.nearest?` the last declaration
in the first class of the way that declares the name. `Program.Nearest` is
the same without a list of classes (`nearest?_eq_some_iff`): a way that
comes round has found nothing in any class of the cycle
(`Linked.mem_of_inherits`).
-/


namespace ClassLang

open Source (ClassDecl FunctionDecl Program)

/-- The last index of a name in a list. -/
def lastIdxOf? : List String → String → Option Nat
  | [], _ => none
  | first :: rest, name =>
    ((lastIdxOf? rest name).map (· + 1)).or (if first = name then some 0 else none)

/-- Later declarations take the place of earlier ones. -/
theorem get?_foldl_declare (id : ClassId) (name : String) (k : Nat) (names : List String)
    (t : Table String MemberRef) :
    ((names.zipIdx k).foldl (fun t (n, index) => t.insert n (⟨id, index⟩ : MemberRef)) t).get? name =
      ((lastIdxOf? names name).map fun i => (⟨id, k + i⟩ : MemberRef)).or (t.get? name) := by
  induction names generalizing k t with
  | nil => simp [lastIdxOf?]
  | cons first rest ih =>
    rw [List.zipIdx_cons, List.foldl_cons, ih, lastIdxOf?]
    cases lastIdxOf? rest name with
    | some i => simp [Nat.add_comm 1, Nat.add_assoc]
    | none =>
      by_cases h : first = name
      · simp [h]
      · simp [h, Table.get?_insert_of_ne]

/-- **A class sees its last own declaration** of a name, or else what it
inherits. -/
theorem get?_declareMembers_eq_or (id : ClassId) (names : List String)
    (inherited : Table String MemberRef) (name : String) :
    (declareMembers id names inherited).get? name =
      ((lastIdxOf? names name).map (⟨id, ·⟩)).or (inherited.get? name) := by
  rw [declareMembers, get?_foldl_declare]
  simp

namespace Source.Program

variable (p : Program)

/-- The last declaration of a name in a class itself. -/
def lastOwn? (names : ClassDecl → List String) (id : ClassId) (name : String) :
    Option MemberRef :=
  (p.classes[id]?.bind fun c => lastIdxOf? (names c) name).map (⟨id, ·⟩)

/-- A class that was not passed yet, and the classes above it up to one that
was. -/
def walkPast (passed : List ClassId) (id : ClassId) : List ClassId :=
  match _hdecl : p.classes[id]? with
  | none => []
  | some _ =>
    if _hpassed : id ∈ passed then []
    else
      match p.superOf id with
      | none => [id]
      | some above => id :: walkPast (id :: passed) above
termination_by (offChain p passed).length
decreasing_by exact length_offChain_lt _hdecl _hpassed

/-- The way from a class up to its superclasses. It ends at a class without
superclass, and goes round a cycle once. -/
def walk (id : ClassId) : List ClassId := p.walkPast [] id

/-- The last declaration of a name in the first class on the way up that
declares it. -/
def nearest? (names : ClassDecl → List String) (id : ClassId) (name : String) :
    Option MemberRef :=
  (p.walk id).findSome? (p.lastOwn? names · name)

/-- A declaration of a name is the last of its class, and no class below it
declares the name. -/
inductive Nearest (names : ClassDecl → List String) (name : String) : ClassId → MemberRef → Prop
  | own {id ref} : p.lastOwn? names id name = some ref → Nearest names name id ref
  | above {id s ref} : p.lastOwn? names id name = none → p.superOf id = some s →
      Nearest names name s ref → Nearest names name id ref

/-- A class, and the classes that a walk came through to it, nearest
first. -/
def Linked (chain : List ClassId) (id : ClassId) : Prop :=
  (id :: chain).IsChain fun a b => p.Extends b a

variable {p} {names : ClassDecl → List String} {name : String} {id s : ClassId}
  {ref ref' : MemberRef} {chain : List ClassId}

theorem lastOwn?_class (h : p.lastOwn? names id name = some ref) : ref.class_ = id := by
  obtain ⟨_, -, rfl⟩ := Option.map_eq_some_iff.1 h
  rfl

theorem Nearest.unique (h : p.Nearest names name id ref) (h' : p.Nearest names name id ref') :
    ref = ref' := by
  induction h with
  | own hown =>
    cases h' with
    | own hown' => exact Option.some.inj (hown.symm.trans hown')
    | above hnone => rw [hown] at hnone; cases hnone
  | above hnone hs _ ih =>
    cases h' with
    | own hown => rw [hown] at hnone; cases hnone
    | above _ hs' h' => exact ih (Option.some.inj (hs'.symm.trans hs) ▸ h')

/-- The declaration stands in a class above, which declares the name. -/
theorem Nearest.declared (h : p.Nearest names name id ref) :
    p.Inherits id ref.class_ ∧ p.lastOwn? names ref.class_ name = some ref := by
  induction h with
  | own hown =>
    obtain rfl := lastOwn?_class hown
    exact ⟨.refl, hown⟩
  | above _ hs _ ih => exact ⟨.head hs ih.1, ih.2⟩

/-! ## Chains -/

theorem Linked.cons (h : p.Linked chain id) (hs : p.superOf id = some s) :
    p.Linked (id :: chain) s :=
  .cons_cons hs h

/-- Every class of a chain is below the class that it leads to. -/
theorem Linked.inherits (h : p.Linked chain id) {c : ClassId} (hc : c ∈ chain) :
    Relation.TransGen p.Extends c id := by
  induction chain generalizing id with
  | nil => cases hc
  | cons first rest ih =>
    obtain ⟨hstep, hrest⟩ := List.isChain_cons_cons.1 h
    rcases List.mem_cons.1 hc with rfl | hc
    · exact .single hstep
    · exact (ih hrest hc).tail hstep

/-- **A chain that comes back holds its cycle**: what is above the class that
it comes back to is that class, or was passed behind it. -/
theorem Linked.mem_of_inherits (h : p.Linked chain id) (hid : id ∈ chain) {c : ClassId}
    (hc : p.Inherits id c) : c ∈ id :: chain.takeWhile (· ≠ id) := by
  have hbefore (first last : ClassId) (mid : List ClassId)
      (hlinked : (first :: (mid ++ [last])).IsChain fun a b => p.Extends b a) :
      ∀ c ∈ mid ++ [last], ∃ above ∈ first :: mid, p.Extends c above := by
    induction mid generalizing first with
    | nil => simpa using hlinked
    | cons second rest ih =>
      obtain ⟨hstep, hrest⟩ := List.isChain_cons_cons.1 hlinked
      intro c hc
      rcases List.mem_cons.1 hc with rfl | hc
      · exact ⟨first, List.mem_cons_self, hstep⟩
      · obtain ⟨above, habove, hup⟩ := ih second hrest c hc
        exact ⟨above, List.mem_cons_of_mem _ habove, hup⟩
  obtain ⟨mid, rest, heq, hmid⟩ := List.eq_append_cons_of_mem hid
  have htake : chain.takeWhile (· ≠ id) = mid := by
    rw [heq, List.takeWhile_append_of_pos fun c hc => by
      simpa using fun h : c = id => hmid (h ▸ hc)]
    simp
  have hlinked : (id :: (mid ++ [id])).IsChain fun a b => p.Extends b a := by
    have h : (id :: chain).IsChain fun a b => p.Extends b a := h
    rw [heq, show id :: (mid ++ id :: rest) = (id :: (mid ++ [id])) ++ rest by simp] at h
    exact h.left_of_append
  rw [htake]
  induction hc with
  | refl => exact List.mem_cons_self
  | tail _ hstep ih =>
    obtain ⟨above, habove, hup⟩ := hbefore id id mid hlinked _ (by
      rw [List.mem_append, List.mem_singleton]
      exact (List.mem_cons.1 ih).symm)
    exact Option.some.inj (hup.symm.trans hstep) ▸ habove

/-! ## Cycles -/

/-- From a class that is above itself the way leads back to it. -/
theorem inherits_back (hcycle : Relation.TransGen p.Extends id id) {c : ClassId}
    (hc : p.Inherits id c) : p.Inherits c id ∧ Relation.TransGen p.Extends c c := by
  induction hc with
  | refl => exact ⟨.refl, hcycle⟩
  | @tail b c _ hstep ih =>
    obtain ⟨next, hnext, hback⟩ := Relation.TransGen.head'_iff.1 ih.2
    obtain rfl : next = c := Option.some.inj (hnext.symm.trans hstep)
    exact ⟨hback.trans ih.1, .tail' hback hstep⟩

/-! ## Walks find the nearest declaration -/

theorem nearest_of_walkPast (passed : List ClassId) (id : ClassId)
    (h : (p.walkPast passed id).findSome? (p.lastOwn? names · name) = some ref) :
    p.Nearest names name id ref := by
  fun_induction walkPast p passed id with
  | case1 => simp at h
  | case2 => simp at h
  | case3 passed id _ _ _ hs => exact .own (by simpa using h)
  | case4 passed id _ _ _ above hs ih =>
    rw [List.findSome?_cons] at h
    cases hown : p.lastOwn? names id name with
    | some found =>
      rw [hown] at h
      exact .own (hown.trans h)
    | none =>
      rw [hown] at h
      exact .above hown hs (ih h)

theorem findSome?_walkPast (passed : List ClassId) (id : ClassId) (hlinked : p.Linked passed id)
    (hpassed : ∀ c ∈ passed, p.lastOwn? names c name = none)
    (h : p.Nearest names name id ref) :
    (p.walkPast passed id).findSome? (p.lastOwn? names · name) = some ref := by
  fun_induction walkPast p passed id with
  | case1 passed id hnone =>
    cases h with
    | own hown => simp [lastOwn?, hnone] at hown
    | above _ hs => simp [superOf, hnone] at hs
  | case2 passed id _ _ hmem =>
    -- The way has come round: every class above was passed, and none declares the name.
    obtain ⟨hup, hdecl⟩ := h.declared
    have hin : ref.class_ ∈ passed := by
      rcases List.mem_cons.1 (hlinked.mem_of_inherits hmem hup) with heq | hin
      · exact heq ▸ hmem
      · exact List.takeWhile_subset _ hin
    rw [hpassed _ hin] at hdecl
    cases hdecl
  | case3 passed id _ _ _ hs =>
    cases h with
    | own hown => simpa using hown
    | above _ hs' => rw [hs] at hs'; cases hs'
  | case4 passed id _ _ _ above hs ih =>
    rw [List.findSome?_cons]
    cases h with
    | own hown => rw [hown]
    | above hnone hs' h' =>
      obtain rfl := Option.some.inj (hs'.symm.trans hs)
      rw [hnone]
      exact ih (hlinked.cons hs) (List.forall_mem_cons.2 ⟨hnone, hpassed⟩) h'

/-- **The walk finds the nearest declaration.** -/
theorem nearest?_eq_some_iff : p.nearest? names id name = some ref ↔ p.Nearest names name id ref :=
  ⟨nearest_of_walkPast [] id, findSome?_walkPast [] id (.singleton id) (by simp)⟩

end Source.Program

end ClassLang
