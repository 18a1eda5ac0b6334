import Mathlib
import ClassLang.Proofs.Lowering.Additions
import ClassLang.Proofs.Lowering.Declarations
import ClassLang.Proofs.Typing.NotedPrograms
/-!
# Lowering — with the analysis of another program

Classes, functions and nodes are known by number, so the analysis of one
program can be handed in with another program. What it does not know of that
program is looked up in vain and reported (`tame_lowerClasses` and the like),
with one exception: the order of the classes follows the superclasses of the
analysis, and one of them may be a class that the program does not have
(`ends_classOrder`). `outOfRange_iff` says when lowering gets there.
-/


namespace ClassLang.Lowering

open Source (Program TypeExpr ClassDecl FunctionDecl VarDecl)
open Typing (Analysis Denotes TableOk)

section Order

variable {p : Program} {t : ClassTable}

/-- The classes of the order are there, and so are their superclasses. -/
structure Closed (p : Program) (t : ClassTable) (order : List ClassId) : Prop where
  lt : ∀ c ∈ order, c < p.classes.length
  above : ∀ c ∈ order, ∀ s, t.superclass c = some s → s ∈ order

variable (p t) in
/-- The class is the superclass of a class of the program, but none itself. -/
def Missing (s : ClassId) : Prop :=
  p.classes.length ≤ s ∧ ∃ c < p.classes.length, t.superclass c = some s

/-- Where no class inherits from itself, a class comes into the order with all
its superclasses, or one of them is missing. -/
theorem ends_visit (hacyclic : ∀ c, ¬ Relation.TransGen (fun c s => t.superclass c = some s) c c)
    (chain : List ClassId) (id : ClassId) {order : List ClassId} (horder : Closed p t order)
    (hid : id < p.classes.length ∨ Missing p t id)
    (hchain : ∀ c ∈ chain, Relation.TransGen (fun c s => t.superclass c = some s) c id) :
    (∃ order', visit p t chain id order = .ok order' ∧ Closed p t order' ∧ order ⊆ order' ∧
      id ∈ order') ∨
    ∃ s, visit p t chain id order = .error (.classOutOfRange s p.classes.length) ∧
      Missing p t s := by
  -- The chain holds classes below `id`, so without cycles `id` is never on it; what the
  -- induction carries is that the order is closed under superclasses.
  induction chain, id using visit.induct p t order with
  | case1 chain id hnone =>
    have hge := List.getElem?_eq_none_iff.1 hnone
    refine .inr ⟨id, ?_, hid.resolve_left (Nat.not_lt.2 hge)⟩
    rw [visit]
    split
    next => rfl
    next hdecl => rw [hnone] at hdecl; cases hdecl
  | case2 chain id decl hdecl hmem =>
    refine .inl ⟨order, ?_, horder, List.Subset.refl _, hmem⟩
    rw [visit]
    split
    next hnone => rw [hdecl] at hnone; cases hnone
    next => rw [if_pos hmem]; rfl
  | case3 chain id decl hdecl hmem hcycle => exact absurd (hchain id hcycle) (hacyclic id)
  | case4 chain id decl hdecl hmem hnot s hs ih =>
    have hlt := (List.getElem?_eq_some_iff.1 hdecl).1
    have hrun : visit p t chain id order =
        (visit p t (id :: chain) s order >>= fun order => .ok (order ++ [id])) := by
      rw [visit]
      split
      next hnone => rw [hdecl] at hnone; cases hnone
      next =>
        rw [if_neg hmem, dif_neg hnot]
        simp only [hs]
        rfl
    -- The superclass is one of the program, or it is a missing one.
    have hs' : s < p.classes.length ∨ Missing p t s :=
      (Nat.lt_or_ge s p.classes.length).imp_right fun hge => ⟨hge, id, hlt, hs⟩
    have hchain' : ∀ c ∈ id :: chain,
        Relation.TransGen (fun c s => t.superclass c = some s) c s := fun c hc => by
      rcases List.mem_cons.1 hc with rfl | hc
      · exact .single hs
      · exact (hchain c hc).tail hs
    rcases ih hs' hchain' with ⟨above, habove, hclosed, hsub, hmem'⟩ | ⟨missing, herror, hmissing⟩
    · refine .inl ⟨above ++ [id], by rw [hrun, habove]; rfl, ⟨fun c hc => ?_, fun c hc s' hs' => ?_⟩,
        List.Subset.trans hsub (List.subset_append_left _ _), by simp⟩
      · rcases List.mem_append.1 hc with hc | hc
        · exact hclosed.lt c hc
        · exact List.mem_singleton.1 hc ▸ hlt
      · refine List.mem_append_left _ ?_
        rcases List.mem_append.1 hc with hc | hc
        · exact hclosed.above c hc s' hs'
        · rw [List.mem_singleton.1 hc, hs] at hs'
          exact Option.some.inj hs' ▸ hmem'
    · exact .inr ⟨missing, by rw [hrun, herror]; rfl, hmissing⟩
  | case5 chain id decl hdecl hmem hnot hnone =>
    have hlt := (List.getElem?_eq_some_iff.1 hdecl).1
    refine .inl ⟨order ++ [id], ?_, ⟨fun c hc => ?_, fun c hc s hs => ?_⟩,
      List.subset_append_left _ _, by simp⟩
    · rw [visit]
      split
      next hnone => rw [hdecl] at hnone; cases hnone
      next =>
        rw [if_neg hmem, dif_neg hnot]
        simp only [hnone]
        rfl
    · rcases List.mem_append.1 hc with hc | hc
      · exact horder.lt c hc
      · exact List.mem_singleton.1 hc ▸ hlt
    · rcases List.mem_append.1 hc with hc | hc
      · exact List.mem_append_left _ (horder.above c hc s hs)
      · rw [List.mem_singleton.1 hc, hnone] at hs
        cases hs

/-- **All classes come into the order**, or the superclass of one of them is
missing. -/
theorem ends_classOrder
    (hacyclic : ∀ c, ¬ Relation.TransGen (fun c s => t.superclass c = some s) c c) :
    (∃ order, classOrder p t = .ok order ∧ (∀ id ∈ order, id < p.classes.length) ∧
      ∀ s, ¬ Missing p t s) ∨
    ∃ s, classOrder p t = .error (.classOutOfRange s p.classes.length) ∧ Missing p t s := by
  have hfold (ids order : List ClassId) (horder : Closed p t order)
      (hids : ∀ id ∈ ids, id < p.classes.length) :
      (∃ order', ids.foldlM (fun order id => visit p t [] id order) order = .ok order' ∧
        Closed p t order' ∧ order ⊆ order' ∧ ids ⊆ order') ∨
      ∃ s, ids.foldlM (fun order id => visit p t [] id order) order =
        .error (.classOutOfRange s p.classes.length) ∧ Missing p t s := by
    induction ids generalizing order with
    | nil => exact .inl ⟨order, rfl, horder, List.Subset.refl _, List.nil_subset _⟩
    | cons id rest ih =>
      rw [List.forall_mem_cons] at hids
      rw [List.foldlM_cons]
      rcases ends_visit hacyclic [] id horder (.inl hids.1) (by simp) with
        ⟨order₁, hvisit, horder₁, hsub₁, hmem₁⟩ | ⟨s, herror, hs⟩
      · rw [hvisit]
        refine (ih order₁ horder₁ hids.2).imp_left fun ⟨order₂, hrest, horder₂, hsub₂, hall⟩ => ?_
        exact ⟨order₂, hrest, horder₂, List.Subset.trans hsub₁ hsub₂,
          List.cons_subset.2 ⟨hsub₂ hmem₁, hall⟩⟩
      · exact .inr ⟨s, by rw [herror]; rfl, hs⟩
  refine (hfold (List.range p.classes.length) [] ⟨by simp, by simp⟩
    fun id hid => List.mem_range.1 hid).imp_left fun ⟨order, hrun, horder, _, hall⟩ => ?_
  refine ⟨order, hrun, horder.lt, fun s ⟨hge, c, hc, hs⟩ => Nat.not_lt.2 hge ?_⟩
  exact horder.lt s (horder.above c (hall (List.mem_range.2 hc)) s hs)

end Order

/-! ## Signatures -/

/-- The type has a representation, given the analysis and the number of
classes that are laid out. -/
def Stands (a : Analysis) (n : Nat) : TypeExpr → Prop
  | .int | .bool => True
  | .class_ name => ∃ id < n, a.classes.lookup name = some id
  | .array elem => Stands a n elem ∧ (a.lookupType (.array elem)).isSome

/-- The types of the parameters and of the result have representations. -/
structure SignatureStands (a : Analysis) (n : Nat) (f : FunctionDecl) : Prop where
  params : ∀ param ∈ f.params, Stands a n param.ty
  ret : Stands a n f.returnType

/-- **The computation tests the condition**: it succeeds where the condition
holds, keeping the invariant, and fails where it does not. -/
def Tests {α : Type} (I : Session → Prop) (x : Build α) (A : Prop) : Prop :=
  ∀ s, I s → Ends (fun _ => ¬ A) x s fun _ s' => A ∧ I s'

namespace Tests

variable {α β : Type} {I : Session → Prop} {x : Build α} {A B : Prop}

theorem pure (v : α) : Tests I (Pure.pure v) True := fun _ hs => ⟨trivial, hs⟩

theorem bind {k : α → Build β} (hx : Tests I x A) (hk : ∀ v, Tests I (k v) B) :
    Tests I (x >>= k) (A ∧ B) := fun s hs =>
  ((hx s hs).weaken fun _ h h' => h h'.1).bind fun v s' ⟨ha, hs'⟩ =>
    ((hk v s' hs').weaken fun _ h h' => h h'.2).mono fun _ _ ⟨hb, hs''⟩ => ⟨⟨ha, hb⟩, hs''⟩

theorem congr (hx : Tests I x A) (h : A ↔ B) : Tests I x B := propext h ▸ hx

/-- What cannot fail tests nothing. -/
theorem modifyGet {f : Session → α × Session} (h : ∀ s, I s → I (f s).2) :
    Tests I (modifyGet f) True := fun s hs => ⟨trivial, h s hs⟩

theorem modify {f : Session → Session} (h : ∀ s, I s → I (f s)) : Tests I (modify f) True :=
  fun s hs => ⟨trivial, h s hs⟩

end Tests

section Signatures

variable {q : Program} {a : Analysis} {n : Nat}

/-- What the analysis finds for a written type stands for it. -/
theorem denotes_of_lookupType (hlookup : ∀ name, a.classes.lookup name = q.classId? name)
    {written : TypeExpr} {ty : Ty} (h : a.lookupType written = some ty) :
    Denotes q a.findings.table ty written := by
  induction written generalizing ty with
  | int => cases h; exact .int
  | bool => cases h; exact .bool
  | class_ name =>
    obtain ⟨id, hid, rfl⟩ := Option.map_eq_some_iff.1 h
    exact .class_ (hlookup name ▸ hid)
  | array elem ih =>
    obtain ⟨inner, hinner, harray⟩ := Option.bind_eq_some_iff.1 h
    obtain ⟨id, hid, rfl⟩ := Option.map_eq_some_iff.1 harray
    obtain ⟨hlt, hget, -⟩ := List.idxOf?_eq_some_iff.1 hid
    exact .array (List.getElem?_eq_some_iff.2 ⟨hlt, hget⟩) (ih hinner)

theorem Stands.isSome {written : TypeExpr} (h : Stands a n written) :
    (a.lookupType written).isSome := by
  cases written with
  | int | bool => rfl
  | class_ name =>
    obtain ⟨id, -, hid⟩ := h
    rw [Analysis.lookupType, hid]
    rfl
  | array elem => exact h.2

/-- While signatures are declared, `n` classes have layouts, and the structs of
arrays are there for types with a representation only. -/
structure Declaring (q : Program) (a : Analysis) (n : Nat) (s : Session) : Prop where
  size : s.classes.length = n
  arrays : ∀ ty struct, s.arrayStructs.get? ty = some struct →
    ∀ written, Denotes q a.findings.table ty written → Stands a n written

theorem tests_classLayout (id : ClassId) :
    Tests (Declaring q a n) (classLayout id) (id < n) := fun s hs => by
  cases hget : s.classes[id]? with
  | none =>
    have hrun : (classLayout id).run s = .error (.noLayout (.class_ id)) := by
      show (orFault (.noLayout (.class_ id)) s.classes[id]? >>= fun l => .ok (l, s)) = _
      rw [hget]
      rfl
    exact .of_error hrun (Nat.not_lt.2 (hs.size ▸ List.getElem?_eq_none_iff.1 hget))
  | some layout =>
    have hrun : (classLayout id).run s = .ok (layout, s) := by
      show (orFault (.noLayout (.class_ id)) s.classes[id]? >>= fun l => .ok (l, s)) = _
      rw [hget]
      rfl
    exact .of_ok hrun ⟨hs.size ▸ (List.getElem?_eq_some_iff.1 hget).1, hs⟩

theorem tests_arrayStructOf {irTy : Ty → Build Ir.Ty} {ty : Ty} {written : TypeExpr}
    (hd : Denotes q a.findings.table ty written)
    (hirTy : Tests (Declaring q a n) (irTy ty) (Stands a n written)) :
    Tests (Declaring q a n) (arrayStructOf a irTy ty) (Stands a n written) := fun s hs => by
  refine .get_bind ?_
  cases hget : s.arrayStructs.get? ty with
  | some id => exact ⟨hs.arrays ty id hget written hd, hs⟩
  | none =>
    refine (hirTy s hs).bind fun target s₁ ⟨hstands, hs₁⟩ => ?_
    -- The struct that was added just before is there to get its fields.
    refine .of_yields (yields_addStruct_bind (.bind (yields_modifyIr (P := fun _ s₂ => s₂ = _)
      (setFields_ok (List.getElem?_concat_length ..) _) rfl) fun _ s₂ h₂ =>
        .modify_bind (.pure ⟨hstands, ?_⟩)))
    subst h₂
    refine ⟨hs₁.size, fun other struct hother w hw => ?_⟩
    by_cases heq : ty = other
    · subst heq
      exact hd.right_unique hw ▸ hstands
    · rw [Table.get?_insert_of_ne _ _ heq] at hother
      exact hs₁.arrays other struct hother w hw

theorem tests_irTyWithin (ht : TableOk q a.findings.table)
    (hlookup : ∀ name, a.classes.lookup name = q.classId? name) (depth : Nat) {ty : Ty}
    {written : TypeExpr} (hd : Denotes q a.findings.table ty written)
    (hdepth : ∀ id, ty = .array id → id < depth) :
    Tests (Declaring q a n) (irTyWithin a depth ty) (Stands a n written) := by
  induction depth generalizing ty written with
  | zero =>
    cases hd with
    | int | bool => exact .pure _
    | @class_ name id hid =>
      refine ((tests_classLayout id).bind fun _ => .pure _).congr ?_
      simp [Stands, hlookup, hid]
    | array _ _ => exact absurd (hdepth _ rfl) (Nat.not_lt_zero _)
  | succ depth ih =>
    cases hd with
    | int | bool => exact .pure _
    | @class_ name id hid =>
      refine ((tests_classLayout id).bind fun _ => .pure _).congr ?_
      simp [Stands, hlookup, hid]
    | @array id elem written helem hd =>
      have helem' : a.findings.table.elem id = elem := by simp [TypeTable.elem, helem]
      have hinner : ∀ inner, elem = .array inner → inner < depth := fun inner heq =>
        Nat.lt_of_lt_of_le (ht.older id inner (heq ▸ helem)) (Nat.lt_succ_iff.1 (hdepth id rfl))
      have hknown : (a.lookupType (.array written)).isSome := by
        rw [Typing.lookupType_of_denotes ht hlookup (.array helem hd)]
        rfl
      rw [irTyWithin, helem']
      refine ((tests_arrayStructOf hd (ih hd hinner)).bind fun _ => .pure _).congr ?_
      simp [Stands, hknown]

/-- **A written type** has a type of the intermediate form exactly if it has a
representation. -/
theorem tests_irTyOf (ht : TableOk q a.findings.table)
    (hlookup : ∀ name, a.classes.lookup name = q.classId? name) (written : TypeExpr) :
    Tests (Declaring q a n) (irTyOf a written) (Stands a n written) := fun s hs => by
  cases hty : a.lookupType written with
  | none =>
    have hrun : (irTyOf a written).run s = .error (.unresolvedType written.text) := by
      unfold irTyOf
      rw [hty]
      rfl
    exact .of_error hrun fun h => by simpa [hty] using h.isSome
  | some ty =>
    have hd := denotes_of_lookupType hlookup hty
    have hrun : irTyOf a written = irTy a ty := by
      unfold irTyOf
      rw [hty]
      rfl
    rw [hrun]
    refine tests_irTyWithin ht hlookup _ hd (fun id heq => ?_) s hs
    subst heq
    cases hd with
    | array helem _ => exact Nat.lt_succ_of_lt (List.getElem?_eq_some_iff.1 helem).1

theorem tests_irParams (ht : TableOk q a.findings.table)
    (hlookup : ∀ name, a.classes.lookup name = q.classId? name) (params : List VarDecl) :
    Tests (Declaring q a n) (irParams a params) (∀ param ∈ params, Stands a n param.ty) := by
  induction params with
  | nil => exact (Tests.pure _).congr (by simp)
  | cons param rest ih =>
    refine ((tests_irTyOf ht hlookup param.ty).bind fun _ => ih.bind fun _ => .pure _).congr ?_
    simp

/-- What is declared for a function or a method. -/
theorem tests_signature {β : Type} (ht : TableOk q a.findings.table)
    (hlookup : ∀ name, a.classes.lookup name = q.classId? name) (f : FunctionDecl) {B : Prop}
    {k : List Ir.Field → Ir.Ty → Build β} (hk : ∀ params ret, Tests (Declaring q a n) (k params ret) B) :
    Tests (Declaring q a n) (do
      let params ← irParams a f.params
      let ret ← irTyOf a f.returnType
      k params ret) (SignatureStands a n f ∧ B) :=
  ((tests_irParams ht hlookup f.params).bind fun _ =>
    (tests_irTyOf ht hlookup f.returnType).bind fun _ => hk _ _).congr
      ⟨fun h => ⟨⟨h.1, h.2.1⟩, h.2.2⟩, fun h => ⟨h.1.1, h.1.2, h.2⟩⟩

theorem forall_mem_zipIdx {α : Type} {xs : List α} {P : α → Prop} :
    (∀ x ∈ xs.zipIdx, P x.1) ↔ ∀ x ∈ xs, P x := by
  rw [← List.forall_mem_map, List.zipIdx_map_fst]

theorem tests_declareFunctions (ht : TableOk q a.findings.table)
    (hlookup : ∀ name, a.classes.lookup name = q.classId? name) (fs : List FunctionDecl) :
    Tests (Declaring q a n) (declareFunctions a fs) (∀ f ∈ fs, SignatureStands a n f) := by
  induction fs with
  | nil => exact (Tests.pure _).congr (by simp)
  | cons f rest ih =>
    refine (tests_signature ht hlookup f fun params ret => ((Tests.modifyGet ?_).bind fun _ =>
      (Tests.modify ?_).bind fun _ => ih)).congr ?_
    · exact fun s hs => ⟨hs.size, hs.arrays⟩
    · exact fun s hs => ⟨hs.size, hs.arrays⟩
    · simp

theorem tests_declareMethodsOf (ht : TableOk q a.findings.table)
    (hlookup : ∀ name, a.classes.lookup name = q.classId? name) (id : ClassId) (c : ClassDecl)
    (this : Ir.Ty) (methods : List (FunctionDecl × Nat)) :
    Tests (Declaring q a n) (declareMethodsOf a id c this methods)
      (∀ m ∈ methods, SignatureStands a n m.1) := by
  induction methods with
  | nil => exact (Tests.pure _).congr (by simp)
  | cons m rest ih =>
    refine (tests_signature ht hlookup m.1 fun params ret => ((Tests.modifyGet ?_).bind fun _ =>
      (Tests.modify ?_).bind fun _ => ih)).congr ?_
    · exact fun s hs => ⟨hs.size, hs.arrays⟩
    · exact fun s hs => ⟨hs.size, hs.arrays⟩
    · simp

theorem tests_declareMethods (ht : TableOk q a.findings.table)
    (hlookup : ∀ name, a.classes.lookup name = q.classId? name) (cs : List (ClassDecl × Nat))
    (hcs : ∀ c ∈ cs, c.2 < n) :
    Tests (Declaring q a n) (declareMethods a cs)
      (∀ c ∈ cs, ∀ m ∈ c.1.methods, SignatureStands a n m) := by
  induction cs with
  | nil => exact (Tests.pure _).congr (by simp)
  | cons c rest ih =>
    rw [List.forall_mem_cons] at hcs
    refine ((tests_classLayout c.2).bind fun layout =>
      (tests_declareMethodsOf ht hlookup c.2 c.1 _ c.1.methods.zipIdx).bind fun _ => ih hcs.2).congr ?_
    rw [forall_mem_zipIdx, List.forall_mem_cons]
    exact and_iff_right hcs.1

end Signatures

/-! ## Programs -/

section Programs

variable {p q : Program} {printName : String}

/-- What is declared before the classes are laid out. -/
def declareProgram (a : Analysis) (p : Program) : Build Unit := do
  declareClasses p.classes
  declareFunctions a p.functions
  declareMethods a p.classes.zipIdx

/-- What is lowered when the order of the classes is known. -/
def lowerInOrder (a : Analysis) (p : Program) (options : Options) (order : List ClassId) :
    Build Unit := do
  layOutEach a p order
  lowerFunctions a options p.functions.zipIdx
  lowerClasses a options p.classes.zipIdx

theorem buildProgram_eq (a : Analysis) (p : Program) (options : Options) :
    buildProgram a p options = (do
      declareProgram a p
      let order ← (classOrder p a.classes : Except Error (List ClassId))
      lowerInOrder a p options order) := by
  simp only [buildProgram, declareProgram, layOutClasses, lowerInOrder, bind_assoc]

theorem tame_declareProgram (a : Analysis) (p : Program) :
    Tame (fun _ _ => True) (declareProgram a p) :=
  .bind (tame_declareClasses _) fun _ => .bind (tame_declareFunctions a _) fun _ =>
    tame_declareMethods a _

theorem tame_lowerInOrder (a : Analysis) (options : Options) {order : List ClassId}
    (horder : ∀ id ∈ order, id < p.classes.length) :
    Tame (fun _ _ => True) (lowerInOrder a p options order) :=
  .bind (tame_layOutEach a p horder) fun _ =>
    .bind (tame_lowerFunctions fun _ _ s proc _ => tame_lowerBody a options _ _ proc s) fun _ =>
    tame_lowerClasses fun _ _ _ _ s proc _ => tame_lowerBody a options _ _ proc s

/-- The signatures of all functions and methods have representations. -/
def SignaturesStand (a : Analysis) (p : Program) : Prop :=
  ∀ f ∈ p.functions ++ p.classes.flatMap (·.methods), SignatureStands a p.classes.length f

theorem ends_declareProgram {a : Analysis} (ht : TableOk q a.findings.table)
    (hlookup : ∀ name, a.classes.lookup name = q.classId? name) (p : Program) :
    Ends (fun _ => ¬ SignaturesStand a p) (declareProgram a p) .start
      fun _ _ => SignaturesStand a p := by
  have hclasses : Ends (fun _ => ¬ SignaturesStand a p) (declareClasses p.classes) .start
      fun _ s => Declaring q a p.classes.length s :=
    .of_yields <| (yields_declareClasses [] rfl (declaresClasses_start p)).mono fun _ s hs =>
      ⟨hs.size, fun ty struct h => by simp [hs.arrayStructs, Table.get?_nil] at h⟩
  have hrest : Tests (Declaring q a p.classes.length) (do
      declareFunctions a p.functions
      declareMethods a p.classes.zipIdx) (SignaturesStand a p) := by
    refine ((tests_declareFunctions ht hlookup p.functions).bind fun _ =>
      tests_declareMethods ht hlookup p.classes.zipIdx fun c hc => ?_).congr ?_
    · simpa using (List.mem_zipIdx' hc).1
    · rw [SignaturesStand, List.forall_mem_append, List.forall_mem_flatMap]
      exact and_congr_right' (forall_mem_zipIdx
        (P := fun c : ClassDecl => ∀ m ∈ c.methods, SignatureStands a p.classes.length m))
  exact hclasses.bind fun _ s hs => (hrest s hs).mono fun _ _ h => h.1

/-- **With the analysis of another program** that has no errors, lowering asks
for a class that is not there exactly if all signatures have representations and
a class of the program has, by the analysis, a superclass that is none of its
classes. Otherwise it yields a program or reports a fault. Bodies are lowered
into blocks that are there in any case. -/
theorem outOfRange_iff (hok : (Typing.analyze q ⟨printName⟩).ok = true) (p : Program)
    (options : Options) :
    ((∃ id count, lowerProgram (Typing.analyze q ⟨printName⟩) p options =
        .error (.classOutOfRange id count)) ↔
      SignaturesStand (Typing.analyze q ⟨printName⟩) p ∧
        ∃ s, Missing p (Typing.analyze q ⟨printName⟩).classes s) ∧
    ∀ (first : Nat) (f : FunctionDecl) (body body' : Body), body.builder.InRange →
      (lowerFunction (Typing.analyze q ⟨printName⟩) options first f).run body = .ok ((), body') →
        body'.builder.InRange := by
  refine ⟨?_, fun first f body body' hbody hrun => inRange_lowerFunction _ hrun hbody⟩
  have hq := Typing.WellTyped.of_ok hok
  have hdescribes : (Typing.analyze q ⟨printName⟩).classes.Describes q :=
    (hq.sound_programContext (q.pos.getD .origin)).classes
  have hacyclic : ∀ c, ¬ Relation.TransGen
      (fun c s => (Typing.analyze q ⟨printName⟩).classes.superclass c = some s) c c := by
    simp only [hdescribes.superclass]
    exact hq.classes.hierarchy.acyclic
  have hdeclare := ends_declareProgram (Typing.tableOk_analyze hok) hdescribes.lookup p
  generalize Typing.analyze q ⟨printName⟩ = a at hok hacyclic hdeclare ⊢
  have hrun : lowerProgram a p options =
      ((buildProgram a p options).run .start >>= fun r => .ok r.2.ir) := by
    rw [lowerProgram, hok]
    rfl
  have hbuild : (buildProgram a p options).run .start =
      ((declareProgram a p).run .start >>= fun r => classOrder p a.classes >>= fun order =>
        (lowerInOrder a p options order).run r.2) := by
    rw [buildProgram_eq, StateT.run_bind]
    refine bind_congr fun r => ?_
    cases classOrder p a.classes <;> rfl
  rw [hrun, hbuild]
  -- Declaring comes first and stops only at signatures; what is laid out then stops only at
  -- a superclass that is missing.
  cases hdeclared : (declareProgram a p).run .start with
  | error e =>
    have hreported := (tame_declareProgram a p .start).fault hdeclared
    refine iff_of_false ?_ fun h => hdeclare.fault hdeclared h.1
    rintro ⟨id, count, h⟩
    exact hreported id count (Except.error.inj h)
  | ok r =>
    have hstand := hdeclare.result hdeclared
    rcases ends_classOrder (p := p) hacyclic with ⟨order, horder, hlt, hnone⟩ | ⟨s, herror, hs⟩
    · refine iff_of_false ?_ fun ⟨_, s, hs⟩ => hnone s hs
      rintro ⟨id, count, h⟩
      rw [horder] at h
      change ((lowerInOrder a p options order).run r.2 >>= fun r => .ok r.2.ir) = _ at h
      cases hlowered : (lowerInOrder a p options order).run r.2 with
      | error e =>
        rw [hlowered] at h
        exact (tame_lowerInOrder a options hlt r.2).fault hlowered id count (Except.error.inj h)
      | ok r =>
        rw [hlowered] at h
        cases h
    · refine iff_of_true ⟨s, p.classes.length, ?_⟩ ⟨hstand, s, hs⟩
      rw [herror]
      rfl

/-- Two programs: the first class of one extends its second class, and the other
has one class only. -/
def extending : String := "class B extends C { } class C { } int main() { return 0; }"

@[inherit_doc extending]
def lone : String := "class A { } int main() { return 0; }"

set_option maxRecDepth 100000 in
theorem run_extending : (Source.parse extending).error? = none ∧
    (Typing.analyze (Source.parse extending).program .default).ok = true := by
  rw [Source.parse_eq_of_chars extending String.toList_ofList]
  decide +kernel

set_option maxRecDepth 100000 in
/-- The order of the classes asks for the class #1 of a program with one class. -/
theorem lowerProgram_lone : (Source.parse extending).error? = none ∧
    (Source.parse lone).error? = none ∧
    (Typing.analyze (Source.parse extending).program .default).ok = true ∧
    lowerProgram (Typing.analyze (Source.parse extending).program .default)
      (Source.parse lone).program .default = .error (.classOutOfRange 1 1) := by
  have hstops : (Source.parse lone).error? = none ∧
      (lowerProgram (Typing.analyze (Source.parse extending).program .default)
        (Source.parse lone).program .default).map (fun _ => ()) = .error (.classOutOfRange 1 1) := by
    rw [Source.parse_eq_of_chars extending String.toList_ofList,
      Source.parse_eq_of_chars lone String.toList_ofList]
    decide +kernel
  refine ⟨run_extending.1, hstops.1, run_extending.2, ?_⟩
  cases hrun : lowerProgram (Typing.analyze (Source.parse extending).program .default)
      (Source.parse lone).program .default with
  | error e => exact congrArg Except.error (Except.error.inj (hrun ▸ hstops.2))
  | ok ir => cases hrun ▸ hstops.2

set_option maxRecDepth 100000 in
theorem outOfRange_iff_lone :
    (Typing.analyze (Source.parse extending).program ⟨"printInt"⟩).ok = true ∧
    ((∃ id count, lowerProgram (Typing.analyze (Source.parse extending).program ⟨"printInt"⟩)
        (Source.parse lone).program ⟨true⟩ = .error (.classOutOfRange id count)) ↔
      SignaturesStand (Typing.analyze (Source.parse extending).program ⟨"printInt"⟩)
        (Source.parse lone).program ∧
        ∃ s, Missing (Source.parse lone).program
          (Typing.analyze (Source.parse extending).program ⟨"printInt"⟩).classes s) ∧
    ∀ (first : Nat) (f : FunctionDecl) (body body' : Body), body.builder.InRange →
      (lowerFunction (Typing.analyze (Source.parse extending).program ⟨"printInt"⟩) ⟨true⟩ first
        f).run body = .ok ((), body') → body'.builder.InRange := by
  exact ⟨run_extending.2, outOfRange_iff run_extending.2 _ ⟨true⟩⟩

end Programs

end ClassLang.Lowering
