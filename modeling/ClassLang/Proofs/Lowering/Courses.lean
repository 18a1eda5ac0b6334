import ClassLang.Proofs.Lowering.Changes
import ClassLang.Proofs.Lowering.Programs
/-!
# Lowering — courses of changes

A `Course` is a run of changes from one session to another, each fit for the
session that it finds. What holds of the tables holds at every point of a course
(`Course.memos`), and an allocator gets its body once (`Course.count_defines`).
Lowering is such a course (`exists_course`), as each of its functions goes from
change to change: types come in from the inside out (`ends_irTyWithin`), and an
allocator is noted before it gets its body (`ends_classAllocator`,
`ends_arrayAllocator`). The declarations and then each body take their part of it,
one after the other (`InTurn`).
-/


namespace ClassLang.Lowering

open Typing (Analysis)
open Ir (StructId ProcId)

section Courses

variable {a : Analysis} {s t u : Session}

/-- **A course of changes** from one session to another: every change fits the
session that it finds. -/
inductive Course (a : Analysis) : Session → List Change → Session → Prop
  | nil (s : Session) : Course a s [] s
  | cons {s t u : Session} {c changes} : c.Fits a s → c.perform.run s = .ok ((), t) →
      Course a t changes u → Course a s (c :: changes) u

namespace Course

variable {changes changes' : List Change}

theorem append (h : Course a s changes t) (h' : Course a t changes' u) :
    Course a s (changes ++ changes') u := by
  induction h with
  | nil => exact h'
  | cons hc hrun _ ih => exact .cons hc hrun (ih h')

/-- **A course can be parted** at every point. -/
theorem parted (h : Course a s (changes ++ changes') u) :
    ∃ t, Course a s changes t ∧ Course a t changes' u := by
  induction changes generalizing s with
  | nil => exact ⟨s, .nil s, h⟩
  | cons c rest ih =>
    cases h with
    | cons hc hrun h =>
      obtain ⟨t, hrest, h'⟩ := ih h
      exact ⟨t, .cons hc hrun hrest, h'⟩

/-- A course is a run of its changes. -/
theorem run (h : Course a s changes t) : (changes.forM Change.perform).run s = .ok ((), t) := by
  induction h with
  | nil => rfl
  | @cons s t u c changes _ hrun _ ih =>
    change (c.perform.run s >>= fun r => (changes.forM Change.perform).run r.2) = _
    rw [hrun]
    exact ih

/-- **What holds of the tables holds at every point**, and what is in them stays. -/
theorem memos (h : Course a s changes t) (hs : s.Memos a) : t.Memos a ∧ s.Retains t := by
  induction h with
  | nil => exact ⟨hs, .refl _⟩
  | cons hc hrun _ ih =>
    obtain ⟨hmemos, hretains⟩ := Change.step hs hc hrun
    obtain ⟨hmemos', hretains'⟩ := ih hmemos
    exact ⟨hmemos', hretains.trans hretains'⟩

open Classical in
/-- **An allocator gets its body once**: as often as the changes define it, and never
if it has a body at the start. A procedure that has a body does not become one. -/
theorem count_defines {proc : ProcId} (h : Course a s changes t) (hproc : t.Allocates proc) :
    (s.Defined proc → s.Allocates proc) ∧
      changes.countP (·.defines proc) + (if s.Defined proc then 1 else 0) =
        if t.Defined proc then 1 else 0 := by
  induction h with
  | nil => exact ⟨fun _ => hproc, Nat.zero_add _⟩
  | @cons s t u c changes hc hrun _ ih =>
    obtain ⟨hallocates, hcount⟩ := ih hproc
    have hback (hdefined : s.Defined proc) : s.Allocates proc :=
      Change.allocates_of_defined hc hrun hdefined (hallocates (Change.defined_mono hc hrun hdefined))
    refine ⟨hback, ?_⟩
    rw [List.countP_cons, ← hcount]
    cases hdefines : c.defines proc with
    | true =>
      -- An allocator with a body gets no other one.
      have hnot : ¬ s.Defined proc := fun hdefined => by
        cases c with
        | setBody id temps blocks =>
          obtain rfl := beq_iff_eq.1 hdefines
          exact hc.2 (hback hdefined) hdefined
        | _ => cases hdefines
      rw [if_pos rfl, if_neg hnot, if_pos (Change.defined_of_defines hc hrun hdefines)]
    | false =>
      have hiff : t.Defined proc ↔ s.Defined proc :=
        ⟨Change.defined_of_not_defines hrun hdefines, Change.defined_mono hc hrun⟩
      simp only [hiff, Bool.false_eq_true, if_false, Nat.add_zero]

end Course

/-! ## From session to session -/

/-- **The session becomes another** by a course of changes, if what should hold of
the tables holds there. -/
def Session.Becomes (a : Analysis) (s t : Session) : Prop :=
  s.Memos a → ∃ changes, Course a s changes t

namespace Session.Becomes

theorem refl (s : Session) : s.Becomes a s := fun _ => ⟨[], .nil s⟩

theorem trans (h : s.Becomes a t) (h' : t.Becomes a u) : s.Becomes a u := fun hs => by
  obtain ⟨changes, hcourse⟩ := h hs
  obtain ⟨changes', hcourse'⟩ := h' (hcourse.memos hs).1
  exact ⟨changes ++ changes', hcourse.append hcourse'⟩

instance : IsPreorder Session (Session.Becomes a) where
  refl := .refl
  trans _ _ _ := .trans

/-- **One change.** -/
theorem change {c : Change} (hrun : c.perform.run s = .ok ((), t))
    (hfits : s.Memos a → c.Fits a s) : s.Becomes a t := fun hs =>
  ⟨[c], .cons (hfits hs) hrun (.nil t)⟩

end Session.Becomes

theorem ends_run_modifyIr (change : Ir.Program → Except Ir.Error Ir.Program) (s : Session) :
    Ends Error.Reported (modifyIr change) s fun _ t => (modifyIr change).run s = .ok ((), t) := by
  cases hrun : (modifyIr change).run s with
  | ok r => exact .of_ok hrun rfl
  | error e => exact .of_error hrun ((ends_modifyIr (P := fun _ _ => True) fun _ _ => trivial).fault hrun)

/-! ## Computations in turn -/

/-- **Computations run in turn by the changes**: each starts where the one before it
ends, and runs as the changes that are its own. -/
inductive InTurn : Session → List (Build Unit) → List Change → Session → Prop
  | nil (s : Session) : InTurn s [] [] s
  | cons {s t u : Session} {x : Build Unit} {rest changes changes'} : x.run s = .ok ((), t) →
      (changes.forM Change.perform).run s = .ok ((), t) → InTurn t rest changes' u →
      InTurn s (x :: rest) (changes ++ changes') u

/-- **Computations in turn are a course** of which each takes its part. -/
theorem exists_inTurn {xs : List (Build Unit)}
    (h : ∀ x ∈ xs, Stays (fun _ => True) (Session.Becomes a) x) (s : Session) :
    Ends (fun _ => True) (forM xs id) s fun _ t => s.Memos a → ∃ changes,
      Course a s changes t ∧ InTurn s xs changes t := by
  induction xs generalizing s with
  | nil => exact fun _ => ⟨[], .nil s, .nil s⟩
  | cons x rest ih =>
    rw [List.forall_mem_cons] at h
    rw [List.forM_cons]
    refine ((h.1 s).and (Ends.run x s)).bind fun ⟨⟩ t ⟨hx, hrun⟩ => ?_
    refine (ih h.2 t).mono fun _ u hrest hs => ?_
    obtain ⟨changes, hcourse⟩ := hx hs
    obtain ⟨changes', hcourse', hturns⟩ := hrest (hcourse.memos hs).1
    exact ⟨changes ++ changes', hcourse.append hcourse', .cons hrun hcourse.run hturns⟩

/-! ### Bodies in turn -/

/-- Declares a program and lays its classes out, all that comes before its bodies. -/
def declarations (a : Analysis) (p : Source.Program) : Build Unit := do
  declareClasses p.classes
  declareFunctions a p.functions
  declareMethods a p.classes.zipIdx
  layOutClasses a p

/-- Lowers a free function, given with its index. -/
def functionLowering (a : Analysis) (options : Options) (f : Source.FunctionDecl × Nat) : Build Unit := do
  lowerBody a options false f.1 (← functionProc f.2)

/-- Lowers a method of a class, given with its index. -/
def methodLowering (a : Analysis) (options : Options) (c : ClassId) (m : Source.FunctionDecl × Nat) :
    Build Unit := do
  lowerBody a options true m.1 (← methodProc ⟨c, m.2⟩)

/-- **The computations that lower the bodies** of a program, in their order. -/
def lowerings (a : Analysis) (p : Source.Program) (options : Options) : List (Build Unit) :=
  p.functions.zipIdx.map (functionLowering a options) ++
    p.classes.zipIdx.flatMap fun c => c.1.methods.zipIdx.map (methodLowering a options c.2)

theorem lowerFunctions_eq (options : Options) (fs : List (Source.FunctionDecl × Nat)) :
    lowerFunctions a options fs = forM fs (functionLowering a options) := by
  induction fs with
  | nil => rfl
  | cons f rest ih => simp [lowerFunctions, functionLowering, ih]

theorem lowerMethods_eq (options : Options) (c : ClassId) (methods : List (Source.FunctionDecl × Nat)) :
    lowerMethods a options c methods = forM methods (methodLowering a options c) := by
  induction methods with
  | nil => rfl
  | cons m rest ih => simp [lowerMethods, methodLowering, ih]

theorem lowerClasses_eq (options : Options) (cs : List (Source.ClassDecl × Nat)) :
    lowerClasses a options cs =
      forM cs fun c => forM c.1.methods.zipIdx (methodLowering a options c.2) := by
  induction cs with
  | nil => rfl
  | cons c rest ih => simp [lowerClasses, lowerMethods_eq, ih]

theorem forM_flatMap {α β : Type} (xs : List α) (g : α → List β) (k : β → Build Unit) :
    forM (xs.flatMap g) k = forM xs fun x => forM (g x) k := by
  induction xs with
  | nil => rfl
  | cons x rest ih => simp [ih]

/-- A program is declared and laid out, and then its bodies are lowered. -/
theorem buildProgram_eq_lowerings (p : Source.Program) (options : Options) :
    buildProgram a p options = forM (declarations a p :: lowerings a p options) id := by
  simp only [buildProgram_eq_bodies, lowerFunctions_eq, lowerClasses_eq, lowerings, declarations,
    List.forM_cons, List.forM_append, List.forM_map, forM_flatMap, id]

/-! ## Types -/

/-- How many array types are below a type: older ones are made of no younger ones. -/
def rank : Ty → Nat
  | .array id => id + 1
  | _ => 0

theorem rank_elem_le {p : Source.Program} (h : Typing.TableOk p a.findings.table) (id : ArrayId) :
    rank (a.findings.table.elem id) ≤ id := by
  unfold TypeTable.elem
  cases helem : a.findings.table.elems[id]? with
  | none => exact Nat.zero_le id
  | some elem =>
    cases elem with
    | array inner => exact h.older id inner helem
    | _ => exact Nat.zero_le id

/-- **Types are made**: no allocator comes in, and no struct of arrays over a type of
the rank or a higher one. -/
structure Session.Typifies (a : Analysis) (bound : Nat) (s t : Session) : Prop where
  becomes : s.Becomes a t
  same : s.SameAllocators t
  below : ∀ elem, bound ≤ rank elem → t.arrayStructs.get? elem = s.arrayStructs.get? elem

theorem Session.Typifies.refl (bound : Nat) (s : Session) : s.Typifies a bound s :=
  ⟨.refl s, .refl s, fun _ _ => rfl⟩

theorem Session.Typifies.weaken {bound bound' : Nat} (h : s.Typifies a bound t)
    (hle : bound ≤ bound') : s.Typifies a bound' t :=
  ⟨h.becomes, h.same, fun elem helem => h.below elem (Nat.le_trans hle helem)⟩

theorem ends_classLayout (id : ClassId) (s : Session) :
    Ends Error.Reported (classLayout id) s fun layout t => s.classes[id]? = some layout ∧ t = s :=
  .get_bind (.lift (fun _ h => ⟨eq_some_of_orFault h, rfl⟩)
    (reported_orFault fun _ _ h => nomatch h))

/-- A struct of arrays that is made gets its fields and is noted. -/
theorem becomes_withArray {elem : Ty} {target : Ir.Ty} (hnew : s.arrayStructs.get? elem = none)
    (htarget : s.valueTy? a elem = some target) : s.Becomes a (s.withArray a elem target) := fun hs => by
  -- Structs in the table are there, and the new one comes behind them.
  have hfresh (other : Ty) : s.arrayStructs.get? other ≠ some s.ir.structs.length := fun hother => by
    obtain ⟨_, -, hdecl⟩ := hs.decls other _ hother
    exact Nat.lt_irrefl _ (List.getElem?_eq_some_iff.1 hdecl).1
  have hset : (Change.setFields s.ir.structs.length (arrayFields target)).perform.run
      { s with ir.structs := s.ir.structs ++ [⟨"array_" ++ mangle a.findings.table elem, []⟩] } =
        .ok ((), { s with ir.structs := s.ir.structs ++ [arrayDecl a elem target] }) := by
    have hyields : Yields (modifyIr (·.setFields s.ir.structs.length (arrayFields target)))
        { s with ir.structs := s.ir.structs ++ [⟨"array_" ++ mangle a.findings.table elem, []⟩] }
        fun _ t => t = { s with ir.structs := s.ir.structs ++ [arrayDecl a elem target] } :=
      yields_modifyIr (setFields_ok (List.getElem?_concat_length ..) _) (by simp [arrayDecl])
    obtain ⟨⟨⟩, _, hrun, rfl⟩ := hyields
    exact hrun
  refine ⟨[.addStruct _, .setFields _ _, .noteStruct elem s.ir.structs.length],
    .cons trivial rfl (.cons hfresh hset (.cons ⟨hnew, ⟨by simp, hfresh⟩, fun layout hlayout => ?_,
      target, htarget, by simp⟩ rfl (.nil _)))⟩
  obtain ⟨hinstance, hvtable⟩ := hs.layouts layout hlayout
  exact ⟨(Nat.ne_of_lt hinstance.1).symm, (Nat.ne_of_lt hvtable.1).symm⟩

/-- **The struct of arrays**, found or made. -/
theorem ends_arrayStructOf {irTy : Ty → Build Ir.Ty} {elem : Ty}
    (h : Ends Error.Reported (irTy elem) s fun target t =>
      s.Typifies a (rank elem) t ∧ t.valueTy? a elem = some target) :
    Ends Error.Reported (arrayStructOf a irTy elem) s fun struct t =>
      s.Typifies a (rank elem + 1) t ∧ t.arrayStructs.get? elem = some struct := by
  refine .get_bind ?_
  cases hget : s.arrayStructs.get? elem with
  | some struct => exact ⟨.refl _ s, hget⟩
  | none =>
    refine h.bind fun target s₁ ⟨hmade, htarget⟩ => ?_
    -- The elements are of a lower rank, so they made no struct for these arrays.
    have hnew : s₁.arrayStructs.get? elem = none := by rw [hmade.below elem (Nat.le_refl _), hget]
    refine .of_yields (yields_addStruct_bind (.bind (yields_modifyIr (P := fun _ s₂ => s₂ = _)
      (setFields_ok (List.getElem?_concat_length ..) _) rfl) fun _ s₂ h₂ => .modify_bind (.pure ?_)))
    have heq : { s₂ with arrayStructs := s₂.arrayStructs.insert elem s₁.ir.structs.length } =
        s₁.withArray a elem target := by
      subst h₂
      simp [Session.withArray, arrayFields]
    rw [heq]
    refine ⟨⟨hmade.becomes.trans (becomes_withArray hnew htarget),
      hmade.same.trans ⟨rfl, rfl⟩, fun other hother => ?_⟩, Table.get?_insert_self _ _ _⟩
    have hne : elem ≠ other := fun heq => by
      rw [heq] at hother
      exact absurd hother (Nat.not_succ_le_self _)
    rw [Session.withArray, Table.get?_insert_of_ne _ _ hne]
    exact hmade.below other (Nat.le_of_succ_le hother)

/-- **The type of values**: it is the one that the tables tell, and only what the type
is made of comes in. -/
theorem ends_irTyWithin (helem : ∀ id, rank (a.findings.table.elem id) ≤ id) (n : Nat) (ty : Ty)
    (s : Session) : Ends Error.Reported (irTyWithin a n ty) s fun target t =>
      s.Typifies a (rank ty) t ∧ t.valueTy? a ty = some target := by
  have hclass (id : ClassId) (s : Session) : Ends Error.Reported (do
      return .ptr (.struct (← classLayout id).instance_)) s fun target t =>
        s.Typifies a (rank (.class_ id)) t ∧ t.valueTy? a (.class_ id) = some target :=
    (ends_classLayout id s).bind fun layout t ⟨hlayout, ht⟩ => by
      subst ht
      exact ⟨.refl _ t, by rw [Session.valueTy?, hlayout]; rfl⟩
  induction n generalizing s ty with
  | zero =>
    cases ty with
    | int | bool => exact ⟨.refl _ s, rfl⟩
    | class_ id => exact hclass id s
    | null | any | invalid | array => exact fun _ _ h => nomatch h
  | succ n ih =>
    cases ty with
    | int | bool => exact ⟨.refl _ s, rfl⟩
    | class_ id => exact hclass id s
    | array id =>
      exact (ends_arrayStructOf (ih _ s)).bind fun struct t ⟨hmade, hstruct⟩ =>
        ⟨hmade.weaken (Nat.succ_le_succ (helem id)), by rw [Session.valueTy?, hstruct]; rfl⟩
    | null | any | invalid => exact fun _ _ h => nomatch h

section Types

variable (helem : ∀ id, rank (a.findings.table.elem id) ≤ id)

include helem

theorem ends_irTy (ty : Ty) (s : Session) : Ends Error.Reported (irTy a ty) s fun target t =>
    s.Typifies a (rank ty) t ∧ t.valueTy? a ty = some target :=
  ends_irTyWithin helem _ ty s

theorem ends_arrayStruct (elem : Ty) (s : Session) :
    Ends Error.Reported (arrayStruct a elem) s fun struct t =>
      s.Typifies a (rank elem + 1) t ∧ t.arrayStructs.get? elem = some struct :=
  ends_arrayStructOf (ends_irTy helem elem s)

/-- A type that is written asks for no allocator. -/
theorem ends_irTyOf (ty : Source.TypeExpr) (s : Session) : Ends Error.Reported (irTyOf a ty) s fun _ t =>
    s.Becomes a t ∧ s.SameAllocators t :=
  Ends.bind (P := fun _ t => t = s) (.lift (fun _ _ => rfl) (reported_orFault fun _ _ h => nomatch h))
    fun ty t ht => by
      subst ht
      exact (ends_irTy helem ty t).mono fun _ _ h => ⟨h.1.becomes, h.1.same⟩

theorem becomes_irTyOf (ty : Source.TypeExpr) : Tame (Session.Becomes a) (irTyOf a ty) := fun s =>
  (ends_irTyOf helem ty s).mono fun _ _ => And.left

theorem becomes_irParams (params : List Source.VarDecl) :
    Tame (Session.Becomes a) (irParams a params) := by
  induction params with
  | nil => exact .pure _
  | cons param rest ih =>
    exact .bind (becomes_irTyOf helem _) fun _ =>
      .bind ih fun _ => .pure _

end Types

/-! ## Bodies -/

/-- A body that is built has blocks. -/
theorem blocks_finish_ne {b : Ir.Builder} (h : b.InRange) (missing : String) :
    (b.finish missing).2 ≠ [] := by
  have hentry : 0 < (b.finish missing).2.length := by
    unfold Ir.Builder.finish
    rw [List.length_map]
    split
    · exact (Ir.Builder.ranges_terminate [] b _ ⟨h, List.forall_mem_nil _⟩).1.entry
    · exact h.entry
  exact List.ne_nil_of_length_pos hentry

theorem Allocates.inRange {b : Ir.Builder} (h : Allocates b) : b.InRange := by
  have hranges {faults : List Semantics.Fault} {x : Emit Unit} {params : List Ir.Field} {ret : Ir.Ty}
      (hx : Emit.Adds (fun ks ks' _ => Ir.Builder.Ranges ks ks') [] faults x fun _ => [])
      (hrun : x.run (.start params ret) = .ok ((), b)) : b.InRange :=
    ((hx _).result hrun ⟨Ir.Builder.inRange_start _ _, List.forall_mem_nil _⟩).1
  cases h with
  | object hrun => exact hranges (Emit.adds_objectBody _ _ _ _) hrun
  | array hrun => exact hranges (Emit.adds_arrayBody _ _ _) hrun

theorem ends_defineProc_change (id : ProcId) (b : Ir.Builder) (s : Session) :
    Ends Error.Reported (defineProc id b) s fun _ t => ∃ missing, (Change.setBody id
      (b.finish missing).1 (b.finish missing).2).perform.run s = .ok ((), t) :=
  (ends_procDecl (Q := fun _ t => t = s) fun _ _ => rfl).bind fun decl t ht => by
    subst ht
    exact (ends_run_modifyIr _ t).mono fun _ u hrun => ⟨_, hrun⟩

/-- **A procedure gets its body**, which fits if it is no allocator that has one. -/
theorem becomes_defineProc {b : Ir.Builder} (hb : b.InRange) {id : ProcId}
    (hfits : s.Memos a → s.Allocates id → ¬ s.Defined id) :
    Ends Error.Reported (defineProc id b) s fun _ t => s.Becomes a t ∧ s.SameAllocators t :=
  (ends_defineProc_change id b s).mono fun _ t ⟨missing, hrun⟩ => by
    refine ⟨.change hrun fun hs => ⟨blocks_finish_ne hb _, hfits hs⟩, ?_⟩
    obtain ⟨_, -, rfl⟩ := Change.eq_of_setBody hrun
    exact ⟨rfl, rfl⟩

/-- **An allocator is declared and noted** before it gets its body. -/
theorem becomes_withAllocator {made : Made} (hnew : s.allocator? made = none) (name : String)
    (ret : Ir.Ty) (params : List Ir.Field) : s.Becomes a
      ((s.withDeclared name ret params).withAllocator s.ir.procs.length made) := fun hs => by
  have hbound {proc : ProcId} (h : proc < s.ir.procs.length) : proc ≠ s.ir.procs.length := Nat.ne_of_lt h
  refine ⟨[.declareProc name ret params, .noteAllocator made s.ir.procs.length],
    .cons trivial rfl (.cons ⟨?_, by simp, ⟨fun h => ?_, fun ref h => ?_⟩,
      fun h => ?_, fun ⟨q, hq, hblocks⟩ => ?_⟩ rfl (.nil _))⟩
  · cases made <;> exact hnew
  · exact Nat.lt_irrefl _ (hs.functions _ h)
  · exact Nat.lt_irrefl _ (hs.methods ref _ h)
  · exact Nat.lt_irrefl _ (hs.bounded _ (h.imp fun made hmade => by cases made <;> exact hmade))
  · rcases getElem?_append_singleton hq with hq | ⟨-, rfl⟩
    · exact Nat.lt_irrefl _ (List.getElem?_eq_some_iff.1 hq).1
    · exact hblocks rfl

/-- **What is asked for is there**, and no other allocator comes in. -/
structure Session.Finds (a : Analysis) (made : Made) (s : Session) (proc : ProcId) (t : Session) :
    Prop where
  becomes : s.Becomes a t
  found : t.allocator? made = some proc
  others : ∀ other ≠ made, t.allocator? other = s.allocator? other

theorem Session.Finds.refl {made : Made} {proc : ProcId} (h : s.allocator? made = some proc) :
    s.Finds a made proc s := ⟨.refl s, h, fun _ _ => rfl⟩

theorem ends_noteAllocator_bind {β : Type} {F : Error → Prop} (made : Made) {name : String}
    {ret : Ir.Ty} {params : List Ir.Field} {k : ProcId → Build β} {P : β → Session → Prop}
    (h : Ends F (k s.ir.procs.length)
      ((s.withDeclared name ret params).withAllocator s.ir.procs.length made) P) :
    Ends F (declareProc name ret params >>= fun proc => modify (·.withAllocator proc made) >>=
      fun _ => k proc) s P := h

/-- **An allocator that is missing** is declared, noted and defined. -/
theorem ends_withAllocator {made : Made} (hnew : s.allocator? made = none) (name : String)
    (ret : Ir.Ty) (params : List Ir.Field) {body : Ir.Program → Emit Unit}
    (hbody : ∀ p params ret b, (body p).run (.start params ret) = .ok ((), b) → Allocates b) :
    Ends Error.Reported (defineWith s.ir.procs.length body)
      ((s.withDeclared name ret params).withAllocator s.ir.procs.length made)
      fun _ t => s.Finds a made s.ir.procs.length t := by
  have hnoted := becomes_withAllocator (a := a) hnew name ret params
  have hother (other : Made) (hne : other ≠ made) :
      ((s.withDeclared name ret params).withAllocator s.ir.procs.length made).allocator? other =
        s.allocator? other := by
    rw [Session.allocator?_withAllocator_of_ne (Ne.symm hne)]
    cases other <;> rfl
  have hself : ((s.withDeclared name ret params).withAllocator s.ir.procs.length made).allocator? made =
      some s.ir.procs.length := Session.allocator?_withAllocator_self
  -- The procedure is declared last and has no body, so that it gets its first one.
  have hbare : ¬ ((s.withDeclared name ret params).withAllocator s.ir.procs.length made).Defined
      s.ir.procs.length := by
    rintro ⟨q, hq, hblocks⟩
    have hlast : (s.withDeclared name ret params).ir.procs[s.ir.procs.length]? =
        some ⟨name, ret, params, [], []⟩ := List.getElem?_concat_length ..
    have hsame : ((s.withDeclared name ret params).withAllocator s.ir.procs.length made).ir =
        (s.withDeclared name ret params).ir := by cases made <;> rfl
    rw [hsame, hlast] at hq
    exact hblocks (Option.some.inj hq ▸ rfl)
  generalize (s.withDeclared name ret params).withAllocator s.ir.procs.length made = s₁ at *
  refine (ends_procDecl (Q := fun _ t => t = s₁) fun _ _ => rfl).bind fun decl t ht => .get_bind ?_
  subst ht
  refine Ends.bind (P := fun r u => Allocates r.2 ∧ u = t) (.lift (fun r hr => ?_) reported_ofIr)
    fun r u ⟨hr, hu⟩ => ?_
  · cases hrun : (body t.ir).run (.start decl.params decl.ret) with
    | error e => rw [hrun] at hr; cases hr
    | ok r' => rw [hrun] at hr; cases hr; exact ⟨hbody _ _ _ _ hrun, rfl⟩
  · subst hu
    refine (becomes_defineProc hr.inRange fun _ _ => hbare).mono fun _ v ⟨hdefined, hsame⟩ =>
      ⟨hnoted.trans hdefined, ?_, fun other hne => ?_⟩
    · rw [Session.allocator?_congr hsame, hself]
    · rw [Session.allocator?_congr hsame, hother other hne]

/-- **The allocator of a class**, found or made. -/
theorem ends_classAllocator (id : ClassId) (s : Session) :
    Ends Error.Reported (classAllocator id) s fun proc t => s.Finds a (.object id) proc t := by
  refine .get_bind ?_
  cases hget : s.classAllocators.get? id with
  | some proc => exact .refl hget
  | none =>
    refine (ends_classLayout id s).bind fun layout s₁ ⟨_, hs₁⟩ => ?_
    subst hs₁
    refine ends_noteAllocator_bind (.object id) (.get_bind ?_)
    refine Ends.bind (P := fun _ t => t = _) (.lift (fun _ _ => rfl) reported_ofIr) fun struct t ht => ?_
    subst ht
    have hnew : s₁.allocator? (.object id) = none := hget
    exact (ends_withAllocator hnew _ _ _ fun _ _ _ _ => .object).bind fun _ t h => h

/-- **The allocator of arrays**, found or made. -/
theorem ends_arrayAllocator (helem : ∀ id, rank (a.findings.table.elem id) ≤ id) (elem : Ty)
    (s : Session) :
    Ends Error.Reported (arrayAllocator a elem) s fun proc t => s.Finds a (.array elem) proc t := by
  refine .get_bind ?_
  cases hget : s.arrayAllocators.get? elem with
  | some proc => exact .refl hget
  | none =>
    refine (ends_arrayStruct helem elem s).bind fun struct s₁ ⟨h₁, _⟩ =>
      (ends_irTy helem elem s₁).bind fun target s₂ ⟨h₂, _⟩ => ?_
    have hsame : s.SameAllocators s₂ := h₁.same.trans h₂.same
    have hget₂ : s₂.allocator? (.array elem) = none := by rw [Session.allocator?_congr hsame]; exact hget
    refine ends_noteAllocator_bind (.array elem) ?_
    exact (ends_withAllocator hget₂ _ _ _ fun _ _ _ _ => .array).bind fun _ t h =>
      ⟨(h₁.becomes.trans h₂.becomes).trans h.becomes,
        h.found, fun other hne => by rw [h.others other hne, Session.allocator?_congr hsame]⟩

/-- Functions and methods keep their procedures. -/
structure Session.SameOwners (s t : Session) : Prop where
  functions : t.functionProcs = s.functionProcs
  methods : t.methodProcs = s.methodProcs

instance : Lenient Session.SameOwners where
  refl _ := ⟨rfl, rfl⟩
  trans _ _ _ h h' := ⟨h'.functions.trans h.functions, h'.methods.trans h.methods⟩
  beside h := ⟨h.functionProcs, h.methodProcs⟩
  allocator h _ hrun := by
    obtain ⟨_, hset⟩ := (ends_defineProc_change _ _ _).result hrun
    obtain ⟨_, -, rfl⟩ := Change.eq_of_setBody hset
    exact ⟨h.functionProcs, h.methodProcs⟩

section Programs

variable (helem : ∀ id, rank (a.findings.table.elem id) ≤ id)

include helem

/-- **Bodies are lowered from change to change.** -/
theorem hosts_becomes : Hosts a (Session.Becomes a) where
  irTyOf := becomes_irTyOf helem
  classAllocator id s := (ends_classAllocator id s).mono fun _ _ h => h.becomes
  arrayAllocator elem s := (ends_arrayAllocator helem elem s).mono fun _ _ h => h.becomes

/-- **The body of a function or a method**, whose procedure is no allocator. -/
theorem becomes_lowerBody (options : Options) (inMethod : Bool) (f : Source.FunctionDecl)
    {proc : ProcId} (hproc : ¬ s.Spare proc) :
    Ends Error.Reported (lowerBody a options inMethod f proc) s fun _ t => s.Becomes a t := by
  have := hosts_becomes helem
  have hhosts : Hosts a fun s t => s.Becomes a t ∧ s.SameOwners t := Hosts.and a
  refine (ends_procDecl (Q := fun _ t => t = s) fun _ _ => rfl).bind fun decl s₁ hs => .get_bind ?_
  subst hs
  have hbody := adds_lowerFunction (R := fun s t => s.Becomes a t ∧ s.SameOwners t)
    (J := fun ks ks' _ => Ir.Builder.Ranges ks ks') a [] (Semantics.lineOf 0 f.pos) options
    (if inMethod then 1 else 0) f
    ⟨s₁, .start decl.params decl.ret, [], inMethod, Semantics.lineOf 0 f.pos⟩ rfl
  refine Ends.bind (P := fun r _ => (s₁.Becomes a r.2.session ∧ s₁.SameOwners r.2.session) ∧
      r.2.builder.InRange) (.lift (fun r hr => ?_) fun _ he => hbody.fault he) fun r _ ⟨hr, hrange⟩ => ?_
  · obtain ⟨-, hranges, hsession⟩ := hbody.result hr
    exact ⟨hsession, (hranges ⟨Ir.Builder.inRange_start _ _, List.forall_mem_nil _⟩).1⟩
  · refine (becomes_defineProc (s := r.2.session) hrange fun hs hallocates => ?_).mono fun _ t h =>
      hr.1.trans h.1
    exact absurd ((hs.spare proc hallocates).congr hr.2.functions.symm hr.2.methods.symm) hproc

omit helem

/-! ## Programs -/

/-- A struct without fields is none of arrays. -/
theorem Session.Memos.noArray (hs : s.Memos a) {struct : StructId} (name : String)
    (h : s.ir.structs[struct]? = some ⟨name, []⟩) : s.NoArray struct := by
  refine ⟨(List.getElem?_eq_some_iff.1 h).1, fun elem hget => ?_⟩
  obtain ⟨target, -, hdecl⟩ := hs.decls elem struct hget
  rw [h] at hdecl
  cases hdecl

theorem becomes_declareClasses (cs : List Source.ClassDecl) :
    Tame (Session.Becomes a) (declareClasses cs) := by
  induction cs with
  | nil => exact .pure _
  | cons c rest ih =>
    refine fun s => (ih _).mono fun _ t h => .trans ?_ h
    refine .trans (.change (c := .addStruct ("class_" ++ c.name)) rfl fun _ => trivial) <|
      .trans (.change (c := .addStruct ("vtable_" ++ c.name)) rfl fun _ => trivial) <|
      .trans (.change (c := .addGlobal _) rfl fun _ => trivial) <|
      .change (c := .addLayout _) rfl fun hs =>
        ⟨hs.noArray ("class_" ++ c.name) ?_, hs.noArray ("vtable_" ++ c.name) ?_⟩
    · exact (List.getElem?_append_left (by simp)).trans (List.getElem?_concat_length ..)
    · exact List.getElem?_concat_length ..

/-- A procedure that is declared is noted for its function or method. -/
theorem becomes_withDeclared {c : Change} {name : String} {ret : Ir.Ty} {params : List Ir.Field}
    (hc : ∀ u : Session, s.ir.procs.length < u.ir.procs.length ∧ ¬ u.Allocates s.ir.procs.length →
      c.Fits a u) (hrun : c.perform.run (s.withDeclared name ret params) = .ok ((), t)) :
    s.Becomes a t := fun hs => by
  refine ⟨[.declareProc name ret params, c],
    .cons trivial rfl (.cons (hc _ ⟨?_, fun h => ?_⟩) hrun (.nil t))⟩
  · simp
  · exact Nat.lt_irrefl _ (hs.bounded _ (h.imp fun made hmade => by cases made <;> exact hmade))

include helem

theorem becomes_declareFunctions (fs : List Source.FunctionDecl) :
    Tame (Session.Becomes a) (declareFunctions a fs) := by
  induction fs with
  | nil => exact .pure _
  | cons f rest ih =>
    refine .bind (becomes_irParams helem _) fun params => .bind (becomes_irTyOf helem _) fun ret s => ?_
    exact (ih _).mono fun _ t h =>
      (becomes_withDeclared (c := .noteFunction s.ir.procs.length) (fun _ hu => hu) rfl).trans h

theorem becomes_declareMethodsOf (id : ClassId) (c : Source.ClassDecl) (this : Ir.Ty)
    (methods : List (Source.FunctionDecl × Nat)) :
    Tame (Session.Becomes a) (declareMethodsOf a id c this methods) := by
  induction methods with
  | nil => exact .pure _
  | cons m rest ih =>
    refine .bind (becomes_irParams helem _) fun params => .bind (becomes_irTyOf helem _) fun ret s => ?_
    exact (ih _).mono fun _ t h =>
      (becomes_withDeclared (c := .noteMethod ⟨id, m.2⟩ s.ir.procs.length) (fun _ hu => hu) rfl).trans h

theorem becomes_declareMethods (cs : List (Source.ClassDecl × Nat)) :
    Tame (Session.Becomes a) (declareMethods a cs) := by
  induction cs with
  | nil => exact .pure _
  | cons c rest ih =>
    exact .bind (tame_classLayout _) fun _ => .bind (becomes_declareMethodsOf helem _ _ _ _) fun _ => ih

theorem becomes_layOutFields (id : ClassId) (first : Nat) (fields : List (Source.VarDecl × Nat)) :
    Tame (Session.Becomes a) (layOutFields a id first fields) := by
  induction fields with
  | nil => exact .pure _
  | cons field rest ih =>
    have hnoted : Tame (Session.Becomes a) (modify fun s =>
        { s with fieldSlots := s.fieldSlots.insert ⟨id, field.2⟩ (first + field.2) }) := fun s =>
      Session.Becomes.change (s := s) (c := .noteField ⟨id, field.2⟩ (first + field.2)) rfl fun _ => trivial
    exact .bind (becomes_irTyOf helem _) fun ty =>
      .bind hnoted fun _ => .bind ih fun _ => .pure _

theorem becomes_layOutClass (id : ClassId) (c : Source.ClassDecl) :
    Tame (Session.Becomes a) (layOutClass a id c) := by
  refine .bind (tame_inheritedLayout a id) fun inherited => .bind (becomes_layOutFields helem _ _ _)
    fun own => .bind (tame_layOutMethods _ _ _) fun entries => .bind (tame_vtableFields _) fun slots s => ?_
  refine (ends_classLayout id s).bind fun layout s₀ ⟨hlayout, hs₀⟩ => ?_
  subst hs₀
  have hmem := List.mem_of_getElem? hlayout
  refine (ends_run_modifyIr _ s₀).bind fun _ s₁ h₁ => (ends_run_modifyIr _ s₁).bind fun _ s₂ h₂ =>
    (ends_run_modifyIr _ s₂).bind fun _ s₃ h₃ => ?_
  have hb₁ : s₀.Becomes a s₁ := .change (c := .setFields layout.instance_ _) h₁ fun hs =>
    (hs.layouts layout hmem).1.2
  obtain ⟨_, -, rfl⟩ := Change.eq_of_setFields h₁
  have hb₂ := Session.Becomes.change (a := a) (c := .setFields layout.vtable _) h₂ fun hs =>
    (hs.layouts layout hmem).2.2
  obtain ⟨_, -, rfl⟩ := Change.eq_of_setFields h₂
  have hb₃ := Session.Becomes.change (a := a) (c := .setInit layout.vtableGlobal _) h₃ fun _ => trivial
  obtain ⟨_, rfl⟩ := Change.eq_of_setInit h₃
  refine hb₁.trans (hb₂.trans (hb₃.trans ?_))
  exact .change (c := .setLayout id { layout with entries := entries }) rfl
    fun _ => ⟨layout, hlayout, rfl, rfl⟩

theorem becomes_layOutEach (p : Source.Program) (ids : List ClassId) :
    Stays (fun _ => True) (Session.Becomes a) (layOutEach a p ids) := by
  induction ids with
  | nil => exact .pure _
  | cons id rest ih =>
    unfold layOutEach
    cases p.classes[id]? with
    | none => exact .bind (.throw trivial) fun _ => ih
    | some c =>
      exact .bind (fun s => (becomes_layOutClass helem id c s).weaken fun _ _ => trivial) fun _ => ih

theorem becomes_declarations (p : Source.Program) :
    Stays (fun _ => True) (Session.Becomes a) (declarations a p) := by
  have hreported {x : Build Unit} (h : Tame (Session.Becomes a) x) :
      Stays (fun _ => True) (Session.Becomes a) x := fun s => (h s).any
  exact .bind (hreported (becomes_declareClasses _)) fun _ =>
    .bind (hreported (becomes_declareFunctions helem _)) fun _ =>
    .bind (hreported (becomes_declareMethods helem _)) fun _ =>
    .bind (.lift fun _ _ => trivial) fun order => becomes_layOutEach helem p order

theorem becomes_lowerings (p : Source.Program) (options : Options) :
    ∀ x ∈ lowerings a p options, Stays (fun _ => True) (Session.Becomes a) x := by
  refine List.forall_mem_append.2 ⟨List.forall_mem_map.2 fun f _ s => ?_, fun x hx s => ?_⟩
  · refine (ends_functionProc f.2 s).any.bind fun proc t ⟨hproc, ht⟩ => ?_
    subst ht
    exact (becomes_lowerBody helem options false f.1
      fun hspare => hspare.1 (List.mem_of_getElem? hproc)).any
  · obtain ⟨c, -, hx⟩ := List.mem_flatMap.1 hx
    obtain ⟨m, -, rfl⟩ := List.mem_map.1 hx
    refine (ends_methodProc ⟨c.2, m.2⟩ s).any.bind fun proc t ⟨hproc, ht⟩ => ?_
    subst ht
    exact (becomes_lowerBody helem options true m.1 fun hspare => hspare.2 _ hproc).any

/-- **A program is lowered by a course of changes**, of which its declarations and
then each of its bodies take their part in turn. -/
theorem exists_course (p : Source.Program) (options : Options)
    (hrun : (buildProgram a p options).run .start = .ok ((), s)) : ∃ changes,
      Course a .start changes s ∧
        InTurn .start (declarations a p :: lowerings a p options) changes s := by
  rw [buildProgram_eq_lowerings] at hrun
  have hbecomes := List.forall_mem_cons.2 ⟨becomes_declarations helem p, becomes_lowerings helem p options⟩
  exact (exists_inTurn hbecomes .start).result hrun (Session.memos_start a)

end Programs

end Courses

end ClassLang.Lowering
