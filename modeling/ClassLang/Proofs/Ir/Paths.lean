import Mathlib.Data.Set.Insert
import ClassLang.Proofs.Ir.Emissions
/-!
# Intermediate form — definition before use

A `Walk` leads from the entry of a procedure to an instruction or to the end
of a block, and collects the temporaries that are given on the way.
`Proc.DefinesFirst` says that whatever is used at the end of a walk was
given on it. To prove it, walks are followed for a number of steps
(`Proc.Clear`), piece by piece: code is clear from a point on if its uses
are among what was given, and what comes behind it is clear then.
-/


namespace ClassLang.Ir

/-- **A walk** from the entry to an index in a block, and the temporaries
that are given on the way. -/
inductive Walk (q : Proc) : BlockId → Nat → List TempId → Prop
  | entry : Walk q 0 0 []
  | step {k i given ins} : Walk q k i given → q.instr? k i = some ins →
      Walk q k (i + 1) (ins.dst?.toList ++ given)
  | follow {k o given target} : q.blocks[k]? = some o → Walk q k o.instrs.length given →
      target ∈ o.terminator.successors → Walk q target 0 given

/-- **Every temporary is given before it is used**, whichever way leads to
the use. -/
structure Proc.DefinesFirst (q : Proc) : Prop where
  instrs : ∀ k i given ins, Walk q k i given → q.instr? k i = some ins →
    ∀ t, .temp t ∈ ins.operands → t ∈ given
  ends : ∀ (k : BlockId) o given, q.blocks[k]? = some o → Walk q k o.instrs.length given →
    ∀ t, .temp t ∈ o.terminator.operands → t ∈ given

/-- The operands are no temporaries but those given. -/
def Available (given : Set TempId) (vs : List Operand) : Prop := ∀ t, .temp t ∈ vs → t ∈ given

/-- No walk of so many steps that goes on from here, where temporaries were
given, uses another before it is given. -/
def Proc.Clear (q : Proc) : Nat → BlockId → Nat → Set TempId → Prop
  | 0, _, _, _ => True
  | n + 1, k, i, given => ∀ o, q.blocks[k]? = some o →
      (∀ ins, o.instrs[i]? = some ins → Available given ins.operands ∧
        q.Clear n k (i + 1) {t | ins.dst? = some t ∨ t ∈ given}) ∧
      (i = o.instrs.length → Available given o.terminator.operands ∧
        ∀ target ∈ o.terminator.successors, q.Clear n target 0 given)

section Clear

variable {q : Proc} {n m : Nat} {k : BlockId} {i : Nat} {given given' : Set TempId}

theorem Available.mono {vs : List Operand} (h : Available given vs) (hle : given ⊆ given') :
    Available given' vs := fun t ht => hle (h t ht)

theorem available_nil : Available given [] := by simp [Available]

theorem available_cons {v : Operand} {vs : List Operand} :
    Available given (v :: vs) ↔ Available given [v] ∧ Available given vs := by
  simp [Available, or_imp, forall_and]

/-- More that was given does no harm. -/
theorem Proc.Clear.mono (h : q.Clear n k i given) (hle : given ⊆ given') :
    q.Clear n k i given' := by
  induction n generalizing k i given given' with
  | zero => trivial
  | succ n ih =>
    refine fun o ho => ⟨fun ins hi => ?_, fun hi => ?_⟩
    · obtain ⟨huses, hrest⟩ := (h o ho).1 ins hi
      exact ⟨huses.mono hle, ih hrest fun t ht => ht.imp_right (hle ·)⟩
    · obtain ⟨huses, hrest⟩ := (h o ho).2 hi
      exact ⟨huses.mono hle, fun target ht => ih (hrest target ht) hle⟩

/-- Whatever is clear from the entry on stays so along walks. -/
theorem Walk.clear {given : List TempId} (h : Walk q k i given) (hentry : ∀ n, q.Clear n 0 0 ∅) :
    ∀ n, q.Clear n k i {t | t ∈ given} := by
  induction h with
  | entry => exact fun n => (hentry n).mono (Set.empty_subset _)
  | step _ hins ih =>
    intro n
    obtain ⟨o, ho, hi⟩ := Option.bind_eq_some_iff.1 hins
    refine ((ih (n + 1) o ho).1 _ hi).2.mono fun t ht => ?_
    exact List.mem_append.2 (ht.imp_left Option.mem_toList.2)
  | follow ho _ htarget ih => exact fun n => ((ih (n + 1) _ ho).2 rfl).2 _ htarget

/-- **What is clear from the entry on defines first.** -/
theorem Proc.definesFirst_of_clear (h : ∀ n, q.Clear n 0 0 ∅) : q.DefinesFirst := by
  refine ⟨fun k i given ins hwalk hins t ht => ?_, fun k o given ho hwalk t ht => ?_⟩
  · obtain ⟨o, ho, hi⟩ := Option.bind_eq_some_iff.1 hins
    exact ((hwalk.clear h 1 o ho).1 ins hi).1 t ht
  · exact ((hwalk.clear h 1 o ho).2 rfl).1 t ht

end Clear

/-! ## Piece by piece -/

/-- The code is clear from the point on. -/
def Proc.ClearAt (q : Proc) (n : Nat) (pt : Point) (given : Set TempId) : Prop :=
  q.Clear n pt.block pt.index given

/-- What the entry block has given on the way to the point: all that it
gives, if the point is in another block. -/
def Proc.Passed (q : Proc) (pt : Point) (given : Set TempId) : Prop :=
  ∀ j ins t, q.instr? 0 j = some ins → ins.dst? = some t → (pt.block = 0 → j < pt.index) → t ∈ given

section Pieces

variable {q : Proc} {n : Nat} {pt : Point} {given : Set TempId}

theorem Proc.passed_start (q : Proc) : q.Passed ⟨0, 0, 0⟩ ∅ := fun _ _ _ _ _ h =>
  absurd (h rfl) (Nat.not_lt_zero _)

/-- The entry block has given no more at the start of a block than at its end. -/
theorem Proc.Passed.enter {k target : BlockId} {temps temps' : Nat} {o : Block}
    (h : q.Passed ⟨temps, k, o.instrs.length⟩ given) (ho : q.blocks[k]? = some o) :
    q.Passed ⟨temps', target, 0⟩ given := by
  refine fun j ins t hins hdst _ => h j ins t hins hdst fun h0 => ?_
  obtain rfl : k = 0 := h0
  rw [Proc.instr?, ho] at hins
  exact (List.getElem?_eq_some_iff.1 hins).1

theorem Proc.Passed.next {ins : Instr} (h : q.Passed pt given) (hat : q.At pt ins) {temps : Nat} :
    q.Passed ⟨temps, pt.block, pt.index + 1⟩ {t | ins.dst? = some t ∨ t ∈ given} := by
  intro j other t hother hdst hlt
  by_cases hj : pt.block = 0 ∧ j = pt.index
  · obtain ⟨h0, rfl⟩ := hj
    have hat : q.instr? 0 pt.index = some ins := h0 ▸ hat
    exact .inl (Option.some.inj (hat.symm.trans hother) ▸ hdst)
  · refine .inr (h j other t hother hdst fun h0 => ?_)
    have hlt : j < pt.index + 1 := hlt h0
    have hne : j ≠ pt.index := fun heq => hj ⟨h0, heq⟩
    omega

/-- **An instruction**: what it uses was given, and it may give something. -/
theorem Proc.clearAt_at {ins : Instr} (hat : q.At pt ins) (huses : Available given ins.operands)
    (hrest : ∀ m < n, q.Clear m pt.block (pt.index + 1) {t | ins.dst? = some t ∨ t ∈ given}) :
    q.ClearAt n pt given := by
  cases n with
  | zero => trivial
  | succ n =>
    intro o ho
    have hins : o.instrs[pt.index]? = some ins := by
      rw [Proc.At, Proc.instr?, ho] at hat
      exact hat
    refine ⟨fun ins' hins' => ?_, fun hend => ?_⟩
    · obtain rfl := Option.some.inj (hins.symm.trans hins')
      exact ⟨huses, hrest n (Nat.lt_succ_self n)⟩
    · rw [hend, List.getElem?_eq_none (Nat.le_refl _)] at hins
      cases hins

/-- **The end of a block**: what it uses was given. Slots before it use
nothing, and if they are in the entry block, other blocks need them. -/
theorem Proc.clearAt_ends {t : Terminator} (hends : q.Ends pt t) (hpassed : q.Passed pt given)
    (huses : Available given t.operands)
    (hrest : ∀ m < n, ∀ target ∈ t.successors, ∀ given', given ⊆ given' →
      (∀ temps, q.Passed ⟨temps, target, 0⟩ given') → q.Clear m target 0 given') :
    q.ClearAt n pt given := by
  obtain ⟨o, ho, rfl, -, hslots⟩ := hends
  -- By the number of slots before the end.
  induction hd : o.instrs.length - pt.index generalizing n pt given with
  | zero =>
    cases n with
    | zero => trivial
    | succ n =>
      intro o' ho'
      obtain rfl := Option.some.inj (ho.symm.trans ho')
      refine ⟨fun ins hins => ?_, fun hend => ⟨huses, fun target htarget => ?_⟩⟩
      · have := (List.getElem?_eq_some_iff.1 hins).1
        omega
      · refine hrest n (Nat.lt_succ_self n) target htarget given subset_rfl fun temps => ?_
        have hpassed : q.Passed ⟨pt.temps, pt.block, o.instrs.length⟩ given := hend ▸ hpassed
        exact hpassed.enter ho
  | succ d ih =>
    have hlt : pt.index < o.instrs.length := by omega
    have hat : q.At pt o.instrs[pt.index] := by
      rw [Proc.At, Proc.instr?, ho, Option.bind_some, List.getElem?_eq_getElem hlt]
    rw [List.drop_eq_getElem_cons hlt, List.forall_mem_cons] at hslots
    obtain ⟨dst, ty, hslot, -⟩ := hslots.1
    refine Proc.clearAt_at hat (by rw [hslot]; exact available_nil) fun m hm => ?_
    have hle : given ⊆ {t | (o.instrs[pt.index]).dst? = some t ∨ t ∈ given} := fun _ => .inr
    have hpassed' : q.Passed ⟨pt.temps, pt.block, pt.index + 1⟩ _ := hpassed.next hat
    exact ih hpassed' ho (huses.mono hle) (fun m' hm' target htarget given' hle' =>
      hrest m' (Nat.lt_trans hm' hm) target htarget given' (hle.trans hle')) hslots.2
      (by show _ - (_ + 1) = d; omega)

end Pieces

end ClassLang.Ir
