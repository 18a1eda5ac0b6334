import ClassLang.Proofs.Ir.Operations
/-!
# Intermediate form — blocks that are closed

A block that is left rests: it gets slots at most until a run goes back to it
(`rests_after`). So an end that a block was closed with is the one that it has
when the body is finished, as long as no run goes back to a closed block, and
`stays_closed_iff` says that this is just what it takes: a body that goes back
to a closed block is open there, is written to, and puts another end in place
of the first one.
-/


namespace ClassLang.Ir.Builder

variable {b b' : Builder} {op : Operation} {ops pre post : List Operation} {k : BlockId}

/-- There is a current block, and it has no end. -/
def AtOpen (b : Builder) : Prop :=
  ∃ k o, b.current = some k ∧ b.blocks[k]? = some o ∧ o.terminator = none

/-- The operations go back to a block that has its end. -/
def Reopens (b : Builder) (ops : List Operation) : Prop :=
  ∃ pre k post o t, ops = pre ++ .switchTo k :: post ∧
    (b.after pre).blocks[k]? = some o ∧ o.terminator = some t

/-- **What is closed stays closed**, in the body that the operations make of one
and in the finished body. -/
structure StaysClosed (b : Builder) (ops : List Operation) (missing : String) : Prop where
  /-- The body is open exactly if there is a current block without end. -/
  isOpen : (b.after ops).isOpen = true ↔ (b.after ops).AtOpen
  /-- A block that was closed keeps its instructions, its slots apart, and its end. -/
  closed : ∀ pre t post, ops = pre ++ .terminate t :: post → ∃ o slots,
    (b.after pre).insertion.2.blocks[(b.after pre).insertion.1]? = some o ∧
    (∀ i ∈ slots, ∃ op ∈ post, op.Slot (b.after pre).insertion.1 i) ∧
    (b.after ops).blocks[(b.after pre).insertion.1]? =
      some ⟨o.name, o.instrs ++ slots, some t⟩ ∧
    ((b.after ops).finish missing).2[(b.after pre).insertion.1]? =
      some ⟨o.name, o.instrs ++ slots, t⟩
  /-- A block that never was closed halts. -/
  unclosed : ∀ k o, (b.after ops).blocks[k]? = some o →
    (∀ pre t post, ops = pre ++ .terminate t :: post → (b.after pre).insertion.1 ≠ k) →
    ((b.after ops).finish missing).2[k]? = some ⟨o.name, o.instrs, .halt missing⟩
  /-- The finished body has the blocks that were made, in their order. -/
  blocks : ((b.after ops).finish missing).2.map (·.name) = (b.after ops).labels
  made : ∀ pre, pre <+: ops → (b.after pre).labels <+: (b.after ops).labels
  numbered : ∀ pre name post, ops = pre ++ .newBlock name :: post →
    (b.after ops).labels[(b.after pre).blocks.length]? =
      some (name ++ "." ++ toString (b.after pre).blocks.length)
  nodup : (b.after ops).labels.Nodup

/-! ## Blocks that rest -/

/-- **A block that is left rests** until it is gone back to. -/
theorem rests_after {o : OpenBlock} (ho : b.blocks[k]? = some o) (hk : b.current ≠ some k)
    (hops : .switchTo k ∉ ops) : (b.after ops).current ≠ some k ∧
      ∃ slots, (b.after ops).blocks[k]? = some { o with instrs := o.instrs ++ slots } ∧
        ∀ i ∈ slots, ∃ op ∈ ops, op.Slot k i := by
  induction ops generalizing b o with
  | nil => exact ⟨hk, [], by rw [List.append_nil]; exact ho, fun i hi => by cases hi⟩
  | cons op ops ih =>
    rw [List.mem_cons, not_or] at hops
    obtain ⟨hop, hops⟩ := hops
    have hchange := b.change_step op
    obtain ⟨slots, ho', hslots⟩ := hchange.rests ho hk
    obtain ⟨hk', more, ho'', hmore⟩ := ih ho' (hchange.current_ne ho hk (Ne.symm hop)) hops
    refine ⟨hk', slots ++ more, by rw [after_cons, ho'', List.append_assoc], fun i hi => ?_⟩
    rcases List.mem_append.1 hi with hi | hi
    · exact ⟨op, List.mem_cons_self, hslots i hi⟩
    · obtain ⟨op', hmem, hslot⟩ := hmore i hi
      exact ⟨op', List.mem_cons_of_mem _ hmem, hslot⟩

/-- A block that nothing closes has no end. -/
theorem unended_after (hb : ∀ o, b.blocks[k]? = some o → o.terminator = none)
    (hops : ∀ pre t post, ops = pre ++ .terminate t :: post → (b.after pre).insertion.1 ≠ k)
    {o : OpenBlock} (ho : (b.after ops).blocks[k]? = some o) : o.terminator = none := by
  induction ops generalizing b with
  | nil => exact hb o ho
  | cons op ops ih =>
    refine ih (fun o' ho' => ?_) (fun pre t post heq => ?_) ho
    · have hop (t) (h : op = .terminate t) : b.insertion.1 ≠ k := hops [] t ops (h ▸ rfl)
      rcases (b.change_step op).ended ho' hop with ⟨o, ho, heq⟩ | ⟨-, hnone⟩
      · exact heq.trans (hb o ho)
      · exact hnone
    · exact hops (op :: pre) t post (by rw [heq, List.cons_append])

/-! ## Going back -/

theorem Reopens.append (h : (b.after pre).Reopens post) : b.Reopens (pre ++ post) := by
  obtain ⟨pre', k, post', o, t, rfl, ho, ht⟩ := h
  exact ⟨pre ++ pre', k, post', o, t, (List.append_assoc _ _ _).symm, by rwa [after_append], ht⟩

theorem Reopens.mono (h : b.Reopens pre) (hpre : pre <+: ops) : b.Reopens ops := by
  obtain ⟨rest, rfl⟩ := hpre
  obtain ⟨pre', k, post', o, t, rfl, ho, ht⟩ := h
  exact ⟨pre', k, post' ++ rest, o, t, by simp, ho, ht⟩

theorem reopens_cons : b.Reopens (op :: ops) ↔
    (∃ k o t, op = .switchTo k ∧ b.blocks[k]? = some o ∧ o.terminator = some t) ∨
      (b.step op).Reopens ops := by
  constructor
  · rintro ⟨pre, k, post, o, t, heq, ho, ht⟩
    cases pre with
    | nil =>
      obtain ⟨rfl, rfl⟩ := List.cons.inj heq
      exact .inl ⟨k, o, t, rfl, ho, ht⟩
    | cons op' pre =>
      obtain ⟨rfl, rfl⟩ := List.cons.inj heq
      exact .inr ⟨pre, k, post, o, t, rfl, ho, ht⟩
  · rintro (⟨k, o, t, rfl, ho, ht⟩ | h)
    · exact ⟨[], k, ops, o, t, rfl, ho, ht⟩
    · exact @Reopens.append b [op] ops h

theorem not_reopens_nil : ¬ b.Reopens [] := by
  rintro ⟨pre, k, post, o, t, heq, -⟩
  cases pre <;> cases heq

/-- A closed block that is left is gone back to only by what reopens it. -/
theorem not_mem_of_not_reopens {o : OpenBlock} {t : Terminator} (ho : b.blocks[k]? = some o)
    (ht : o.terminator = some t) (hk : b.current ≠ some k) (hops : ¬ b.Reopens ops) :
    .switchTo k ∉ ops := by
  intro hmem
  obtain ⟨pre, post, rfl, hpre⟩ := List.eq_append_cons_of_mem hmem
  obtain ⟨-, slots, ho', -⟩ := rests_after ho hk hpre
  exact hops ⟨pre, k, post, _, t, rfl, ho', ht⟩

/-- The current block, if there is one, has no end. -/
def Faithful (b : Builder) : Prop :=
  ∀ k, b.current = some k → ∃ o, b.blocks[k]? = some o ∧ o.terminator = none

theorem Faithful.isOpen_iff (h : b.Faithful) : b.isOpen = true ↔ b.AtOpen := by
  rw [isOpen, Option.isSome_iff_exists]
  constructor
  · rintro ⟨k, hk⟩
    obtain ⟨o, ho, hnone⟩ := h k hk
    exact ⟨k, o, hk, ho, hnone⟩
  · rintro ⟨k, -, hk, -⟩
    exact ⟨k, hk⟩

theorem Faithful.insertion (h : b.Faithful) :
    ∃ o, b.insertion.2.blocks[b.insertion.1]? = some o ∧ o.terminator = none := by
  rcases b.insertion_cases with ⟨hk, heq⟩ | ⟨-, hfresh, heq⟩
  · rw [heq]
    exact h _ hk
  · rw [heq, hfresh]
    obtain ⟨name, hblank⟩ := b.blank_newBlock "dead"
    exact ⟨_, hblank, rfl⟩

/-- **An operation leaves the current block without end**, unless it goes back
to a closed one. -/
theorem Faithful.step (h : b.Faithful) (hfits : op.Fits b) (hop : ¬ b.Reopens [op]) :
    (b.step op).Faithful := by
  intro k hk
  have hchange := b.change_step op
  generalize b.step op = b' at hchange hk ⊢
  cases hchange with
  | same | newTemp => exact h k hk
  | newBlock =>
    obtain ⟨o, ho, hnone⟩ := h k hk
    exact ⟨o, getElem?_of_initial (List.prefix_append _ _) ho, hnone⟩
  | switchTo =>
    obtain rfl := Option.some.inj hk
    refine ⟨_, List.getElem?_eq_getElem hfits, Option.eq_none_iff_forall_ne_some.2 fun t ht => ?_⟩
    exact hop ⟨[], _, [], _, t, rfl, List.getElem?_eq_getElem hfits, ht⟩
  | terminate => cases hk
  | write =>
    obtain ⟨o, ho, hnone⟩ := h.insertion
    obtain rfl := Option.some.inj (b.current_insertion.symm.trans hk)
    exact ⟨_, (getElem?_add ho _).trans (if_pos rfl), hnone⟩
  | slot =>
    obtain ⟨o, ho, hnone⟩ := h k hk
    by_cases h0 : k = 0
    · subst h0
      exact ⟨_, (getElem?_add ho _).trans (if_pos rfl), hnone⟩
    · exact ⟨o, by rw [add, append, getElem?_modify_ne _ _ (Ne.symm h0), ho], hnone⟩

/-- **A run that goes back to no closed block** leaves the current block
without end. -/
theorem Faithful.after (h : b.Faithful) (hruns : b.Runs ops) (hops : ¬ b.Reopens ops) :
    (b.after ops).Faithful := by
  induction ops generalizing b with
  | nil => exact h
  | cons op ops ih =>
    exact ih (h.step hruns.1 fun hop => hops (hop.mono (List.prefix_append [op] ops))) hruns.2
      fun hrest => hops (@Reopens.append b [op] ops hrest)

/-! ## The finished body -/

/-- A finished block ends as it was closed, unless it is current: then it halts. -/
theorem getElem?_finish (b : Builder) (missing : String) (k : BlockId) :
    (b.finish missing).2[k]? = b.blocks[k]?.map fun o =>
      ⟨o.name, o.instrs, if b.current = some k then .halt missing
        else o.terminator.getD (.halt missing)⟩ := by
  unfold finish isOpen
  cases hcurrent : b.current with
  | none => simp only [Option.isSome_none, Bool.false_eq_true, if_false, List.getElem?_map]; rfl
  | some current =>
    simp only [Option.isSome_some, if_true, terminate_eq, insertion, hcurrent, close]
    rw [List.getElem?_map, List.getElem?_modify]
    by_cases hk : current = k
    · simp [hk]; rfl
    · have hne : some current ≠ some k := fun h => hk (Option.some.inj h)
      simp [hk]; rfl

theorem labels_finish (b : Builder) (missing : String) :
    (b.finish missing).2.map (·.name) = b.labels := by
  refine List.ext_getElem? fun k => ?_
  rw [List.getElem?_map, getElem?_finish, labels, List.getElem?_map, Option.map_map]
  rfl

theorem labels_after (b : Builder) (hentry : 0 < b.blocks.length) (ops : List Operation) :
    b.labels <+: (b.after ops).labels := by
  induction ops generalizing b with
  | nil => exact List.prefix_rfl
  | cons op ops ih =>
    have hchange := b.change_step op
    refine List.IsPrefix.trans ?_ (ih (b.step op) (Nat.lt_of_lt_of_le hentry (hchange.length_le hentry)))
    rcases hchange.labels hentry with heq | ⟨name, heq⟩
    · exact heq ▸ List.prefix_rfl
    · rw [heq]
      exact List.prefix_append _ _

/-- Every block has its own label. -/
def Marked (b : Builder) : Prop := ∀ (k : BlockId) label, b.labels[k]? = some label → Labelled k label

theorem Marked.after (h : b.Marked) (hentry : 0 < b.blocks.length) (ops : List Operation) :
    (b.after ops).Marked := by
  induction ops generalizing b with
  | nil => exact h
  | cons op ops ih =>
    have hchange := b.change_step op
    refine ih (fun k label hk => ?_) (Nat.lt_of_lt_of_le hentry (hchange.length_le hentry))
    rcases hchange.labels hentry with heq | ⟨name, heq⟩
    · exact h k label (heq ▸ hk)
    · rw [heq] at hk
      rcases getElem?_append_singleton hk with hk | ⟨rfl, rfl⟩
      · exact h k label hk
      · rw [length_labels, Labelled, if_neg (Nat.ne_of_gt hentry)]
        exact ⟨name, rfl⟩

/-! ## Runs from the start -/

section Start

variable {params : List Field} {ret : Ty}

theorem faithful_start (params : List Field) (ret : Ty) : (start params ret).Faithful := by
  intro k hk
  obtain rfl := Option.some.inj hk
  exact ⟨_, rfl, rfl⟩

theorem marked_start (params : List Field) (ret : Ty) : (start params ret).Marked := by
  intro k label hk
  cases k with
  | zero => exact (Option.some.inj hk).symm
  | succ k => cases hk

theorem after_terminate (pre post : List Operation) (t : Terminator) :
    b.after (pre ++ .terminate t :: post) =
      ((b.after pre).insertion.2.close (b.after pre).insertion.1 t).after post := by
  rw [after_append, after_cons]
  rfl

/-- **A closed block stays so** in a run that goes back to no closed block. -/
theorem closed_after {t : Terminator} (hb : (b.after pre).Faithful)
    (hpost : ¬ (b.after (pre ++ [.terminate t])).Reopens post) : ∃ o slots,
      (b.after pre).insertion.2.blocks[(b.after pre).insertion.1]? = some o ∧
      (∀ i ∈ slots, ∃ op ∈ post, op.Slot (b.after pre).insertion.1 i) ∧
      (b.after (pre ++ .terminate t :: post)).current ≠ some (b.after pre).insertion.1 ∧
      (b.after (pre ++ .terminate t :: post)).blocks[(b.after pre).insertion.1]? =
        some ⟨o.name, o.instrs ++ slots, some t⟩ := by
  rw [after_terminate] at hpost ⊢
  obtain ⟨o, ho, -⟩ := hb.insertion
  have hclosed := (getElem?_close ho t _).trans (if_pos rfl)
  have hcurrent : ((b.after pre).insertion.2.close (b.after pre).insertion.1 t).current ≠
      some (b.after pre).insertion.1 := fun h => by cases h
  obtain ⟨hcurrent', slots, ho', hslots⟩ :=
    rests_after hclosed hcurrent (not_mem_of_not_reopens hclosed rfl hcurrent hpost)
  exact ⟨o, slots, ho, hslots, hcurrent', ho'⟩

theorem staysClosed_of_not_reopens (hruns : (start params ret).Runs ops)
    (hops : ¬ (start params ret).Reopens ops) (missing : String) :
    (start params ret).StaysClosed ops missing := by
  have hrunning {pre : List Operation} (hpre : pre <+: ops) :
      ((start params ret).after pre).Faithful := by
    obtain ⟨rest, rfl⟩ := hpre
    exact (faithful_start params ret).after (runs_append.1 hruns).1 fun h =>
      hops (h.mono (List.prefix_append _ _))
  -- Without reopening, the builder is faithful behind every prefix of the operations.
  have hfaithful := hrunning List.prefix_rfl
  have hentry {pre : List Operation} (hpre : (start params ret).Runs pre) :
      0 < ((start params ret).after pre).blocks.length :=
    ((inRange_start params ret).after hpre).entry
  refine ⟨hfaithful.isOpen_iff, fun pre t post heq => ?_, fun k o ho hk => ?_,
    labels_finish _ _, fun pre hpre => ?_, fun pre name post heq => ?_, ?_⟩
  · have hpost : ¬ ((start params ret).after (pre ++ [.terminate t])).Reopens post := fun h =>
      hops (by rw [heq, List.append_cons]; exact h.append)
    obtain ⟨o, slots, ho, hslots, hcurrent, ho'⟩ :=
      closed_after (hrunning (heq ▸ List.prefix_append _ _)) hpost
    rw [← heq] at hcurrent ho'
    refine ⟨o, slots, ho, hslots, ho', ?_⟩
    rw [getElem?_finish, ho', Option.map_some, if_neg hcurrent, Option.getD_some]
  · have hnone : o.terminator = none := by
      refine unended_after (fun o ho => ?_) hk ho
      cases k with
      | zero => obtain rfl := Option.some.inj ho; rfl
      | succ k => cases ho
    rw [getElem?_finish, ho, Option.map_some, hnone, Option.getD_none, ite_self]
  · obtain ⟨rest, rfl⟩ := hpre
    rw [after_append]
    exact labels_after _ (hentry (runs_append.1 hruns).1) rest
  · rw [heq] at hruns ⊢
    have hlabels := labels_newBlock _ name (hentry (runs_append.1 hruns).1)
    rw [List.append_cons] at hruns ⊢
    rw [after_append]
    refine getElem?_of_initial (labels_after _ (hentry (runs_append.1 hruns).1) post) ?_
    rw [after_append]
    exact (congrArg (·[_]?) hlabels).trans (by rw [← length_labels]; simp)
  · exact nodup_of_labelled ((marked_start params ret).after Nat.one_pos ops)

/-- **What is closed stays closed in just the runs that go back to no closed
block**, at every time of the run. -/
theorem stays_closed_iff (params : List Field) (ret : Ty) (ops : List Operation) (missing : String)
    (hruns : (start params ret).Runs ops) :
    (∀ pre, pre <+: ops → (start params ret).StaysClosed pre missing) ↔
      ¬ (start params ret).Reopens ops := by
  constructor
  · rintro h ⟨pre, k, post, o, t, rfl, ho, ht⟩
    -- Behind the operation that goes back, the body is open at a block with an end.
    have hpre : pre ++ [.switchTo k] <+: pre ++ .switchTo k :: post := ⟨post, by simp⟩
    have hopen := (h _ hpre).isOpen
    have hafter : (start params ret).after (pre ++ [.switchTo k]) =
        ((start params ret).after pre).switchTo k := by
      rw [after_append]
      rfl
    rw [hafter] at hopen
    obtain ⟨k', o', hk', ho', hnone⟩ := hopen.1 rfl
    obtain rfl := Option.some.inj hk'
    obtain rfl := Option.some.inj (ho.symm.trans ho')
    rw [ht] at hnone
    cases hnone
  · rintro hops pre ⟨rest, rfl⟩
    exact staysClosed_of_not_reopens (runs_append.1 hruns).1
      (fun h => hops (h.mono (List.prefix_append _ _))) missing

/-- A run that goes on elsewhere behind each end. -/
def leaving : List Operation :=
  [.newBlock "next", .terminate (.jump 1), .switchTo 1, .entryAlloca "x" .int, .print (.int 1),
    .terminate (.ret (.int 0)), .print (.int 2)]

theorem staysClosed_leaving : (start [] .int).Runs leaving ∧
    ∀ pre, pre <+: leaving → (start [] .int).StaysClosed pre "missing" := by
  have hruns : (start [] .int).Runs leaving := by
    refine ⟨trivial, trivial, ?_, trivial, trivial, trivial, trivial, trivial⟩
    show 1 < 2
    decide
  refine ⟨hruns, (stays_closed_iff [] .int leaving "missing" hruns).2 ?_⟩
  simp only [leaving, reopens_cons, not_or]
  refine ⟨?_, ?_, ?_, ?_, ?_, ?_, ?_, not_reopens_nil⟩ <;> rintro ⟨k, o, t, heq, ho, ht⟩ <;>
    cases heq
  obtain rfl := Option.some.inj ho
  cases ht

/-- A run that goes back to the entry behind its end. -/
def reopening : List Operation := [.terminate (.ret (.int 0)), .switchTo 0]

/-- **A closed block that is gone back to is open, though it has its end**, and
the finished body has another one. -/
theorem not_staysClosed_reopening : (start [] .int).Runs reopening ∧
    ((start [] .int).after reopening).isOpen = true ∧
    ((start [] .int).after reopening).blocks = [⟨"entry", [], some (.ret (.int 0))⟩] ∧
    ((start [] .int).after (reopening ++ [.print (.int 1)])).blocks =
      [⟨"entry", [.print (.int 1)], some (.ret (.int 0))⟩] ∧
    (((start [] .int).after reopening).finish "missing").2 = [⟨"entry", [], .halt "missing"⟩] ∧
    ¬ (start [] .int).StaysClosed reopening "missing" := by
  refine ⟨⟨trivial, Nat.one_pos, trivial⟩, rfl, rfl, rfl, rfl, fun h => ?_⟩
  obtain ⟨k, o, hk, ho, hnone⟩ := h.isOpen.1 rfl
  obtain rfl := Option.some.inj hk
  obtain rfl := Option.some.inj ho
  cases hnone

end Start

end ClassLang.Ir.Builder
