import ClassLang.Proofs.Lowering.Blocks
/-!
# Lowering — what code halts with

A block gets its end once: code goes into blocks that are open, and the blocks
that wait for code stay open until then (`Builder.Awaits`). So the messages that
a body halts with, in the order of its blocks, only grow, and what is added for
faults adds the messages of some of them, each in its turn (`Builder.HaltsFor`).
-/


namespace ClassLang

namespace Ir

open Semantics (Fault)

/-- The message of a halt. -/
def Terminator.message? : Terminator → Option String
  | .halt message => some message
  | _ => none

/-- The message that the block halts with. -/
def OpenBlock.message? (o : OpenBlock) : Option String := o.terminator.bind Terminator.message?

theorem filterMap_modify {α β : Type} {f : α → α} {g : α → Option β} {xs : List α} {k : Nat}
    (h : ∀ x, xs[k]? = some x → g (f x) = g x) : (xs.modify k f).filterMap g = xs.filterMap g := by
  induction xs generalizing k with
  | nil => simp
  | cons x xs ih =>
    cases k with
    | zero => simp [List.filterMap_cons, h x rfl]
    | succ k => simp [List.filterMap_cons, ih fun y hy => h y (by simpa using hy)]

namespace Builder

variable {b b' : Builder} {ks ks' : List BlockId}

/-- The messages that the body halts with, in the order of its blocks. -/
def messages (b : Builder) : List String := b.blocks.filterMap (·.message?)

/-- The block has no end yet. -/
def OpenAt (b : Builder) (k : BlockId) : Prop := ∃ o, b.blocks[k]? = some o ∧ o.terminator = none

variable (ks) in
/-- **The blocks wait for code**: they are open, as is the current one, and all
of them are different. -/
structure Awaits (b : Builder) : Prop where
  nodup : (b.current.toList ++ ks).Nodup
  opened : ∀ k ∈ b.current.toList ++ ks, b.OpenAt k

theorem awaits_start (params : List Field) (ret : Ty) : (start params ret).Awaits [] where
  nodup := List.nodup_singleton 0
  opened k hk := by
    obtain rfl := List.mem_singleton.1 hk
    exact ⟨_, rfl, rfl⟩

theorem OpenAt.lt {k : BlockId} (h : b.OpenAt k) : k < b.blocks.length := by
  obtain ⟨o, ho, -⟩ := h
  exact (List.getElem?_eq_some_iff.1 ho).1

theorem OpenAt.newBlock {k : BlockId} (h : b.OpenAt k) (name : String) :
    (b.newBlock name).2.OpenAt k := by
  obtain ⟨o, ho, hopen⟩ := h
  exact ⟨o, getElem?_of_initial (List.prefix_append _ _) ho, hopen⟩

theorem Awaits.newBlock (h : b.Awaits ks) (name : String) :
    (b.newBlock name).2.Awaits (b.blocks.length :: ks) where
  nodup := List.nodup_middle.2 (List.nodup_cons.2
    ⟨fun hmem => Nat.lt_irrefl _ (h.opened _ hmem).lt, h.nodup⟩)
  opened k hk := by
    rcases List.mem_cons.1 (List.perm_middle.mem_iff.1 hk) with rfl | hk
    · exact ⟨_, List.getElem?_concat_length .., rfl⟩
    · exact (h.opened k hk).newBlock name

theorem Awaits.switchTo (ks : List BlockId) {k : BlockId} (h : b.Awaits (ks ++ k :: ks')) :
    (b.switchTo k).Awaits (ks ++ ks') where
  nodup := by
    have hnodup : (k :: (ks ++ ks')).Nodup :=
      List.nodup_middle.1 (List.Nodup.of_append_right h.nodup)
    exact hnodup
  opened i hi := h.opened i
    (List.mem_append_right _ (List.perm_middle.mem_iff.2 hi))

theorem Awaits.insertion (h : b.Awaits ks) :
    b.insertion.2.Awaits ks ∧ b.insertion.2.current = some b.insertion.1 := by
  unfold Builder.insertion
  cases hcurrent : b.current with
  | some k => exact ⟨h, hcurrent⟩
  | none => exact ⟨(h.newBlock "dead").switchTo [], rfl⟩

theorem Awaits.terminate (h : b.Awaits ks) (t : Terminator) : (b.terminate t).Awaits ks := by
  obtain ⟨h, hcurrent⟩ := h.insertion
  have hnodup := h.nodup
  rw [hcurrent] at hnodup
  refine ⟨hnodup.of_cons, fun k hk => ?_⟩
  obtain ⟨o, ho, hopen⟩ := h.opened k (List.mem_append_right _ hk)
  have hne : b.insertion.1 ≠ k := fun heq => (List.nodup_cons.1 hnodup).1 (heq ▸ hk)
  exact ⟨o, by simp [Builder.terminate, hne, ho], hopen⟩

/-- Blocks that get instructions stay open. -/
theorem Awaits.append (h : b.Awaits ks) (k : BlockId) (i : Instr) : (b.append k i).Awaits ks where
  nodup := h.nodup
  opened j hj := by
    obtain ⟨o, ho, hopen⟩ := h.opened j hj
    simp only [OpenAt, Builder.append, List.getElem?_modify, ho]
    split <;> exact ⟨_, rfl, hopen⟩

/-! ## Messages -/

theorem messages_append (b : Builder) (k : BlockId) (i : Instr) :
    (b.append k i).messages = b.messages := filterMap_modify fun _ _ => rfl

theorem messages_newBlock (b : Builder) (name : String) :
    (b.newBlock name).2.messages = b.messages := by
  simp [messages, newBlock, OpenBlock.message?]

theorem messages_insertion (b : Builder) : b.insertion.2.messages = b.messages := by
  unfold insertion
  cases b.current with
  | some k => rfl
  | none => exact messages_newBlock b "dead"

/-- **An open block that gets its end** halted with nothing before. -/
theorem messages_terminate (h : b.Awaits ks) {t : Terminator} (ht : t.message? = none) :
    (b.terminate t).messages = b.messages := by
  obtain ⟨h, hcurrent⟩ := h.insertion
  refine (filterMap_modify fun o ho => ?_).trans (messages_insertion b)
  obtain ⟨o', ho', hopen⟩ := h.opened b.insertion.1 (by rw [hcurrent]; exact List.mem_cons_self)
  obtain rfl := Option.some.inj (ho.symm.trans ho')
  simp [OpenBlock.message?, hopen, ht]

/-- From a block on, no block halts. -/
def Silent (b : Builder) (n : Nat) : Prop :=
  ∀ i o, n ≤ i → b.blocks[i]? = some o → o.message? = none

theorem silent_length (b : Builder) : b.Silent b.blocks.length := by
  intro i o hi ho
  rw [List.getElem?_eq_none hi] at ho
  cases ho

theorem Silent.newBlock {n : Nat} (h : b.Silent n) (name : String) :
    (b.newBlock name).2.Silent n := by
  intro i o hi ho
  by_cases hlt : i < b.blocks.length
  · exact h i o hi (by rwa [Builder.newBlock, List.getElem?_append_left hlt] at ho)
  · rw [Builder.newBlock, List.getElem?_append_right (Nat.le_of_not_lt hlt)] at ho
    obtain rfl := List.mem_singleton.1 (List.mem_of_getElem? ho)
    rfl

theorem Silent.terminate {n : Nat} (h : b.Silent n) {t : Terminator} (ht : t.message? = none) :
    (b.terminate t).Silent n := by
  have hinsertion : b.insertion.2.Silent n := by
    unfold insertion
    cases b.current with
    | some k => exact h
    | none => exact h.newBlock "dead"
  intro i o hi ho
  rw [Builder.terminate, List.getElem?_modify] at ho
  obtain ⟨o', ho', rfl⟩ := Option.map_eq_some_iff.1 ho
  split
  · exact ht
  · exact hinsertion i o' hi ho'

theorem Silent.messages_drop {n m : Nat} (h : b.Silent n) (hm : n ≤ m) :
    (b.blocks.drop m).filterMap (·.message?) = [] := by
  rw [List.filterMap_eq_nil_iff]
  intro o ho
  obtain ⟨i, hi⟩ := List.mem_iff_getElem?.1 ho
  rw [List.getElem?_drop] at hi
  exact h _ o (Nat.le_trans hm (Nat.le_add_right m i)) hi

/-- **A halt behind all others** adds its message at the end. -/
theorem messages_halt {k : BlockId} (hcurrent : b.current = some k) (hk : k < b.blocks.length)
    (h : b.Silent k) (message : String) :
    (b.terminate (.halt message)).messages = b.messages ++ [message] := by
  have hblocks : (b.terminate (.halt message)).blocks =
      b.blocks.modify k fun o => { o with terminator := some (.halt message) } := by
    rw [terminate, insertion, hcurrent]
  have hbefore : b.messages = (b.blocks.take k).filterMap (·.message?) := by
    rw [← List.append_nil (List.filterMap _ (List.take k b.blocks)),
      ← h.messages_drop (Nat.le_refl k), ← List.filterMap_append, List.take_append_drop]
    rfl
  rw [hbefore, messages, hblocks, List.modify_eq_take_cons_drop hk, List.filterMap_append,
    List.filterMap_cons, h.messages_drop (Nat.le_succ k)]
  rfl

/-! ## What is added -/

/-- **What is added halts for the faults**, or for some of them, each in its
turn, if it goes into blocks that are open. -/
def HaltsFor (ks ks' : List BlockId) (faults : List Fault) (b b' : Builder) : Prop :=
  b.Awaits ks → b'.Awaits ks' ∧
    ∃ halted : List Fault, halted.Sublist faults ∧ b'.messages = b.messages ++ halted.map Fault.message

theorem HaltsFor.of_eq (hawaits : b.Awaits ks → b'.Awaits ks')
    (hmessages : b.Awaits ks → b'.messages = b.messages) : HaltsFor ks ks' [] b b' := fun h =>
  ⟨hawaits h, [], List.nil_sublist _, by rw [hmessages h, List.map_nil, List.append_nil]⟩

/-- **A check** halts with its message, and goes on in a block that is open. -/
theorem haltsFor_check (ks : List BlockId) (b : Builder) (cond : Operand) (fail ok : String)
    (fault : Fault) : HaltsFor ks ks [fault] b (b.check cond fail ok fault.message) := by
  intro h
  have hblocks := (h.newBlock fail).newBlock ok
  have hbranch := hblocks.terminate (.branch cond b.blocks.length (b.newBlock fail).2.blocks.length)
  have hfail := hbranch.switchTo [(b.newBlock fail).2.blocks.length]
  refine ⟨(hfail.terminate (.halt fault.message)).switchTo [], [fault], List.Sublist.refl _, ?_⟩
  -- Behind the block that halts there is but the one to go on in, and a dead one perhaps.
  have hsilent := ((b.silent_length.newBlock fail).newBlock ok).terminate
    (t := .branch cond b.blocks.length (b.newBlock fail).2.blocks.length) rfl
  refine (messages_halt rfl (hfail.opened _ List.mem_cons_self).lt hsilent _).trans ?_
  congr 1
  exact (messages_terminate hblocks rfl).trans
    ((messages_newBlock _ ok).trans (messages_newBlock b fail))

instance : Judges HaltsFor where
  refl _ _ := .of_eq id fun _ => rfl
  trans h h' hawaits := by
    obtain ⟨hawaits, halted, hsub, hmessages⟩ := h hawaits
    obtain ⟨hawaits', halted', hsub', hmessages'⟩ := h' hawaits
    exact ⟨hawaits', halted ++ halted', hsub.append hsub',
      by rw [hmessages', hmessages, List.map_append, List.append_assoc]⟩
  mono h hsub hawaits := by
    obtain ⟨hawaits, halted, hsub', hmessages⟩ := h hawaits
    exact ⟨hawaits, halted, hsub'.trans hsub, hmessages⟩
  newTemp _ _ _ _ := .of_eq (fun h => ⟨h.nodup, h.opened⟩) fun _ => rfl
  append _ b k i := .of_eq (fun h => h.append k i) fun _ => messages_append b k i
  newBlock _ b name := .of_eq (fun h => h.newBlock name) fun _ => messages_newBlock b name
  switchTo ks _ _ _ := .of_eq (fun h => h.switchTo ks) fun _ => rfl
  terminate _ b t ht := .of_eq (fun h => h.terminate t) fun h => messages_terminate h <| by
    cases t with
    | halt message => exact absurd rfl (ht message)
    | _ => rfl
  check := haltsFor_check

/-- **A body that is done** halts as it did, and where its end is missing. -/
theorem messages_finish (h : b.Awaits ks) (missing : String) :
    ((b.finish missing).2.filterMap (·.terminator.message?)).filter (· ≠ missing) =
      b.messages.filter (· ≠ missing) := by
  have hclosed : (if b.isOpen then b.terminate (.halt missing) else b).blocks.filterMap
      (fun o => o.message?.filter (· ≠ missing)) =
        b.blocks.filterMap fun o => o.message?.filter (· ≠ missing) := by
    unfold isOpen
    cases hcurrent : b.current with
    | none => rfl
    | some k =>
      have hblocks : (b.terminate (.halt missing)).blocks =
          b.blocks.modify k fun o => { o with terminator := some (.halt missing) } := by
        rw [terminate, insertion, hcurrent]
      refine (congrArg _ hblocks).trans (filterMap_modify fun o ho => ?_)
      obtain ⟨o', ho', hopen⟩ := h.opened k (by rw [hcurrent]; exact List.mem_cons_self)
      obtain rfl := Option.some.inj (ho.symm.trans ho')
      simp [OpenBlock.message?, Terminator.message?, hopen]
  -- Closing gives a block the end it has, or the halt that is left out here.
  rw [messages, List.filter_filterMap, List.filter_filterMap, ← hclosed, finish, List.filterMap_map]
  refine List.filterMap_congr fun o _ => ?_
  cases hend : o.terminator <;> simp [OpenBlock.close, OpenBlock.message?, Terminator.message?, hend]

end Builder

end Ir

end ClassLang
