import ClassLang.Proofs.Ir.Bodies
/-!
# Intermediate form — pieces of code

An `Emission` builds on a body, and whatever procedure is made of it has a
piece of code between the point where the body was and the point where it
is. Pieces that follow each other make one piece (`Emission.trans`).
-/


namespace ClassLang.Ir

namespace Builder

variable {b b' b'' : Builder} {p : Program} {N : Nat} {c : Option BlockId} {q : Proc} {pt : Point}

/-! ## The current block -/

/-- **The blocks that are used are there**: the current one, if there is one,
and the entry. -/
structure InRange (b : Builder) : Prop where
  current : ∀ k, b.current = some k → k < b.blocks.length
  entry : 0 < b.blocks.length

theorem inRange_start (params : List Field) (ret : Ty) : (start params ret).InRange :=
  ⟨fun _ h => by cases h; exact Nat.one_pos, Nat.one_pos⟩

theorem length_newBlock (b : Builder) (name : String) :
    (b.newBlock name).2.blocks.length = b.blocks.length + 1 := List.length_append

theorem insertion_of_here (h : b.here? = some pt) : b.insertion = (pt.block, b) := by
  obtain ⟨k, hk, rfl⟩ := Option.map_eq_some_iff.1 h
  rw [insertion, hk]

/-- The block that instructions go into is open and may be touched. -/
theorem insertion_open (hs : b.Sound p) (hin : b.Inside N c) (hN : N ≤ b.blocks.length) :
    b.Extends p N c b.insertion.2 ∧ b.insertion.2.temps = b.temps ∧
      b.insertion.2.current = some b.insertion.1 ∧
      (some b.insertion.1 = c ∨ N ≤ b.insertion.1) ∧
      ∃ o, b.insertion.2.blocks[b.insertion.1]? = some o ∧ o.terminator = none := by
  rw [insertion]
  cases hcurrent : b.current with
  | some k =>
    obtain ⟨o, ho, hopen⟩ := hs.current k hcurrent
    refine ⟨.refl hs hin, rfl, hcurrent, ?_, o, ho, hopen⟩
    rcases hin with h | h | ⟨k', hk', hle⟩
    · rw [hcurrent] at h
      cases h
    · exact .inl (hcurrent.symm.trans h)
    · rw [hcurrent, Option.some_inj] at hk'
      exact .inr (hk' ▸ hle)
  | none =>
    have hext := Extends.newBlock hs hin hN "dead"
    have hblank := b.blank_newBlock "dead"
    exact ⟨hext.trans (.switchTo hext.sound hblank hN), rfl, rfl, .inr hN, _, hblank.choose_spec, rfl⟩

/-- Code goes into the current block, or into a fresh one. -/
theorem insertion_cases (b : Builder) :
    (b.current = some b.insertion.1 ∧ b.insertion.2 = b) ∨
      (b.current = none ∧ b.insertion.1 = b.blocks.length ∧
        b.insertion.2 = (b.newBlock "dead").2.switchTo b.blocks.length) := by
  unfold insertion
  cases b.current with
  | some k => exact .inl ⟨rfl, rfl⟩
  | none => exact .inr ⟨rfl, rfl, rfl⟩

theorem current_insertion (b : Builder) : b.insertion.2.current = some b.insertion.1 := by
  rcases b.insertion_cases with ⟨hcurrent, heq⟩ | ⟨-, hfresh, heq⟩
  · rw [heq, hcurrent]
  · rw [heq, hfresh]
    rfl

theorem temps_insertion (b : Builder) : b.insertion.2.temps = b.temps := by
  rcases b.insertion_cases with ⟨-, heq⟩ | ⟨-, -, heq⟩ <;> rw [heq]
  rfl

theorem InRange.insertion (hb : b.InRange) :
    ∃ o, b.insertion.2.blocks[b.insertion.1]? = some o := by
  rcases b.insertion_cases with ⟨hk, heq⟩ | ⟨-, hfresh, heq⟩
  · rw [heq]
    exact ⟨_, List.getElem?_eq_getElem (hb.current _ hk)⟩
  · rw [heq, hfresh]
    obtain ⟨name, hblank⟩ := b.blank_newBlock "dead"
    exact ⟨_, hblank⟩

theorem emit_eq (b : Builder) (i : Instr) :
    b.emit i = b.insertion.2.add [] b.insertion.1 i := by
  simp [emit, add, append]

theorem define_eq (b : Builder) (name : String) (ty : Ty) (i : TempId → Instr) :
    (b.define name ty i).2 =
      b.insertion.2.add [⟨name, ty⟩] b.insertion.1 (i b.temps.length) := by
  show (b.newTemp name ty).2.emit (i b.temps.length) = _
  rw [emit_eq, insertion, insertion, newTemp]
  cases h : b.current <;> simp [add, append, newBlock, switchTo, h]

/-- The body with the end of a block. -/
def close (b : Builder) (k : BlockId) (t : Terminator) : Builder :=
  { b with
    blocks := b.blocks.modify k fun o => { o with terminator := some t }
    current := none }

theorem terminate_eq (b : Builder) (t : Terminator) :
    b.terminate t = b.insertion.2.close b.insertion.1 t := rfl

theorem getElem?_close {k : BlockId} {o : OpenBlock} (ho : b.blocks[k]? = some o) (t : Terminator)
    (k' : BlockId) : (b.close k t).blocks[k']? =
      if k = k' then some { o with terminator := some t } else b.blocks[k']? := by
  rw [close, List.getElem?_modify]
  split
  next heq => simp [← heq, ho]
  next => simp

theorem instr?_close (b : Builder) (k : BlockId) (t : Terminator) (k' i : Nat) :
    (b.close k t).instr? k' i = b.instr? k' i := by
  rw [instr?, instr?, close, List.getElem?_modify]
  cases b.blocks[k']? with
  | none => rfl
  | some o => by_cases h : k = k' <;> simp [h]

theorem Into.close {k : BlockId} {o : OpenBlock} (ho : b.blocks[k]? = some o)
    (hopen : o.terminator = none) (t : Terminator) : b.Into (b.close k t) := by
  refine ⟨rfl, rfl, List.prefix_rfl, fun k' o' ho' => ?_⟩
  rw [getElem?_close ho]
  split
  next heq =>
    subst heq
    obtain rfl := Option.some.inj (ho.symm.trans ho')
    exact ⟨_, [], rfl, by simp, fun t ht => by rw [hopen] at ht; cases ht⟩
  next => exact ⟨o', [], ho', by simp, fun t ht => ⟨ht, by simp⟩⟩

theorem Extends.close (hs : b.Sound p) {k : BlockId} {o : OpenBlock} (ho : b.blocks[k]? = some o)
    (hopen : o.terminator = none) (hk : some k = c ∨ N ≤ k) {t : Terminator}
    (ht : b.Admits p t) : b.Extends p N c (b.close k t) := by
  have hadmits {t' : Terminator} (h : b.Admits p t') : (b.close k t).Admits p t' := by
    refine ⟨h.typed, fun k' hk' => ⟨(h.targets k' hk').1, ?_⟩⟩
    rw [Builder.close, List.length_modify]
    exact (h.targets k' hk').2
  -- A block that is closed gets an end and nothing else: all other clauses are read off the
  -- builder before.
  refine ⟨.close ho hopen t, fun k' hk' hc _ => ?_, .inl rfl, ?_,
    fun k' hk' => (nomatch hk'), fun k' i ins d h hd => ?_,
    fun k i k' i' ins ins' d h h' hd hd' => ?_, fun d hd => ?_, fun k' i d ty h => ?_, hs.temps,
    fun k' i ins h => ?_, fun k' o' t' ho' ht' => ?_, fun k' o' ho' => ?_⟩
  · have hne : k ≠ k' := by
      rintro rfl
      exact hk.elim hc fun h => absurd hk' (Nat.not_lt.2 h)
    rw [getElem?_close ho, if_neg hne]
  · obtain ⟨first, hfirst⟩ := hs.entry
    rw [getElem?_close ho]
    split
    · exact ⟨_, rfl⟩
    · exact ⟨first, hfirst⟩
  · rw [instr?_close] at h
    exact hs.bound k' i ins d h hd
  · rw [instr?_close] at h h'
    exact hs.once k i k' i' ins ins' d h h' hd hd'
  · obtain ⟨k', i, ins, h, hdst⟩ := hs.given d hd
    exact ⟨k', i, ins, by rw [instr?_close, h], hdst⟩
  · rw [instr?_close] at h
    exact hs.slots k' i d ty h
  · rw [instr?_close] at h
    exact hs.instrs k' i ins h
  · rw [getElem?_close ho] at ho'
    split at ho'
    next =>
      obtain rfl := Option.some.inj ho'
      obtain rfl := Option.some.inj ht'
      exact hadmits ht
    next => exact hadmits (hs.ends k' o' t' ho' ht')
  · rw [getElem?_close ho] at ho'
    split at ho'
    next heq =>
      obtain rfl := Option.some.inj ho'
      exact heq ▸ hs.labels k o ho
    next => exact hs.labels k' o' ho'

/-- The end of a block. -/
theorem Extends.terminate (hs : b.Sound p) (hin : b.Inside N c) (hN : N ≤ b.blocks.length)
    {t : Terminator} (ht : b.Admits p t) : b.Extends p N c (b.terminate t) := by
  obtain ⟨hext, -, -, hk, o, ho, hopen⟩ := insertion_open hs hin hN
  exact hext.trans (.close hext.sound ho hopen hk (ht.mono (.refl p) hext.into))

theorem temps_terminate (hs : b.Sound p) (t : Terminator) : (b.terminate t).temps = b.temps :=
  (insertion_open hs b.inside_self (Nat.le_refl _)).2.1

theorem ends_terminate (hs : b.Sound p) (h : b.here? = some pt) {t : Terminator}
    (hq : q.Covers (b.terminate t)) : q.Ends pt t := by
  obtain ⟨-, htemps, o, ho, -, hindex⟩ := hs.here h
  rw [terminate_eq, insertion_of_here h] at hq
  obtain ⟨o', more, ho', hinstrs, hend⟩ := hq pt.block _ (by rw [getElem?_close ho, if_pos rfl])
  obtain ⟨ht, hmore⟩ := hend t rfl
  refine ⟨o', ho', ht, ?_, fun i hi => ?_⟩
  · rw [hinstrs, hindex, List.length_append]
    exact Nat.le_add_right _ _
  · rw [hinstrs, hindex, List.drop_left] at hi
    rw [htemps]
    exact hmore i hi

/-! ## Blocks for later -/

theorem Sound.current_lt (hs : b.Sound p) {k : BlockId} (h : b.current = some k) :
    k < b.blocks.length := by
  obtain ⟨o, ho, -⟩ := hs.current k h
  exact (List.getElem?_eq_some_iff.1 ho).1

theorem Sound.length_pos (hs : b.Sound p) : 0 < b.blocks.length := by
  obtain ⟨o, ho⟩ := hs.entry
  exact (List.getElem?_eq_some_iff.1 ho).1

/-- A block that is to be entered later. -/
structure Reserved (N : Nat) (b : Builder) (k : BlockId) : Prop where
  blank : b.Blank k
  current : b.current ≠ some k
  pos : k ≠ 0
  le : N ≤ k

theorem Reserved.weaken {M : Nat} {k : BlockId} (h : Reserved N b k) (hle : M ≤ N) :
    Reserved M b k :=
  ⟨h.blank, h.current, h.pos, Nat.le_trans hle h.le⟩

/-- **A block stays reserved** while code goes on elsewhere. -/
theorem Reserved.grows {k : BlockId} (h : Reserved N b k) (hb : b.Grows p b') : Reserved N b' k := by
  obtain ⟨label, hlabel⟩ := h.blank
  have hlt := (List.getElem?_eq_some_iff.1 hlabel).1
  refine ⟨hb.blank hlt (Ne.symm h.current) h.pos h.blank, fun heq => ?_, h.pos, h.le⟩
  rcases hb.inside with hnone | hsome | ⟨k', hk', hle⟩
  · rw [hnone] at heq
    cases heq
  · exact h.current (hsome.symm.trans heq)
  · rw [hk', Option.some_inj] at heq
    exact Nat.not_lt.2 hle (heq ▸ hlt)

theorem Reserved.target {k : BlockId} (h : Reserved N b k) : b.Target k := by
  obtain ⟨label, hlabel⟩ := h.blank
  exact ⟨h.pos, (List.getElem?_eq_some_iff.1 hlabel).1⟩

theorem reserved_newBlock (hs : b.Sound p) (hN : N ≤ b.blocks.length) (name : String) :
    Reserved N (b.newBlock name).2 b.blocks.length :=
  ⟨b.blank_newBlock name, fun heq => Nat.lt_irrefl _ (hs.current_lt heq),
    Nat.ne_of_gt hs.length_pos, hN⟩

theorem grows_newBlock (hs : b.Sound p) (name : String) : b.Grows p (b.newBlock name).2 :=
  .newBlock hs b.inside_self (Nat.le_refl _) name

/-- The body with the end of its current block, going on in another block. -/
def moveTo (b : Builder) (t : Terminator) (k : BlockId) : Builder := (b.terminate t).switchTo k

section MoveTo

variable {k : BlockId} {t : Terminator}

theorem grows_terminate (hs : b.Sound p) (ht : b.Admits p t) :
    b.Grows p (b.terminate t) :=
  .terminate hs b.inside_self (Nat.le_refl _) ht

/-- Building on leads to a reserved block. -/
theorem Extends.moveTo {b₀ : Builder} (h : b₀.Extends p N c b) (hN : N ≤ b₀.blocks.length)
    (hk : Reserved N b k) (ht : b.Admits p t) : b₀.Extends p N c (b.moveTo t k) :=
  have hE := Extends.terminate h.sound h.inside (Nat.le_trans hN h.into.length_le) ht
  (h.trans hE).trans (.switchTo hE.sound (hk.grows (grows_terminate h.sound ht)).blank hk.le)

theorem Reserved.moveTo {k' : BlockId} (hs : b.Sound p) (hk : Reserved N b k) (hne : k' ≠ k)
    (ht : b.Admits p t) : Reserved N (b.moveTo t k') k := by
  have h := hk.grows (grows_terminate hs ht)
  exact ⟨h.blank, fun heq => hne (Option.some.inj heq), h.pos, h.le⟩

theorem here?_moveTo (hs : b.Sound p) (hk : Reserved N b k) (ht : b.Admits p t) :
    (b.moveTo t k).here? = some ⟨b.temps.length, k, 0⟩ := by
  rw [moveTo, here?_switchTo (hk.grows (grows_terminate hs ht)).blank, temps_terminate hs]

theorem into_moveTo (hs : b.Sound p) (hk : Reserved N b k) (ht : b.Admits p t) :
    b.Into (b.moveTo t k) :=
  have hE := grows_terminate hs ht
  hE.into.trans (Extends.switchTo (N := N) (c := none) hE.sound (hk.grows hE).blank hk.le).into

theorem ends_moveTo (hs : b.Sound p) (h : b.here? = some pt) (hq : q.Covers (b.moveTo t k)) :
    q.Ends pt t :=
  ends_terminate hs h hq

end MoveTo

/-! ## Emissions -/

/-- **A piece of code** is added to the body. -/
structure Emission (p : Program) (b b' : Builder) (code : Proc → Point → Point → Prop) : Prop where
  grows : b.Grows p b'
  code : ∀ pt, b.here? = some pt →
    ∃ pt', b'.here? = some pt' ∧ ∀ q : Proc, q.Covers b' → code q pt pt'

namespace Emission

variable {code code' : Proc → Point → Point → Prop}

theorem refl (hs : b.Sound p) : Emission p b b fun _ pt pt' => pt' = pt :=
  ⟨.refl hs, fun pt h => ⟨pt, h, fun _ _ => rfl⟩⟩

theorem mono (h : Emission p b b' code) (hcode : ∀ q pt pt', code q pt pt' → code' q pt pt') :
    Emission p b b' code' := by
  refine ⟨h.grows, fun pt hpt => ?_⟩
  obtain ⟨pt', hpt', hall⟩ := h.code pt hpt
  exact ⟨pt', hpt', fun q hq => hcode q pt pt' (hall q hq)⟩

/-- **Pieces in turn.** -/
theorem trans (h : Emission p b b' code) (h' : Emission p b' b'' code') :
    Emission p b b'' fun q pt pt'' => ∃ pt', code q pt pt' ∧ code' q pt' pt'' := by
  refine ⟨h.grows.trans h'.grows, fun pt hpt => ?_⟩
  obtain ⟨pt', hpt', hall⟩ := h.code pt hpt
  obtain ⟨pt'', hpt'', hall'⟩ := h'.code pt' hpt'
  exact ⟨pt'', hpt'', fun q hq => ⟨pt', hall q (h'.grows.into.covers hq), hall' q hq⟩⟩

end Emission

theorem emission_add (hs : b.Sound p) {fields : List Field} {ins : Instr}
    (hins : b.Adds p fields ins) (hslot : ∀ d ty, ins = .alloca d ty → b.current = some 0) :
    Emission p b (b.insertion.2.add fields b.insertion.1 ins) fun q pt pt' =>
      q.At pt ins ∧ pt' = ⟨pt.temps + fields.length, pt.block, pt.index + 1⟩ := by
  obtain ⟨hext, htemps, -, hk, o, ho, hopen⟩ := insertion_open hs b.inside_self (Nat.le_refl _)
  refine ⟨hext.trans (.add hext.sound hext.inside ho (.inl hopen) ?_ ?_ fun d ty hi => ?_),
    fun pt hpt => ?_⟩
  · exact hk.imp_right .inl
  · exact ⟨by rw [htemps]; exact hins.dst, hins.within, by
      rw [hext.into.params, htemps]; exact hins.typed⟩
  · rw [insertion, hslot d ty hi]
  · rw [insertion_of_here hpt] at ho ⊢
    exact ⟨_, here?_add ho hpt rfl, fun q hq => ⟨at_add ho hpt rfl hq, rfl⟩⟩

/-- An instruction without a result. -/
theorem emission_emit (hs : b.Sound p) {ins : Instr} (hdst : ins.dst? = none)
    (htyped : ins.Typed p (b.HasTy p)) :
    Emission p b (b.emit ins) fun q pt pt' => q.At pt ins ∧ pt' = pt.next := by
  rw [emit_eq]
  refine emission_add hs ⟨fun d => ?_, by simp, ?_⟩ fun d ty hi => ?_
  · rw [hdst, List.append_nil]
    exact ⟨nofun, fun hd => absurd hd.2 (Nat.not_lt.2 hd.1)⟩
  · rw [List.append_nil]
    exact htyped
  · rw [hi] at hdst
    cases hdst

/-- The instruction has its types as soon as the temporary that it gives has
the type. -/
def Gives (b : Builder) (p : Program) (ty : Ty) (i : TempId → Instr) : Prop :=
  ∀ T : Operand → Ty → Prop, (∀ v found, b.HasTy p v found → T v found) →
    T (.temp b.temps.length) ty → (i b.temps.length).Typed p T

theorem Gives.adds {ty : Ty} {ins : Instr} (hw : ty.Within p) (name : String)
    (hdst : ins.dst? = some b.temps.length) (h : b.Gives p ty fun _ => ins) :
    b.Adds p [⟨name, ty⟩] ins := by
  refine ⟨fun d => ?_, by simpa using hw, h _ (fun v found hv => ?_) ?_⟩
  · rw [hdst, Option.some_inj, List.length_append, List.length_singleton, Nat.lt_succ_iff]
    exact ⟨fun heq => heq ▸ ⟨Nat.le_refl _, Nat.le_refl _⟩, fun hd => Nat.le_antisymm hd.1 hd.2⟩
  · exact Ir.HasTy.mono hv (.refl p) (List.prefix_append _ _)
  · exact hasTy_temp.2 ⟨⟨⟨name, ty⟩, by simp, rfl⟩, hw⟩

/-- **An instruction with a result.** -/
theorem emission_define (hs : b.Sound p) (name : String) {ty : Ty} {i : TempId → Instr}
    (hdst : ∀ d, (i d).dst? = some d) (hw : ty.Within p) (hi : b.Gives p ty i)
    (hslot : ∀ d d' ty', i d = .alloca d' ty' → b.current = some 0) :
    Emission p b (b.define name ty i).2 fun q pt pt' => q.At pt (i pt.temps) ∧ pt' = pt.define := by
  rw [define_eq]
  have h := emission_add hs (Gives.adds hw name (hdst _) hi) (hslot _)
  refine ⟨h.grows, fun pt hpt => ?_⟩
  obtain ⟨pt', hpt', hall⟩ := h.code pt hpt
  rw [(hs.here hpt).2.1]
  exact ⟨pt', hpt', fun q hq => hall q hq⟩

/-- Where the body was, it still is behind the instruction. -/
theorem current_emit {k : BlockId} (h : b.current = some k) (i : Instr) :
    (b.emit i).current = some k := by
  rw [emit, insertion, h]
  exact h

end Builder

/-- A slot that is made in the entry block: here, or before it was left. -/
def Proc.HasSlot (q : Proc) (ty : Ty) (pt pt' : Point) : Prop :=
  (pt.block = 0 ∧ q.At pt (.alloca pt.temps ty) ∧ pt' = pt.define) ∨
    (pt.block ≠ 0 ∧ (∃ i, q.instr? 0 i = some (.alloca pt.temps ty)) ∧
      pt' = { pt with temps := pt.temps + 1 })

namespace Builder

variable {b b' : Builder} {p : Program} {N : Nat} {c : Option BlockId} {q : Proc} {pt : Point}

theorem emission_entryAlloca (hs : b.Sound p) (name : String) {ty : Ty} (hw : ty.Within p) :
    Emission p b (b.entryAlloca name ty).2 fun q => q.HasSlot ty := by
  obtain ⟨o, ho⟩ := hs.entry
  have heq : (b.entryAlloca name ty).2 = b.add [⟨name, .ptr ty⟩] 0 (.alloca b.temps.length ty) := rfl
  have hins : b.Adds p [⟨name, .ptr ty⟩] (.alloca b.temps.length ty) :=
    Gives.adds (Ty.within_ptr.2 hw) name rfl fun T _ hdst => .alloca hdst
  rw [heq]
  refine ⟨.add hs b.inside_self ho (.inr ⟨_, ty, rfl, Nat.le_refl _⟩) (.inr (.inr rfl)) hins
      fun _ _ _ => rfl,
    fun pt hpt => ?_⟩
  obtain ⟨hcurrent, htemps, o', ho', -, hindex⟩ := hs.here hpt
  rw [← htemps]
  by_cases h0 : pt.block = 0
  · exact ⟨_, here?_add ho hpt h0, fun q hq => .inl ⟨h0, at_add ho hpt h0 hq, rfl⟩⟩
  · refine ⟨{ pt with temps := pt.temps + 1 }, ?_, fun q hq => .inr ⟨h0, ?_, rfl⟩⟩
    · have hcurrent' : (b.add [⟨name, .ptr ty⟩] 0 (.alloca pt.temps ty)).current = some pt.block :=
        hcurrent
      rw [here?, hcurrent', Option.map_some, getElem?_add ho, if_neg (Ne.symm h0), ho']
      simp [add, htemps, hindex]
    · obtain ⟨o'', more, ho'', hinstrs, -⟩ := hq 0 _ (by rw [getElem?_add ho, if_pos rfl])
      refine ⟨o.instrs.length, ?_⟩
      rw [Proc.instr?, ho'', Option.bind_some, hinstrs]
      simp

/-- A comment, if there is a block to write it in. -/
theorem emission_comment (hs : b.Sound p) (text : String) :
    Emission p b (b.comment text) fun q pt pt' => q.At pt (.comment text) ∧ pt' = pt.next := by
  rw [comment]
  cases hcurrent : b.current with
  | none =>
    refine ⟨.refl hs, fun pt hpt => ?_⟩
    rw [here?, hcurrent] at hpt
    cases hpt
  | some k =>
    have h := emission_emit hs (show (Instr.comment text).dst? = none from rfl) .comment
    rwa [emit, insertion, hcurrent] at h

/-! ## From the start to the end -/

theorem sound_start (p : Program) (params : List Field) (ret : Ty) :
    (start params ret).Sound p := by
  have hnone (k i : Nat) (ins : Instr) (h : (start params ret).instr? k i = some ins) : False := by
    cases k <;> simp [instr?, start] at h
  refine ⟨⟨_, rfl⟩, fun k hk => ?_, fun k i ins d h => (hnone k i ins h).elim,
    fun k i k' i' ins ins' d h => (hnone k i ins h).elim, by simp [start],
    fun k i d ty h => (hnone k i _ h).elim, by simp [start], fun k i ins h => (hnone k i ins h).elim, fun k o t ho ht => ?_, fun k o ho => ?_⟩
  · obtain rfl := Option.some.inj hk
    exact ⟨_, rfl, rfl⟩
  · cases k with
    | zero =>
      obtain rfl := Option.some.inj ho
      cases ht
    | succ k => simp [start] at ho
  · cases k with
    | zero =>
      obtain rfl := Option.some.inj ho
      rfl
    | succ k => simp [start] at ho

theorem here?_start (params : List Field) (ret : Ty) :
    (start params ret).here? = some ⟨0, 0, 0⟩ := rfl

end Builder

/-- **The procedure is formed**: it has a body, whose blocks lead to blocks
that are there, other than the entry, and have labels of their own. -/
structure Proc.Formed (q : Proc) : Prop where
  defined : q.isDefined
  targets : ∀ o ∈ q.blocks, ∀ k ∈ o.terminator.successors, k ≠ 0 ∧ k < q.blocks.length
  labels : (q.blocks.map (·.name)).Nodup

/-- The procedure is the body, with an end for every block. -/
structure Proc.Closes (q : Proc) (b : Builder) (missing : String) : Prop where
  params : q.params = b.params
  ret : q.ret = b.ret
  temps : q.temps = b.temps
  blocks : q.blocks = b.blocks.map (Builder.OpenBlock.close missing)

namespace Proc.Closes

variable {p : Program} {q : Proc} {b : Builder} {missing : String}

theorem block (h : q.Closes b missing) {k : BlockId} {o : OpenBlock} (ho : b.blocks[k]? = some o) :
    q.blocks[k]? = some (Builder.OpenBlock.close missing o) := by
  rw [h.blocks, List.getElem?_map, ho, Option.map_some]

theorem of_mem (h : q.Closes b missing) {o : Block} (ho : o ∈ q.blocks) :
    ∃ (k : BlockId) (o' : OpenBlock), b.blocks[k]? = some o' ∧
      o = Builder.OpenBlock.close missing o' := by
  rw [h.blocks, List.mem_map] at ho
  obtain ⟨o', ho', rfl⟩ := ho
  obtain ⟨k, hk⟩ := List.mem_iff_getElem?.1 ho'
  exact ⟨k, o', hk, rfl⟩

theorem covers (h : q.Closes b missing) : q.Covers b := fun _ _ ho =>
  ⟨_, [], h.block ho, by simp [Builder.OpenBlock.close],
    fun t ht => ⟨by simp [Builder.OpenBlock.close, ht], by simp⟩⟩

theorem single (h : q.Closes b missing) (hs : b.Sound p) : q.Single := by
  have hinstr (k i : Nat) : q.instr? k i = b.instr? k i := by
    rw [Proc.instr?, Builder.instr?, h.blocks, List.getElem?_map]
    cases b.blocks[k]? <;> rfl
  refine ⟨fun k i k' i' ins ins' d hi hi' => ?_, fun d hd => ?_, fun k i d ty hi => ?_⟩
  · rw [hinstr] at hi hi'
    exact hs.once k i k' i' ins ins' d hi hi'
  · obtain ⟨k, i, ins, hi, hdst⟩ := hs.given d (h.temps ▸ hd)
    exact ⟨k, i, ins, by rw [hinstr, hi], hdst⟩
  · rw [hinstr] at hi
    exact hs.slots k i d ty hi

/-- The end of a block is that in the body, or the halt that is put there. -/
theorem admits (h : q.Closes b missing) (hs : b.Sound p) {o : Block} (ho : o ∈ q.blocks) :
    b.Admits p o.terminator := by
  obtain ⟨k, o', hk, rfl⟩ := h.of_mem ho
  cases ht : o'.terminator with
  | none =>
    rw [Builder.OpenBlock.close, ht]
    exact .halt
  | some t =>
    rw [Builder.OpenBlock.close, ht]
    exact hs.ends k o' t hk ht

theorem formed (h : q.Closes b missing) (hs : b.Sound p) : q.Formed := by
  refine ⟨?_, fun o ho k hk => ?_, ?_⟩
  · obtain ⟨o, ho⟩ := hs.entry
    rw [Proc.isDefined, Bool.not_eq_true', List.isEmpty_eq_false_iff]
    exact List.ne_nil_of_mem (List.mem_of_getElem? (h.block ho))
  · rw [h.blocks, List.length_map]
    exact (h.admits hs ho).targets k hk
  · refine nodup_of_labelled fun k label hlabel => ?_
    rw [h.blocks, List.map_map, List.getElem?_map] at hlabel
    obtain ⟨o, ho, rfl⟩ := Option.map_eq_some_iff.1 hlabel
    exact hs.labels k o ho

theorem typed (h : q.Closes b missing) (hs : b.Sound p) (hsignature : q.signature.Within p) :
    q.Typed p := by
  refine ⟨hsignature, fun f hf => hs.temps f (h.temps ▸ hf), fun o ho i hi => ?_, fun o ho => ?_⟩
  · rw [h.params, h.temps]
    obtain ⟨k, o', hk, rfl⟩ := h.of_mem ho
    obtain ⟨j, hj⟩ := List.mem_iff_getElem?.1 hi
    exact hs.instrs k j i (by rw [Builder.instr?, hk, Option.bind_some]; exact hj)
  · rw [h.params, h.temps, h.ret]
    exact (h.admits hs ho).typed

end Proc.Closes

/-- **A procedure made from a body** that was built to the end. -/
structure Proc.MadeOf (p : Program) (q : Proc) (b : Builder) (missing : String) : Prop where
  covers : q.Covers b
  single : q.Single
  formed : q.Formed
  typed : q.Typed p
  missing : ∀ pt, b.here? = some pt → q.Ends pt (.halt missing)

/-- **What is built to the end is made from the body.** -/
theorem Builder.madeOf_finish {p : Program} {b : Builder} (hs : b.Sound p) {q : Proc}
    {missing : String} (hsignature : q.signature.Within p) (hparams : q.params = b.params)
    (hret : q.ret = b.ret) (htemps : q.temps = (b.finish missing).1)
    (hq : q.blocks = (b.finish missing).2) : q.MadeOf p b missing := by
  rw [finish] at hq htemps
  split at hq
  next hopen =>
    rw [if_pos hopen] at htemps
    have hE := Builder.grows_terminate hs (t := .halt missing) .halt
    have h : q.Closes (b.terminate (.halt missing)) missing :=
      ⟨hparams.trans hE.into.params.symm, hret.trans hE.into.ret.symm, htemps, hq⟩
    exact ⟨hE.into.covers h.covers, h.single hE.sound, h.formed hE.sound,
      h.typed hE.sound hsignature, fun pt hpt => Builder.ends_terminate hs hpt h.covers⟩
  next hclosed =>
    rw [if_neg hclosed] at htemps
    have h : q.Closes b missing := ⟨hparams, hret, htemps, hq⟩
    refine ⟨h.covers, h.single hs, h.formed hs, h.typed hs hsignature,
      fun pt hpt => absurd ?_ hclosed⟩
    rw [Builder.isOpen, (hs.here hpt).1]
    rfl

end ClassLang.Ir
