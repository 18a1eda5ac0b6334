import ClassLang.Proofs.Ir.Typing
/-!
# Intermediate form — bodies that grow

A `Point` is a place in the code of a procedure. `Builder.here?` is the
point where a body goes on, `Proc.At` and `Proc.Ends` say what a procedure
has at a point, and `Proc.Covers` that a procedure is made from a body by
building on. `Builder.Extends` says what building may do: code stays, only
slots are added behind the end of a block, and of the first `N` blocks only
one is touched. So what stands at a point of the body stands there in the
procedure.
-/


namespace ClassLang.Ir

/-- A place in the code of a procedure, and the number of temporaries of the
code before it. -/
structure Point where
  temps : Nat
  block : BlockId
  index : Nat

namespace Point

/-- Behind an instruction without a result. -/
def next (pt : Point) : Point := { pt with index := pt.index + 1 }

/-- Behind an instruction with a result. -/
def define (pt : Point) : Point := { pt with temps := pt.temps + 1, index := pt.index + 1 }

/-- At the start of a block. -/
def enter (pt : Point) (block : BlockId) : Point := ⟨pt.temps, block, 0⟩

end Point

/-- A slot whose temporary is no older than the bound. -/
def Instr.SlotFrom (n : Nat) (i : Instr) : Prop := ∃ dst ty, i = .alloca dst ty ∧ n ≤ dst

theorem Instr.SlotFrom.mono {m n : Nat} {i : Instr} (h : i.SlotFrom n) (hle : m ≤ n) :
    i.SlotFrom m := by
  obtain ⟨dst, ty, rfl, hdst⟩ := h
  exact ⟨dst, ty, rfl, Nat.le_trans hle hdst⟩

/-- The instruction at an index of a block. -/
def Proc.instr? (q : Proc) (block index : Nat) : Option Instr :=
  q.blocks[block]?.bind (·.instrs[index]?)

/-- The procedure has the instruction at the point. -/
def Proc.At (q : Proc) (pt : Point) (i : Instr) : Prop := q.instr? pt.block pt.index = some i

/-- The block of the point ends so, apart from slots before the end. -/
def Proc.Ends (q : Proc) (pt : Point) (t : Terminator) : Prop :=
  ∃ o, q.blocks[pt.block]? = some o ∧ o.terminator = t ∧ pt.index ≤ o.instrs.length ∧
    ∀ i ∈ o.instrs.drop pt.index, i.SlotFrom pt.temps

/-- **Every temporary is given at one place**, and slots are made in the
entry block. -/
structure Proc.Single (q : Proc) : Prop where
  once : ∀ k i k' i' ins ins' d, q.instr? k i = some ins → q.instr? k' i' = some ins' →
    ins.dst? = some d → ins'.dst? = some d → k = k' ∧ i = i'
  given : ∀ d < q.temps.length, ∃ k i ins, q.instr? k i = some ins ∧ ins.dst? = some d
  slots : ∀ k i d ty, q.instr? k i = some (.alloca d ty) → k = 0

/-- The label of a block, which has its number in it. -/
def Labelled (k : BlockId) (label : String) : Prop :=
  if k = 0 then label = "entry" else ∃ name, label = name ++ "." ++ toString k

theorem isDigit_of_mem_toString {n : Nat} {c : Char} (hc : c ∈ (toString n).toList) :
    c.isDigit = true := by
  have hc : c ∈ Nat.toDigits 10 n := by simpa [Nat.repr] using hc
  exact Nat.isDigit_of_mem_toDigits (by decide) (by decide) hc

theorem eq_of_toString {n n' : Nat} (h : toString n = toString n') : n = n' := by
  have hdigits : Nat.toDigits 10 n = Nat.toDigits 10 n' := by
    simpa [Nat.repr] using congrArg String.toList h
  have hvalue := congrArg (Nat.ofDigitChars 10 · 0) hdigits
  simpa only [Nat.ofDigitChars_toDigits (b := 10) (by decide) (by decide)] using hvalue

/-- **A text that ends with a dot and a number** tells the number, whatever
stands before the dot. -/
theorem eq_of_numbered {name name' : String} {n n' : Nat}
    (h : name ++ "." ++ toString n = name' ++ "." ++ toString n') : n = n' := by
  have hdot (n : Nat) : ∀ c ∈ (toString n).toList.reverse, (c != '.') = true := fun c hc =>
    bne_iff_ne.2 fun heq => by
      have := isDigit_of_mem_toString (List.mem_reverse.1 hc)
      simp [heq] at this
  -- What stands behind the last dot.
  have hnumber (name : String) (n : Nat) :
      (name ++ "." ++ toString n).toList.reverse.takeWhile (· != '.') =
        (toString n).toList.reverse := by
    rw [String.toList_append, String.toList_append, List.reverse_append,
      List.takeWhile_append_of_pos (hdot n)]
    simp
  have hdigits := hnumber name n
  rw [h, hnumber, List.reverse_inj, String.toList_inj] at hdigits
  exact (eq_of_toString hdigits).symm

/-- The number in a label is that of the block. -/
theorem Labelled.unique {k k' : BlockId} {label : String} (h : Labelled k label)
    (h' : Labelled k' label) : k = k' := by
  have hentry (name : String) (n : Nat) : "entry" ≠ name ++ "." ++ toString n := by
    intro heq
    have hmem : '.' ∈ "entry".toList := by rw [heq]; simp
    exact absurd hmem (by decide)
  unfold Labelled at h h'
  split at h <;> split at h'
  next h0 h0' => rw [h0, h0']
  next => obtain ⟨name, rfl⟩ := h'; exact absurd h.symm (hentry _ _)
  next => obtain ⟨name, rfl⟩ := h; exact absurd h'.symm (hentry _ _)
  next =>
    obtain ⟨name, rfl⟩ := h
    obtain ⟨name', heq⟩ := h'
    exact eq_of_numbered heq

/-- **Blocks with their numbers in their labels** have labels of their own. -/
theorem nodup_of_labelled {labels : List String}
    (h : ∀ (k : BlockId) label, labels[k]? = some label → Labelled k label) : labels.Nodup := by
  refine List.nodup_iff_injective_getElem.2 fun k k' heq => Fin.ext ?_
  have heq : labels[k.1] = labels[k'.1] := heq
  have hk' := h k'.1 _ (List.getElem?_eq_getElem k'.2)
  exact (h k.1 _ (List.getElem?_eq_getElem k.2)).unique (heq ▸ hk')

namespace Builder

/-- The instruction at an index of a block. -/
def instr? (b : Builder) (block index : Nat) : Option Instr :=
  b.blocks[block]?.bind (·.instrs[index]?)

/-- The point where the body goes on. -/
def here? (b : Builder) : Option Point :=
  b.current.map fun k => ⟨b.temps.length, k, (b.blocks[k]?.map (·.instrs.length)).getD 0⟩

/-- A block that has nothing in it. -/
def Blank (b : Builder) (k : BlockId) : Prop := ∃ name, b.blocks[k]? = some ⟨name, [], none⟩

/-- The operand has the type in the body. -/
def HasTy (b : Builder) (p : Program) (v : Operand) (ty : Ty) : Prop :=
  Ir.HasTy p b.params b.temps v ty

/-- A block that code may lead to. -/
def Target (b : Builder) (k : BlockId) : Prop := k ≠ 0 ∧ k < b.blocks.length

/-- **A block may end so**: the end has its types, and leads to blocks that
are there. -/
structure Admits (b : Builder) (p : Program) (t : Terminator) : Prop where
  typed : t.Typed (b.HasTy p) b.ret
  targets : ∀ k ∈ t.successors, b.Target k

/-- **What holds of a body while it grows**: the current block is open, every
temporary is given at one place, slots are in the entry block, everything
has its types, and every block its own label. -/
structure Sound (b : Builder) (p : Program) : Prop where
  entry : ∃ o, b.blocks[0]? = some o
  current : ∀ k, b.current = some k → ∃ o, b.blocks[k]? = some o ∧ o.terminator = none
  bound : ∀ k i ins d, b.instr? k i = some ins → ins.dst? = some d → d < b.temps.length
  once : ∀ k i k' i' ins ins' d, b.instr? k i = some ins → b.instr? k' i' = some ins' →
    ins.dst? = some d → ins'.dst? = some d → k = k' ∧ i = i'
  given : ∀ d < b.temps.length, ∃ k i ins, b.instr? k i = some ins ∧ ins.dst? = some d
  slots : ∀ k i d ty, b.instr? k i = some (.alloca d ty) → k = 0
  temps : ∀ f ∈ b.temps, f.ty.Within p
  instrs : ∀ k i ins, b.instr? k i = some ins → ins.Typed p (b.HasTy p)
  ends : ∀ (k : BlockId) (o : OpenBlock) t, b.blocks[k]? = some o → o.terminator = some t →
    b.Admits p t
  labels : ∀ (k : BlockId) (o : OpenBlock), b.blocks[k]? = some o → Labelled k o.name

/-- What is there stays. A block that has its end gets at most slots. -/
structure Into (b b' : Builder) : Prop where
  params : b'.params = b.params
  ret : b'.ret = b.ret
  temps : b.temps <+: b'.temps
  blocks : ∀ (k : BlockId) (o : OpenBlock), b.blocks[k]? = some o →
    ∃ (o' : OpenBlock) (more : List Instr), b'.blocks[k]? = some o' ∧ o'.instrs = o.instrs ++ more ∧
      ∀ t, o.terminator = some t → o'.terminator = some t ∧ ∀ i ∈ more, i.SlotFrom b.temps.length

/-- The current block is the one given or none of the first `N`. -/
def Inside (N : Nat) (c : Option BlockId) (b : Builder) : Prop :=
  b.current = none ∨ b.current = c ∨ ∃ k, b.current = some k ∧ N ≤ k

/-- **Building on**, where only the block `c` of the first `N` is touched. -/
structure Extends (p : Program) (N : Nat) (c : Option BlockId) (b b' : Builder) : Prop where
  into : b.Into b'
  spares : ∀ k < N, some k ≠ c → k ≠ 0 → b'.blocks[k]? = b.blocks[k]?
  inside : b'.Inside N c
  sound : b'.Sound p

/-- **Building on** from where the body is. -/
def Grows (p : Program) (b b' : Builder) : Prop := b.Extends p b.blocks.length b.current b'

end Builder

/-- The procedure is made from the body by building on. -/
def Proc.Covers (q : Proc) (b : Builder) : Prop :=
  ∀ (k : BlockId) (o : OpenBlock), b.blocks[k]? = some o →
    ∃ (o' : Block) (more : List Instr), q.blocks[k]? = some o' ∧ o'.instrs = o.instrs ++ more ∧
      ∀ t, o.terminator = some t → o'.terminator = t ∧ ∀ i ∈ more, i.SlotFrom b.temps.length

namespace Builder

variable {b b' b'' : Builder} {p p' : Program} {N : Nat} {c : Option BlockId} {q : Proc}

/-! ## Composition -/

theorem Into.refl (b : Builder) : b.Into b :=
  ⟨rfl, rfl, List.prefix_rfl, fun _ o ho => ⟨o, [], ho, by simp, fun t ht => ⟨ht, by simp⟩⟩⟩

theorem Into.trans (h : b.Into b') (h' : b'.Into b'') : b.Into b'' := by
  refine ⟨h'.params.trans h.params, h'.ret.trans h.ret, h.temps.trans h'.temps, fun k o ho => ?_⟩
  obtain ⟨o', more, ho', hinstrs, hend⟩ := h.blocks k o ho
  obtain ⟨o'', more', ho'', hinstrs', hend'⟩ := h'.blocks k o' ho'
  refine ⟨o'', more ++ more', ho'', by rw [hinstrs', hinstrs, List.append_assoc], fun t ht => ?_⟩
  obtain ⟨ht', hmore⟩ := hend t ht
  obtain ⟨ht'', hmore'⟩ := hend' t ht'
  refine ⟨ht'', fun i hi => ?_⟩
  rcases List.mem_append.1 hi with hi | hi
  · exact hmore i hi
  · exact (hmore' i hi).mono h.temps.length_le

theorem Into.length_le (h : b.Into b') : b.blocks.length ≤ b'.blocks.length := by
  refine Nat.le_of_not_lt fun hlt => ?_
  obtain ⟨o', -, ho', -⟩ := h.blocks b'.blocks.length _ (List.getElem?_eq_getElem hlt)
  exact Nat.lt_irrefl _ (List.getElem?_eq_some_iff.1 ho').1

/-- **What covers the later body covers the earlier one.** -/
theorem Into.covers (h : b.Into b') (hq : q.Covers b') : q.Covers b := by
  intro k o ho
  obtain ⟨o', more, ho', hinstrs, hend⟩ := h.blocks k o ho
  obtain ⟨o'', more', ho'', hinstrs', hend'⟩ := hq k o' ho'
  refine ⟨o'', more ++ more', ho'', by rw [hinstrs', hinstrs, List.append_assoc], fun t ht => ?_⟩
  obtain ⟨ht', hmore⟩ := hend t ht
  obtain ⟨ht'', hmore'⟩ := hend' t ht'
  refine ⟨ht'', fun i hi => ?_⟩
  rcases List.mem_append.1 hi with hi | hi
  · exact hmore i hi
  · exact (hmore' i hi).mono h.temps.length_le

theorem Extends.refl (hs : b.Sound p) (hin : b.Inside N c) : b.Extends p N c b :=
  ⟨.refl b, fun _ _ _ _ => rfl, hin, hs⟩

theorem Extends.trans (h : b.Extends p N c b') (h' : b'.Extends p N c b'') : b.Extends p N c b'' :=
  ⟨h.into.trans h'.into, fun k hk hc h0 => (h'.spares k hk hc h0).trans (h.spares k hk hc h0),
    h'.inside, h'.sound⟩

/-- What touches no other block than the current one touches none of those
that are to be spared. -/
theorem Grows.weaken (h : b.Grows p b') (hN : N ≤ b.blocks.length) (hin : b.Inside N c) :
    b.Extends p N c b' := by
  refine ⟨h.into, fun k hk hc h0 => h.spares k (Nat.lt_of_lt_of_le hk hN) (fun heq => ?_) h0, ?_,
    h.sound⟩
  · rcases hin with hnone | hsome | ⟨k', hk', hle⟩
    · rw [hnone] at heq
      cases heq
    · exact hc (heq.trans hsome)
    · rw [hk', Option.some_inj] at heq
      exact absurd (heq ▸ hk) (Nat.not_lt.2 hle)
  · rcases h.inside with hnone | hsome | ⟨k, hk, hle⟩
    · exact .inl hnone
    · rw [Inside, hsome]
      exact hin
    · exact .inr (.inr ⟨k, hk, Nat.le_trans hN hle⟩)

theorem inside_self (b : Builder) : b.Inside b.blocks.length b.current := .inr (.inl rfl)

theorem Grows.refl (hs : b.Sound p) : b.Grows p b := Extends.refl hs b.inside_self

/-- A step that goes on from a later body. -/
theorem Extends.grows (h : b.Extends p N c b') (h' : b'.Grows p b'') (hN : N ≤ b.blocks.length) :
    b.Extends p N c b'' :=
  h.trans (h'.weaken (Nat.le_trans hN h.into.length_le) h.inside)

theorem Grows.trans (h : b.Grows p b') (h' : b'.Grows p b'') : b.Grows p b'' :=
  Extends.grows h h' (Nat.le_refl _)

/-- A blank block that is to be spared stays blank. -/
theorem Extends.blank (h : b.Extends p N c b') {k : BlockId} (hk : k < N) (hc : some k ≠ c)
    (h0 : k ≠ 0) (hblank : b.Blank k) : b'.Blank k := by
  obtain ⟨name, hname⟩ := hblank
  exact ⟨name, by rw [h.spares k hk hc h0, hname]⟩

/-! ## Types -/

/-- An operand keeps its type. -/
theorem HasTy.mono {v : Operand} {ty : Ty} (h : b.HasTy p v ty) (hp : p.Keeps p')
    (hb : b.Into b') : b'.HasTy p' v ty := by
  rw [HasTy, hb.params]
  exact Ir.HasTy.mono h hp hb.temps

theorem Target.mono {k : BlockId} (h : b.Target k) (hb : b.Into b') : b'.Target k :=
  ⟨h.1, Nat.lt_of_lt_of_le h.2 hb.length_le⟩

namespace Admits

theorem mono {t : Terminator} (h : b.Admits p t) (hp : p.Keeps p') (hb : b.Into b') :
    b'.Admits p' t :=
  ⟨hb.ret ▸ h.typed.mono fun _ _ hv => hv.mono hp hb, fun k hk => (h.targets k hk).mono hb⟩

theorem halt {message : String} : b.Admits p (.halt message) :=
  ⟨.halt, List.forall_mem_nil _⟩

theorem ret {v : Operand} (h : b.HasTy p v b.ret) : b.Admits p (.ret v) :=
  ⟨.ret h, List.forall_mem_nil _⟩

theorem jump {k : BlockId} (hk : b.Target k) : b.Admits p (.jump k) :=
  ⟨.jump, List.forall_mem_singleton.2 hk⟩

theorem branch {v : Operand} {yes no : BlockId} (h : b.HasTy p v .bool) (hyes : b.Target yes)
    (hno : b.Target no) : b.Admits p (.branch v yes no) :=
  ⟨.branch h, List.forall_mem_cons.2 ⟨hyes, List.forall_mem_singleton.2 hno⟩⟩

end Admits

/-- A body stays sound while the program is built. -/
theorem Sound.mono (hs : b.Sound p) (hp : p.Keeps p') : b.Sound p' :=
  ⟨hs.entry, hs.current, hs.bound, hs.once, hs.given, hs.slots,
    fun f hf => hp.within (hs.temps f hf), fun k i ins h => (hs.instrs k i ins h).mono hp fun _ _ hv => hv.mono hp (.refl b),
    fun k o t ho ht => (hs.ends k o t ho ht).mono hp (.refl b), hs.labels⟩

theorem Extends.mono (h : b.Extends p N c b') (hp : p.Keeps p') : b.Extends p' N c b' :=
  ⟨h.into, h.spares, h.inside, h.sound.mono hp⟩

theorem Grows.mono (h : b.Grows p b') (hp : p.Keeps p') : b.Grows p' b' := Extends.mono h hp

/-! ## Single steps -/

/-- Where the body goes on. -/
theorem of_here? {pt : Point} (h : b.here? = some pt) :
    b.current = some pt.block ∧ pt.temps = b.temps.length ∧
      ∀ o, b.blocks[pt.block]? = some o → pt.index = o.instrs.length := by
  obtain ⟨k, hk, rfl⟩ := Option.map_eq_some_iff.1 h
  exact ⟨hk, rfl, fun o ho => by simp [ho]⟩

/-- The block there is open. -/
theorem Sound.here (hs : b.Sound p) {pt : Point} (h : b.here? = some pt) :
    b.current = some pt.block ∧ pt.temps = b.temps.length ∧
      ∃ o, b.blocks[pt.block]? = some o ∧ o.terminator = none ∧ pt.index = o.instrs.length := by
  obtain ⟨hcurrent, htemps, hindex⟩ := of_here? h
  obtain ⟨o, ho, hopen⟩ := hs.current pt.block hcurrent
  exact ⟨hcurrent, htemps, o, ho, hopen, hindex o ho⟩

/-- The body with other temporaries and an instruction at the end of a block. -/
def add (b : Builder) (fields : List Field) (k : BlockId) (ins : Instr) : Builder :=
  { b.append k ins with temps := b.temps ++ fields }

section Add

variable {fields : List Field} {k : BlockId} {ins : Instr} {o : OpenBlock}

theorem getElem?_add (ho : b.blocks[k]? = some o) (k' : BlockId) :
    (b.add fields k ins).blocks[k']? =
      if k = k' then some { o with instrs := o.instrs ++ [ins] } else b.blocks[k']? := by
  rw [add, append, List.getElem?_modify]
  split
  next heq => simp [← heq, ho]
  next => simp

theorem instr?_add_self (ho : b.blocks[k]? = some o) :
    (b.add fields k ins).instr? k o.instrs.length = some ins := by
  rw [instr?, getElem?_add ho, if_pos rfl]
  simp

theorem instr?_add_of_some (ho : b.blocks[k]? = some o) {k' i : Nat} {x : Instr}
    (h : b.instr? k' i = some x) : (b.add fields k ins).instr? k' i = some x := by
  rw [instr?, getElem?_add ho]
  split
  next heq =>
    subst heq
    rw [instr?, ho] at h
    exact getElem?_of_initial (List.prefix_append _ _) h
  next => exact h

theorem instr?_add (ho : b.blocks[k]? = some o) {k' i : Nat} {x : Instr}
    (h : (b.add fields k ins).instr? k' i = some x) :
    b.instr? k' i = some x ∨ (k' = k ∧ i = o.instrs.length ∧ x = ins) := by
  rw [instr?, getElem?_add ho] at h
  split at h
  next heq =>
    subst heq
    rw [Option.bind_some] at h
    rcases getElem?_append_singleton h with h | ⟨rfl, rfl⟩
    · exact .inl (by rw [instr?, ho, Option.bind_some, h])
    · exact .inr ⟨rfl, rfl, rfl⟩
  next => exact .inl h

/-- An instruction at the end of a block, and the temporaries that it gives. -/
structure Adds (p : Program) (b : Builder) (fields : List Field) (ins : Instr) : Prop where
  dst : ∀ d, ins.dst? = some d ↔ b.temps.length ≤ d ∧ d < (b.temps ++ fields).length
  within : ∀ f ∈ fields, f.ty.Within p
  typed : ins.Typed p (Ir.HasTy p b.params (b.temps ++ fields))

theorem Sound.add (hs : b.Sound p) (ho : b.blocks[k]? = some o) (hins : b.Adds p fields ins)
    (hslot : ∀ d ty, ins = .alloca d ty → k = 0) : (b.add fields k ins).Sound p := by
  have hle : b.temps.length ≤ (b.temps ++ fields).length := by simp
  have hdst := fun d hd => (hins.dst d).1 hd
  have hty (v : Operand) (ty : Ty) (h : b.HasTy p v ty) : (b.add fields k ins).HasTy p v ty :=
    Ir.HasTy.mono h (.refl p) (List.prefix_append _ _)
  have hadmits {t : Terminator} (h : b.Admits p t) : (b.add fields k ins).Admits p t := by
    refine ⟨h.typed.mono hty, fun k' hk' => ⟨(h.targets k' hk').1, ?_⟩⟩
    rw [Builder.add, append, List.length_modify]
    exact (h.targets k' hk').2
  refine ⟨?_, fun k' hk' => ?_, fun k' i x d hx hd => ?_,
    fun k' i k'' i' x x' d hx hx' hd hd' => ?_, fun d hd => ?_, fun k' i d ty hx => ?_,
    fun f hf => ?_, fun k' i x hx => ?_, fun k' o' t ho' ht => ?_, fun k' o' ho' => ?_⟩
  · obtain ⟨first, hfirst⟩ := hs.entry
    rw [getElem?_add ho]
    split
    · exact ⟨_, rfl⟩
    · exact ⟨first, hfirst⟩
  · obtain ⟨o', ho', hopen⟩ := hs.current k' hk'
    rw [getElem?_add ho]
    split
    next heq =>
      subst heq
      obtain rfl := Option.some.inj (ho.symm.trans ho')
      exact ⟨_, rfl, hopen⟩
    next => exact ⟨o', ho', hopen⟩
  · rcases instr?_add ho hx with hold | ⟨-, -, rfl⟩
    · exact Nat.lt_of_lt_of_le (hs.bound k' i x d hold hd) hle
    · exact (hdst d hd).2
  -- The temporary of the new instruction is that of no other.
  · rcases instr?_add ho hx with hold | ⟨rfl, rfl, rfl⟩ <;>
      rcases instr?_add ho hx' with hold' | ⟨rfl, rfl, rfl⟩
    · exact hs.once k' i k'' i' x x' d hold hold' hd hd'
    · exact absurd (hs.bound _ _ _ _ hold hd) (Nat.not_lt.2 (hdst d hd').1)
    · exact absurd (hs.bound _ _ _ _ hold' hd') (Nat.not_lt.2 (hdst d hd).1)
    · exact ⟨rfl, rfl⟩
  · rcases Nat.lt_or_ge d b.temps.length with hlt | hge
    · obtain ⟨k', i, x, hx, hd⟩ := hs.given d hlt
      exact ⟨k', i, x, instr?_add_of_some ho hx, hd⟩
    · exact ⟨k, _, ins, instr?_add_self ho, (hins.dst d).2 ⟨hge, hd⟩⟩
  · rcases instr?_add ho hx with hold | ⟨rfl, -, heq⟩
    · exact hs.slots k' i d ty hold
    · exact hslot d ty heq.symm
  · exact (List.mem_append.1 hf).elim (hs.temps f) (hins.within f)
  · rcases instr?_add ho hx with hold | ⟨rfl, rfl, rfl⟩
    · exact (hs.instrs k' i x hold).mono (.refl p) hty
    · exact hins.typed
  · rw [getElem?_add ho] at ho'
    split at ho'
    next heq =>
      obtain rfl := Option.some.inj ho'
      exact hadmits (hs.ends k o t ho ht)
    next => exact hadmits (hs.ends k' o' t ho' ht)
  · rw [getElem?_add ho] at ho'
    split at ho'
    next heq =>
      obtain rfl := Option.some.inj ho'
      exact heq ▸ hs.labels k o ho
    next => exact hs.labels k' o' ho'

theorem Into.add (ho : b.blocks[k]? = some o)
    (hopen : o.terminator = none ∨ ins.SlotFrom b.temps.length) :
    b.Into (b.add fields k ins) := by
  refine ⟨rfl, rfl, List.prefix_append _ _, fun k' o' ho' => ?_⟩
  rw [getElem?_add ho]
  split
  next heq =>
    subst heq
    obtain rfl := Option.some.inj (ho.symm.trans ho')
    refine ⟨_, [ins], rfl, rfl, fun t ht => ⟨ht, fun i hi => ?_⟩⟩
    rw [List.mem_singleton.1 hi]
    exact hopen.resolve_left (by simp [ht])
  next => exact ⟨o', [], ho', by simp, fun t ht => ⟨ht, by simp⟩⟩

/-- An instruction in a block that may be touched. -/
theorem Extends.add (hs : b.Sound p) (hin : b.Inside N c) (ho : b.blocks[k]? = some o)
    (hopen : o.terminator = none ∨ ins.SlotFrom b.temps.length)
    (hk : some k = c ∨ N ≤ k ∨ k = 0) (hins : b.Adds p fields ins)
    (hslot : ∀ d ty, ins = .alloca d ty → k = 0) :
    b.Extends p N c (b.add fields k ins) := by
  refine ⟨.add ho hopen, fun k' hk' hc h0 => ?_, hin, hs.add ho hins hslot⟩
  have hne : k ≠ k' := by
    rintro rfl
    rcases hk with h | h | h
    · exact hc h
    · exact absurd hk' (Nat.not_lt.2 h)
    · exact h0 h
  rw [getElem?_add ho, if_neg hne]

theorem here?_add {pt : Point} (ho : b.blocks[k]? = some o) (h : b.here? = some pt)
    (hk : pt.block = k) : (b.add fields k ins).here? =
      some ⟨pt.temps + fields.length, pt.block, pt.index + 1⟩ := by
  obtain ⟨hcurrent, htemps, hindex⟩ := of_here? h
  subst hk
  have hcurrent' : (b.add fields pt.block ins).current = some pt.block := hcurrent
  rw [here?, hcurrent', Option.map_some, getElem?_add ho, if_pos rfl]
  simp [Builder.add, htemps, hindex o ho]

/-- What is added stands where the body went on. -/
theorem at_add {pt : Point} (ho : b.blocks[k]? = some o) (h : b.here? = some pt)
    (hk : pt.block = k) (hq : q.Covers (b.add fields k ins)) : q.At pt ins := by
  obtain ⟨-, -, hindex⟩ := of_here? h
  subst hk
  obtain ⟨o', more, ho', hinstrs, -⟩ := hq pt.block _ (by rw [getElem?_add ho, if_pos rfl])
  rw [Proc.At, Proc.instr?, ho', Option.bind_some, hinstrs, hindex o ho]
  simp

end Add

theorem blank_newBlock (b : Builder) (name : String) :
    (b.newBlock name).2.Blank b.blocks.length := by
  simp [newBlock, Blank]

theorem Into.newBlock (b : Builder) (name : String) : b.Into (b.newBlock name).2 :=
  ⟨rfl, rfl, List.prefix_rfl, fun _ o ho => ⟨o, [], getElem?_of_initial (List.prefix_append _ _) ho,
    by simp, fun _ ht => ⟨ht, by simp⟩⟩⟩

theorem Into.switchTo (b : Builder) (k : BlockId) : b.Into (b.switchTo k) :=
  ⟨rfl, rfl, List.prefix_rfl, fun _ o ho => ⟨o, [], ho, by simp, fun _ ht => ⟨ht, by simp⟩⟩⟩

theorem Extends.newBlock (hs : b.Sound p) (hin : b.Inside N c) (hN : N ≤ b.blocks.length)
    (name : String) : b.Extends p N c (b.newBlock name).2 := by
  have hget (k : BlockId) (o : OpenBlock) (ho : b.blocks[k]? = some o) :
      (b.newBlock name).2.blocks[k]? = some o := getElem?_of_initial (List.prefix_append _ _) ho
  have hinstr (k i : Nat) (ins : Instr) (h : (b.newBlock name).2.instr? k i = some ins) :
      b.instr? k i = some ins := by
    obtain ⟨o, ho, hi⟩ := Option.bind_eq_some_iff.1 h
    rcases getElem?_append_singleton ho with ho | ⟨rfl, rfl⟩
    · rw [instr?, ho, Option.bind_some, hi]
    · simp at hi
  refine ⟨.newBlock b name, fun k hk _ _ => ?_, hin, ?_, fun k hk => ?_, fun k i ins d h hd => ?_,
    fun k i k' i' ins ins' d h h' hd hd' => ?_, fun d hd => ?_,
    fun k i d ty h => hs.slots k i d ty (hinstr k i _ h), hs.temps,
    fun k i ins h => hs.instrs k i ins (hinstr k i ins h), fun k o t ho ht => ?_,
    fun k o ho => ?_⟩
  · exact List.getElem?_append_left (Nat.lt_of_lt_of_le hk hN)
  · obtain ⟨o, ho⟩ := hs.entry
    exact ⟨o, hget 0 o ho⟩
  · obtain ⟨o, ho, hopen⟩ := hs.current k hk
    exact ⟨o, hget k o ho, hopen⟩
  · exact hs.bound k i ins d (hinstr k i ins h) hd
  · exact hs.once k i k' i' ins ins' d (hinstr _ _ _ h) (hinstr _ _ _ h') hd hd'
  · obtain ⟨k, i, ins, h, hdst⟩ := hs.given d hd
    obtain ⟨o, ho, hi⟩ := Option.bind_eq_some_iff.1 h
    exact ⟨k, i, ins, Option.bind_eq_some_iff.2 ⟨o, hget k o ho, hi⟩, hdst⟩
  · rcases getElem?_append_singleton ho with ho | ⟨rfl, rfl⟩
    · have h := hs.ends k o t ho ht
      refine ⟨h.typed, fun k' hk' => ⟨(h.targets k' hk').1, ?_⟩⟩
      exact Nat.lt_of_lt_of_le (h.targets k' hk').2 (by simp [Builder.newBlock])
    · cases ht
  · rcases getElem?_append_singleton ho with ho | ⟨rfl, rfl⟩
    · exact hs.labels k o ho
    · obtain ⟨first, hfirst⟩ := hs.entry
      have hne : b.blocks.length ≠ 0 :=
        Nat.ne_of_gt (Nat.lt_of_le_of_lt (Nat.zero_le _) (List.getElem?_eq_some_iff.1 hfirst).1)
      rw [Labelled, if_neg hne]
      exact ⟨name, if_neg hne⟩

theorem here?_newBlock (hs : b.Sound p) {pt : Point} (h : b.here? = some pt) (name : String) :
    (b.newBlock name).2.here? = some pt := by
  obtain ⟨hcurrent, htemps, o, ho, -, hindex⟩ := hs.here h
  have hcurrent' : (b.newBlock name).2.current = some pt.block := hcurrent
  rw [here?, hcurrent', Option.map_some, show (b.newBlock name).2.blocks[pt.block]? = some o from
    getElem?_of_initial (List.prefix_append _ _) ho]
  simp [newBlock, ← htemps, ← hindex]

/-- Goes on in a blank block. -/
theorem Extends.switchTo (hs : b.Sound p) {k : BlockId} (hk : b.Blank k) (hN : N ≤ k) :
    b.Extends p N c (b.switchTo k) := by
  obtain ⟨name, hname⟩ := hk
  refine ⟨.switchTo b k, fun _ _ _ _ => rfl, .inr (.inr ⟨k, rfl, hN⟩), hs.entry, fun k' hk' => ?_,
    hs.bound, hs.once, hs.given, hs.slots, hs.temps, hs.instrs,
    fun k o t ho ht => ⟨(hs.ends k o t ho ht).typed, (hs.ends k o t ho ht).targets⟩, hs.labels⟩
  obtain rfl := Option.some.inj hk'
  exact ⟨_, hname, rfl⟩

theorem here?_switchTo {k : BlockId} (hk : b.Blank k) :
    (b.switchTo k).here? = some ⟨b.temps.length, k, 0⟩ := by
  obtain ⟨name, hname⟩ := hk
  simp [here?, switchTo, hname]

end Builder

end ClassLang.Ir
