import ClassLang.Proofs.Ir.Typing
/-!
# Intermediate form — numbers that are in range

Structs, globals, procedures, temporaries and parameters are known by
numbers. `Program.InRange` says that every number that occurs names
something; typed programs have only such numbers (`Program.Typed.inRange`).
-/


namespace ClassLang.Ir

/-- What the operand names is there. -/
def Operand.InRange (p : Program) (params temps : List Field) : Operand → Prop
  | .int _ | .bool _ | .null => True
  | .temp id => id < temps.length
  | .param index => index < params.length
  | .global id => id < p.globals.length
  | .proc id => id < p.procs.length

/-- What the instruction names is there. -/
structure Instr.InRange (p : Program) (params temps : List Field) (i : Instr) : Prop where
  operands : ∀ v ∈ i.operands, v.InRange p params temps
  dst : ∀ d, i.dst? = some d → d < temps.length
  slot : ∀ d ty, i = .alloca d ty → ty.Within p

/-- What the procedure names is there. -/
structure Proc.InRange (p : Program) (q : Proc) : Prop where
  signature : q.signature.Within p
  temps : ∀ f ∈ q.temps, f.ty.Within p
  instrs : ∀ o ∈ q.blocks, ∀ i ∈ o.instrs, i.InRange p q.params q.temps
  ends : ∀ o ∈ q.blocks, ∀ v ∈ o.terminator.operands, v.InRange p q.params q.temps

/-- **What the program names is there**, in the fields of structs and in
constants too. -/
structure Program.InRange (p : Program) : Prop where
  structs : ∀ decl ∈ p.structs, ∀ f ∈ decl.fields, f.ty.Within p
  globals : ∀ g ∈ p.globals, g.ty.Within p ∧ g.init.Within p
  procs : ∀ q ∈ p.procs, q.InRange p

section InRange

variable {p : Program} {params temps : List Field}

/-- An operand that has a type names something. -/
theorem HasTy.inRange {v : Operand} {ty : Ty} (h : HasTy p params temps v ty) :
    v.InRange p params temps := by
  cases v with
  | int => trivial
  | bool => trivial
  | null => trivial
  | temp id =>
    obtain ⟨⟨f, hf, -⟩, -⟩ := hasTy_temp.1 h
    exact (List.getElem?_eq_some_iff.1 hf).1
  | param index =>
    obtain ⟨⟨f, hf, -⟩, -⟩ := hasTy_param.1 h
    exact (List.getElem?_eq_some_iff.1 hf).1
  | global id =>
    obtain ⟨⟨g, hg, -⟩, -⟩ := hasTy_global.1 h
    exact (List.getElem?_eq_some_iff.1 hg).1
  | proc id =>
    obtain ⟨⟨q, hq, -⟩, -⟩ := hasTy_proc.1 h
    exact (List.getElem?_eq_some_iff.1 hq).1

/-- The operands of a typed instruction, and the temporary that it gives,
have types. -/
theorem Instr.Typed.hasTys {i : Instr} (h : i.Typed p (HasTy p params temps)) :
    (∀ v ∈ i.operands, ∃ ty, HasTy p params temps v ty) ∧
      ∀ d, i.dst? = some d → ∃ ty, HasTy p params temps (.temp d) ty := by
  cases h with
  | alloca hd => simpa [operands, dst?] using ⟨_, hd⟩
  | load ha hd => simpa [operands, dst?] using ⟨⟨_, ha⟩, _, hd⟩
  | store ha hv => simpa [operands, dst?] using ⟨⟨_, ha⟩, _, hv⟩
  | storeNull ha => simpa [operands, dst?] using ⟨⟨_, ha⟩, _, hasTy_null⟩
  | ints _ hl hr hd => simpa [operands, dst?] using ⟨⟨⟨_, hl⟩, _, hr⟩, _, hd⟩
  | bools _ hl hr hd => simpa [operands, dst?] using ⟨⟨⟨_, hl⟩, _, hr⟩, _, hd⟩
  | eq hl hr hd => simpa [operands, dst?] using ⟨⟨⟨_, hl⟩, _, hr⟩, _, hd⟩
  | eqNull hl hd => simpa [operands, dst?] using ⟨⟨⟨_, hl⟩, _, hasTy_null⟩, _, hd⟩
  | elementPtr hb hf hr _ hd =>
    simpa [operands, dst?] using ⟨⟨⟨_, hb⟩, ⟨_, hf⟩, fun v hv => ⟨_, hr v hv⟩⟩, _, hd⟩
  | bitcast hv _ hd => simpa [operands, dst?] using ⟨⟨_, hv⟩, _, hd⟩
  | alloc hs hd => simpa [operands, dst?] using ⟨⟨_, hs⟩, _, hd⟩
  | call hc hargs hd =>
    have hall : ∀ v ∈ _, ∃ ty, HasTy p params temps v ty := fun v hv => by
      obtain ⟨i, hi⟩ := List.mem_iff_getElem?.1 hv
      obtain ⟨ty, -, hty⟩ := getElem?_of_forall₂ hargs hi
      exact ⟨ty, hty⟩
    simpa [operands, dst?] using ⟨⟨⟨_, hc⟩, hall⟩, _, hd⟩
  | print hv => simpa [operands, dst?] using ⟨_, hv⟩
  | comment => simp [operands, dst?]

theorem Instr.Typed.inRange {i : Instr} (h : i.Typed p (HasTy p params temps)) :
    i.InRange p params temps := by
  obtain ⟨hoperands, hdst⟩ := h.hasTys
  refine ⟨fun v hv => ?_, fun d hd => ?_, fun d ty heq => ?_⟩
  · obtain ⟨ty, hty⟩ := hoperands v hv
    exact hty.inRange
  · obtain ⟨ty, hty⟩ := hdst d hd
    exact hty.inRange
  · subst heq
    cases h with
    | alloca hty => exact Ty.within_ptr.1 hty.within

theorem Terminator.Typed.inRange {ret : Ty} {t : Terminator}
    (h : t.Typed (HasTy p params temps) ret) : ∀ v ∈ t.operands, v.InRange p params temps := by
  cases h with
  | branch h => exact List.forall_mem_singleton.2 h.inRange
  | jump => exact List.forall_mem_nil _
  | ret h => exact List.forall_mem_singleton.2 h.inRange
  | halt => exact List.forall_mem_nil _

/-- **Typed programs name only what is there.** -/
theorem Program.Typed.inRange (h : p.Typed) : p.InRange := by
  refine ⟨h.structs, h.globals, fun q hq => ?_⟩
  have hq := h.procs q hq
  exact ⟨hq.signature, hq.temps, fun o ho i hi => (hq.instrs o ho i hi).inRange,
    fun o ho => (hq.ends o ho).inRange⟩

end InRange

end ClassLang.Ir
