import ClassLang.Proofs.Lowering.Preservation
import ClassLang.Proofs.Lowering.Shapes
/-!
# Lowering — code that does not get stuck

Any procedure of a lowered program may be called, on any memory that is
typed and with any arguments of the types of its parameters, as long as a
method has its receiver. Every state that is then reached is `Safe`: the
machine goes on or ends, and memory is typed still
(`Accepted.lowered_safe`). What is typed is what the source has
(`TypedMemory.exists_heap`), so this comes of the simulation, for the
functions and methods and for what makes objects and arrays.
-/


namespace ClassLang.Lowering

open Source (TypeExpr Program VarDecl)
open Typing (Analysis TableOk)
open Ir (Proc ProcId)

/-- **Arguments of a procedure**: they are of the types of its parameters, and
a method has a receiver. -/
structure Enters (p : Program) (s : Session) (shapes : Shapes) (id : ProcId) (q : Proc)
    (args : List Ir.Value) : Prop where
  types : List.Forall₂ (fun x field => OfTy p s shapes field.ty x) args q.params
  receiver : ∀ ref, s.methodProcs.get? ref = some id → args[0]? ≠ some .null

/-- **The machine goes on or ends**, memory is typed, and what is returned is
of the type. -/
structure Safe (p : Program) (s : Session) (grant : Nat → Bool) (shapes : Shapes) (ret : Ir.Ty)
    (m : Ir.State) : Prop where
  goes : Ir.step s.ir grant m ≠ .stuck
  typed : ∃ shapes', shapes.Grows shapes' ∧ TypedMemory p s shapes' m.memory ∧
    ∀ x, Ir.step s.ir grant m = .returned x → OfTy p s shapes' ret x

section Calls

variable {p : Program} {printName : String} {a : Analysis} {s : Session} {grant : Nat → Bool}
variable {shapes : Shapes} {W : World} {σ : Semantics.State} {memory : List Ir.Cell} {id : ProcId}
variable {q : Proc} {args : List Ir.Value}

/-- Arguments of the types are values of the source. -/
theorem matchesAll_of_types (hs : s.Ready p a) (hsound : p.SoundClasses) (hW : Shows p a s W shapes)
    {params : List VarDecl} {fields : List Ir.Field}
    (hparams : List.Forall₂ (ParamFor p a s) params fields)
    (h : List.Forall₂ (fun x (field : Ir.Field) => OfTy p s shapes field.ty x) args fields) :
    ∃ values, MatchesAll p W (params.map (·.ty)) values args := by
  induction hparams generalizing args with
  | nil =>
    cases h
    exact ⟨[], .nil⟩
  | cons hparam _ ih =>
    cases h with
    | cons hx hrest =>
      obtain ⟨v, hv⟩ := hx.matches hs hsound hW hparam.ty
      obtain ⟨values, hvalues⟩ := ih hrest
      exact ⟨v :: values, .cons hv hvalues⟩

/-- **Whatever is called returns** what the source does. -/
theorem Session.Complete.returns (hs : s.Complete p printName a) (hp : Typing.WellTyped p printName)
    (hW : Shows p a s W shapes) (hagrees : Agrees p s.ir W W σ (.call memory id args))
    (hq : s.ir.procs[id]? = some q) (henters : Enters p s shapes id q args) (n : Nat) :
    ∃ ty r, Represents p a s ty q.ret ∧
      Returns p s.ir grant W n ty W (.call memory id args) r := by
  have hready := hs.ready
  have htypes := henters.types
  cases hready.apart.known id (List.getElem?_eq_some_iff.1 hq).1 with
  | function hf hproc =>
    obtain ⟨_, hproc', q', hq', hfor⟩ := hready.functions _ _ hf
    obtain rfl := Option.some.inj (hproc.symm.trans hproc')
    obtain rfl := Option.some.inj (hq.symm.trans hq')
    obtain ⟨fields, hparams, hfields⟩ := hfor.params
    rw [hparams] at htypes
    obtain ⟨values, hvalues⟩ := matchesAll_of_types hready hp.classes hW hfields htypes
    exact ⟨_, _, hfor.ret, hs.invokes hp n none _ id values args W σ _ (.function hf hproc)
      (.function hvalues) hagrees rfl⟩
  | @method ref f hm hproc =>
    obtain ⟨c, hc, hm⟩ := Option.bind_eq_some_iff.1 hm
    obtain ⟨_, hproc', q', hq', hfor⟩ := hready.methods _ _ hc _ _ hm
    obtain rfl := Option.some.inj (hproc.symm.trans hproc')
    obtain rfl := Option.some.inj (hq.symm.trans hq')
    obtain ⟨fields, hparams, hfields⟩ := hfor.params
    rw [hparams] at htypes
    have hthis := henters.receiver ref hproc
    cases htypes with
    | cons hx hrest =>
      obtain ⟨values, hvalues⟩ := matchesAll_of_types hready hp.classes hW hfields hrest
      have hname := Program.classId?_name hp.classes.names hc
      obtain ⟨v, hv⟩ := hx.matches hready hp.classes hW (hready.represents_class.2 ⟨_, hname, rfl⟩)
      cases hv with
      | nullClass =>
        -- The one null of the type of a class is what a receiver must not be.
        exact absurd rfl hthis
      | object hid hinherits hlink =>
        exact ⟨_, _, hfor.ret, hs.invokes hp n (some (c.name, _)) f id values _ W σ _
          (.method hc hm hproc) (.method (.object hid hinherits hlink) hvalues) hagrees rfl⟩
  | @object class_ hproc =>
    obtain ⟨hlt, -, q', values, hq', hparams, hret, -, hsingle, hvalues, hcode, -⟩ :=
      hready.objects _ _ hproc
    obtain rfl := Option.some.inj (hq.symm.trans hq')
    rw [hparams] at htypes
    cases htypes
    have hname := Program.classId?_name hp.classes.names (List.getElem?_eq_getElem hlt)
    rw [← hready.sizeOf hlt] at hcode
    exact ⟨_, _, hret ▸ hready.represents_class.2 ⟨_, hname, rfl⟩,
      hcode.returns hret hvalues (hready.typed.globals ▸ hlt) hsingle hq rfl hagrees hname⟩
  | @array ty hproc =>
    obtain ⟨-, q', elem, struct, hq', hd, hstruct, hparams, hret, -, hsingle, hcode, -⟩ :=
      hready.arrays _ _ hproc
    obtain rfl := Option.some.inj (hq.symm.trans hq')
    obtain ⟨target, name, htarget, hdecl⟩ := hready.typed.array hstruct hd
    rw [hparams] at htypes
    cases htypes with
    | cons hsize hrest =>
      cases hrest
      cases hsize with
      | int size => exact ⟨_, _, hret ▸ .array hd hstruct,
          hcode.returns hret hdecl (elemLayout htarget hdecl) hsingle hq rfl hagrees⟩

/-- **What is reached in a call** that returns. -/
theorem Returns.reached {ir : Ir.Program} {origin : World} {n : Nat} {ty : TypeExpr}
    {m m' : Ir.State} {r : Semantics.Result Semantics.Value}
    (h : Returns p ir grant origin (n + 1) ty W m r) (hm : m.callers = [])
    (hreach : Ir.Reaches ir grant n m m') :
    ∃ W' heap, origin.Grows W' ∧ HeapMatches p ir W' heap m'.memory ∧
      Ir.step ir grant m' ≠ .stuck ∧
        ∀ x, Ir.step ir grant m' = .returned x → ∃ v, Matches p W' ty v x := by
  obtain ⟨k, m₁, hruns, hends⟩ := h.concludes hm
  rcases hends.covers hruns hreach (Nat.lt_succ_self n) with
    ⟨-, ⟨⟨W', heap, hgrows, hheap⟩, -⟩, next, hnext⟩ | ⟨rfl, hended⟩
  · exact ⟨W', heap, hgrows, hheap, by simp [hnext], fun x hx => by simp [hnext] at hx⟩
  · cases hends with
    | ok hheap hgrows _ hstep hmatch =>
      refine ⟨_, _, hgrows, hheap, by simp [hstep], fun x hx => ?_⟩
      obtain rfl := Ir.Outcome.returned.inj (hstep.symm.trans hx)
      exact ⟨_, hmatch⟩
    | halt hregular _ hstep =>
      obtain ⟨W', heap, hgrows, hheap⟩ := hregular.filled
      exact ⟨W', heap, hgrows, hheap, by simp [hstep], fun x hx => by simp [hstep] at hx⟩
    | timeout => exact absurd rfl (hended _)

/-- **Calls are safe**, whatever is called. -/
theorem Session.Complete.safe (hs : s.Complete p printName a) (hp : Typing.WellTyped p printName)
    (ht : TableOk p a.findings.table) (hmemory : TypedMemory p s shapes memory)
    (hq : s.ir.procs[id]? = some q) (henters : Enters p s shapes id q args) {n : Nat} {m : Ir.State}
    (hreach : Ir.Reaches s.ir grant n (.call memory id args) m) : Safe p s grant shapes q.ret m := by
  obtain ⟨W, heap, hW, hheap, hlt⟩ := hmemory.exists_heap hs.ready ht hp.classes
  have hagrees : Agrees p s.ir W W ⟨heap, memory.length, 0, []⟩ (.call memory id args) := by
    -- The source goes on from behind memory, where no address has been given away.
    refine ⟨hheap, .refl W, fun addr haddr => ?_, rfl, rfl⟩
    refine Option.eq_none_iff_forall_not_mem.2 fun link hlink => ?_
    exact absurd (hlt addr link hlink) (Nat.not_lt.2 haddr)
  -- With a round more than there are steps, `m` lies on the run or is its end.
  obtain ⟨ty, r, hret, hreturns⟩ := hs.returns hp hW hagrees hq henters (n + 1)
  obtain ⟨W', heap', hgrows, hheap', hstep, hvalue⟩ := hreturns.reached rfl hreach
  obtain ⟨shapes', hshapes'⟩ := hheap'.apart.shows (p := p) (a := a) (s := s) ht
  refine ⟨hstep, shapes', hW.grows hshapes' hgrows, hheap'.typed hs.ready hshapes', fun x hx => ?_⟩
  obtain ⟨v, hv⟩ := hvalue x hx
  exact hv.ofTy hshapes' hret

end Calls

/-- **No procedure of a lowered program gets stuck**, and it leaves memory
typed: whatever memory and arguments it is called with, as long as they are
typed, and whichever requests for memory are met. -/
theorem Accepted.lowered_safe {source printName : String} {p : Program}
    (h : Accepted source printName p) (options : Options) :
    ∃ s : Session, (buildProgram (Typing.analyze p ⟨printName⟩) p options).run .start = .ok ((), s) ∧
      lowerProgram (Typing.analyze p ⟨printName⟩) p options = .ok s.ir ∧
      ∀ (grant : Nat → Bool) shapes memory id q args, TypedMemory p s shapes memory →
        s.ir.procs[id]? = some q → Enters p s shapes id q args →
        ∀ n m, Ir.Reaches s.ir grant n (.call memory id args) m →
          Safe p s grant shapes q.ret m := by
  obtain ⟨s, hrun, hs, hcomplete⟩ := h.complete options
  exact ⟨s, hrun, hs, fun _ _ _ _ _ _ hmemory hq henters _ _ hreach =>
    hcomplete.safe (.of_ok h.ok) h.supports.covers.table hmemory hq
      henters hreach⟩

/-- A method is called on an object of a class below its own. -/
theorem lowered_safe_overriding :
    ∃ (s : Session) (memory : List Ir.Cell) (shapes : Shapes) (q : Proc),
    (buildProgram (Typing.analyze (Source.parse overriding).program ⟨"print"⟩)
      (Source.parse overriding).program ⟨false⟩).run .start = .ok ((), s) ∧
    shapes 2 = some (.object 1) ∧ TypedMemory (Source.parse overriding).program s shapes memory ∧
    s.ir.procs[1]? = some q ∧
    Enters (Source.parse overriding).program s shapes 1 q [.ptr ⟨2, []⟩] ∧
    ∀ grant n m, Ir.Reaches s.ir grant n (.call memory 1 [.ptr ⟨2, []⟩]) m →
      Safe (Source.parse overriding).program s grant shapes q.ret m := by
  obtain ⟨s, hrun, -, hsafe⟩ := accepted_overriding.lowered_safe ⟨false⟩
  obtain ⟨-, -, hsuper, hsession⟩ := run_overriding
  rw [hrun] at hsession
  obtain ⟨hclasses, hstruct, hglobals, hproc⟩ : _ ∧ _ ∧ _ ∧ _ := by
    simpa [Except.map] using hsession
  obtain ⟨q, hq, hparams⟩ := hproc
  have hA : s.classes[0]? = some ⟨"A", 0, 1, 0, [("f", 1)]⟩ := by rw [hclasses]; rfl
  have hB : s.classes[1]? = some ⟨"B", 2, 3, 1, [("f", 2)]⟩ := by rw [hclasses]; rfl
  have hbelow : (Source.parse overriding).program.Inherits 1 0 := .single hsuper
  have hcell : TypedCell (Source.parse overriding).program s
      (fun o => if o = 2 then some (.object 1) else none) (.object 1)
      (.agg fun _ => .scalar (.ptr ⟨1, []⟩)) := by
    refine .object hB hstruct rfl fun i field hi hfield => ?_
    obtain ⟨i, rfl⟩ := Nat.exists_eq_add_one_of_ne_zero (Nat.ne_of_gt hi)
    cases hfield
  have hmemory : TypedMemory (Source.parse overriding).program s
      (fun o => if o = 2 then some (.object 1) else none)
      (s.ir.globalCells ++ [.agg fun _ => .scalar (.ptr ⟨1, []⟩)]) := by
    refine ⟨List.prefix_append _ _, fun o shape hshape => ?_⟩
    obtain ⟨rfl, rfl⟩ : o = 2 ∧ Shape.object 1 = shape := by
      simpa [Option.ite_none_right_eq_some] using hshape
    exact ⟨Nat.le_of_eq hglobals, _, by simp [Ir.Program.globalCells, hglobals], hcell⟩
  have henters : Enters (Source.parse overriding).program s
      (fun o => if o = 2 then some (.object 1) else none) 1 q [.ptr ⟨2, []⟩] := by
    refine ⟨?_, fun _ _ => by simp⟩
    rw [hparams]
    exact .cons (.object hA hbelow rfl) .nil
  exact ⟨s, _, _, q, hrun, rfl, hmemory, hq, henters,
    fun grant n m hreach => hsafe grant _ _ 1 q _ hmemory hq henters n m hreach⟩

end ClassLang.Lowering
