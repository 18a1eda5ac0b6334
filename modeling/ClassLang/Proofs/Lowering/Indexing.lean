import ClassLang.Proofs.Lowering.Continuations
import ClassLang.Proofs.Lowering.Division
import ClassLang.Proofs.Lowering.Elements
/-!
# Lowering — elements of arrays

An emission into an open block adds code that stands from where the body went on
to where it goes on, in every procedure made of a later body (`Emit.Codes`). So the
code of an element is the check for null, the code of the index, and the address
with the check of the index (`index_checked`). The checks are exact: the one halts
for null before the index is computed, and the other for the indices that the array
has no element of, with nothing but its length read.
-/


namespace ClassLang

namespace Ir

open Builder

variable {b : Builder} {ks : List BlockId}

/-! ## Where bodies go on -/

theorem Builder.Awaits.here (h : b.Awaits ks) {pt : Point} (hpt : b.here? = some pt) :
    ∃ o, b.blocks[pt.block]? = some o ∧ o.terminator = none := by
  obtain ⟨hcurrent, -⟩ := of_here? hpt
  exact h.opened pt.block (by simp [hcurrent])

/-- Where code goes is in a block. -/
theorem Builder.exists_here (b : Builder) : ∃ pt, b.insertion.2.here? = some pt :=
  ⟨_, by rw [here?, b.current_insertion]; rfl⟩

theorem Builder.define_insertion (b : Builder) (name : String) (ty : Ty) (i : TempId → Instr) :
    b.insertion.2.define name ty i = b.define name ty i := by
  cases hcurrent : b.current with
  | some k => simp [insertion, hcurrent]
  | none => simp [define, newTemp, emit, insertion, hcurrent, newBlock, switchTo]

theorem Builder.elementPtr_insertion (b : Builder) (p : Program) (name : String) (base : Operand)
    (indices : List Operand) :
    b.insertion.2.elementPtr p name base indices = b.elementPtr p name base indices := by
  have hpointee : b.insertion.2.pointee p base = b.pointee p base := by
    unfold insertion
    cases b.current <;> rfl
  simp only [elementPtr, hpointee, define_insertion]

end Ir

namespace Lowering

open Ir (Operand Builder BlockId Proc Point Instr TempId Field)
open Ir.Builder (of_here? here?_add at_add)
open Semantics (Fault)

variable {α β : Type} {ks : List BlockId} {p : Ir.Program}

/-- Computations in turn end with results in turn. -/
theorem runs_of_bind {σ ε : Type} {x : StateT σ (Except ε) α} {k : α → StateT σ (Except ε) β}
    {s : σ} {r : β × σ} (h : (x >>= k).run s = .ok r) :
    ∃ v s', x.run s = .ok (v, s') ∧ (k v).run s' = .ok r := by
  rw [StateT.run_bind] at h
  cases hx : x.run s with
  | error e => rw [hx] at h; cases h
  | ok found => rw [hx] at h; exact ⟨found.1, found.2, rfl, h⟩

/-! ## Code that is emitted -/

/-- **An emission has code**: it goes into an open block, and stands from where
the body went on to where it goes on. -/
def Emit.Codes (ks : List BlockId) (x : Emit α) (code : α → Proc → Point → Point → Prop) : Prop :=
  ∀ b v b' pt, b.Awaits ks → b.here? = some pt → x.run b = .ok (v, b') →
    b'.Awaits ks ∧ b.Into b' ∧ ∃ pt', b'.here? = some pt' ∧
      ∀ q : Proc, q.Covers b' → code v q pt pt'

namespace Emit

variable {x : Emit α} {code code' : α → Proc → Point → Point → Prop}

theorem Codes.mono (h : Codes ks x code)
    (hcode : ∀ v q pt pt', code v q pt pt' → code' v q pt pt') : Codes ks x code' := by
  intro b v b' pt hb hpt hrun
  obtain ⟨hb', hinto, pt', hpt', hall⟩ := h b v b' pt hb hpt hrun
  exact ⟨hb', hinto, pt', hpt', fun q hq => hcode v q pt pt' (hall q hq)⟩

/-- **Emissions in turn.** -/
theorem Codes.bind {k : α → Emit β} {next : α → β → Proc → Point → Point → Prop}
    (h : Codes ks x code) (hk : ∀ v, Codes ks (k v) (next v)) :
    Codes ks (x >>= k) fun w q pt pt'' => ∃ v pt', code v q pt pt' ∧ next v w q pt' pt'' := by
  intro b w b'' pt hb hpt hrun
  obtain ⟨v, b', hx, hrest⟩ := runs_of_bind hrun
  obtain ⟨hb', hinto, pt', hpt', hall⟩ := h b v b' pt hb hpt hx
  obtain ⟨hb'', hinto', pt'', hpt'', hall'⟩ := hk v b' w b'' pt' hb' hpt' hrest
  exact ⟨hb'', hinto.trans hinto', pt'', hpt'', fun q hq =>
    ⟨v, pt', hall q (hinto'.covers hq), hall' q hq⟩⟩

/-- What gives a temporary its value. -/
theorem Codes.of_define {x : Emit Operand} {i : TempId → Instr}
    (h : ∀ b r, x.run b = .ok r → ∃ name ty, b.define name ty i = r) :
    Codes ks x fun v q pt pt' => q.Defines i pt v pt' := by
  intro b v b' pt hb hpt hrun
  obtain ⟨name, ty, hdefine⟩ := h b _ hrun
  obtain ⟨hcurrent, htemps, -⟩ := of_here? hpt
  obtain ⟨o, ho, hopen⟩ := hb.here hpt
  have hinsertion : b.insertion = (pt.block, b) := by rw [Builder.insertion, hcurrent]
  obtain rfl : (b.define name ty i).1 = v := congrArg Prod.fst hdefine
  obtain rfl : (b.define name ty i).2 = b' := congrArg Prod.snd hdefine
  obtain ⟨hb', hinto⟩ := Builder.Builds.define (J := Builder.Continues) ks b name ty i hb
  refine ⟨hb', hinto, ?_⟩
  rw [Builder.define_eq, hinsertion, ← htemps]
  exact ⟨_, here?_add ho hpt rfl, fun q hq =>
    ⟨at_add ho hpt rfl hq, congrArg Operand.temp htemps.symm, rfl⟩⟩

theorem codes_define (name : String) (ty : Ir.Ty) (i : TempId → Instr) :
    Codes ks (fun b => .ok (b.define name ty i)) fun v q pt pt' => q.Defines i pt v pt' :=
  .of_define fun _ _ h => ⟨name, ty, Except.ok.inj h⟩

theorem codes_load (name : String) (addr : Operand) :
    Codes ks (load p name addr) fun v q pt pt' => q.Defines (.load · addr) pt v pt' :=
  .of_define fun _ _ h => ⟨name, define_of_load h⟩

theorem codes_elementPtr (name : String) (base : Operand) (indices : List Operand) :
    Codes ks (elementPtr p name base indices) fun v q pt pt' =>
      q.Defines (.elementPtr · base indices) pt v pt' :=
  .of_define fun _ _ h => ⟨name, define_of_elementPtr h⟩

/-- **A check** ends its block and goes on in another one. -/
theorem codes_haltIf (cond : Operand) (fail ok message : String) :
    Codes ks (haltIf cond fail ok message) fun _ q pt pt' => q.HaltsIf cond message pt pt' := by
  intro b v b' pt hb hpt hrun
  obtain rfl : b.check cond fail ok message = b' := (Prod.mk.inj (Except.ok.inj hrun)).2
  have hcontinues : Builder.Continues ks ks [] b (b.check cond fail ok message) :=
    Builder.continues_check ks b cond fail ok message
  obtain ⟨hb', hinto⟩ := hcontinues hb
  obtain ⟨hcurrent, htemps, hindex⟩ := of_here? hpt
  obtain ⟨o, ho, -⟩ := hb.here hpt
  have hlt : pt.block < b.blocks.length := (List.getElem?_eq_some_iff.1 ho).1
  have hcheck := Builder.check_eq_tail hcurrent hlt cond fail ok message
  -- The block ends with the branch, and the one that halts is the first behind the old ones.
  have hseal : (b.check cond fail ok message).blocks[pt.block]? =
      some (o.seal (.branch cond b.blocks.length (b.blocks.length + 1))) := by
    rw [hcheck, Builder.tail, List.getElem?_append_left (by simpa using hlt), List.getElem?_modify,
      ho]
    simp
  have hfail : (b.check cond fail ok message).blocks[b.blocks.length]? =
      some ⟨Ir.numbered fail b.blocks.length, [], some (.halt message)⟩ := by
    rw [hcheck]
    simp [Builder.tail]
  have hle : pt.temps ≤ (b.check cond fail ok message).temps.length :=
    htemps ▸ hinto.temps.length_le
  have hhere : (b.check cond fail ok message).here? = some (pt.enter (b.blocks.length + 1)) := by
    rw [hcheck]
    simp [Builder.here?, Builder.tail, Point.enter, htemps]
  exact ⟨hb', hinto, _, hhere, fun q hq => .mk (hq.ends_last hseal rfl (hindex o ho) hle)
    (hq.ends_last hfail rfl rfl hle) (Nat.ne_zero_of_lt hlt) (Nat.succ_ne_zero _)⟩

theorem codes_haltIfNull (value : Operand) (message : String) :
    Codes ks (haltIfNull value message) fun _ q pt pt' => q.HaltsIfNull value message pt pt' :=
  (Codes.bind (codes_define _ _ _) fun isNull => codes_haltIf isNull _ _ message).mono
    fun _ _ _ _ ⟨_, _, hdefine, hhalts⟩ => .mk hdefine hhalts

theorem codes_arrayLength (array : Operand) :
    Codes ks (member p "length_addr" array 0 >>= load p "length") fun v q pt pt' =>
      q.Length array pt v pt' :=
  (Codes.bind (codes_elementPtr _ _ _) fun addr => codes_load "length" addr).mono
    fun _ _ _ _ ⟨_, _, hmember, hload⟩ => .mk hmember hload

/-- **The address of an element**, behind the check of the index. -/
theorem codes_element (array index : Operand) (message : String) :
    Codes ks (do
      let length ← member p "length_addr" array 0 >>= load p "length"
      let below ← binary "below" .lt index (.int 0)
      let last ← binary "last" .sub length (.int 1)
      let above ← binary "above" .lt last index
      let outOfBounds ← binary "out_of_bounds" .or below above
      haltIf outOfBounds "out_of_bounds" "in_bounds" message
      elementPtr p "elem" array [.int 0, .int 1, index])
      fun v q pt pt' => q.Element array index message pt v pt' :=
  (Codes.bind (codes_arrayLength array) fun _ =>
    .bind (codes_define _ _ _) fun _ => .bind (codes_define _ _ _) fun _ =>
    .bind (codes_define _ _ _) fun _ => .bind (codes_define _ _ _) fun outside =>
    .bind (codes_haltIf outside _ _ message) fun _ => codes_elementPtr _ _ _).mono
    fun _ _ _ _ ⟨_, _, hlength, _, _, hbelow, _, _, hlast, _, _, habove, _, _, houtside, _, _,
      hhalts, helem⟩ => .mk hlength hbelow hlast habove houtside hhalts helem

/-! ### Where no block is open -/

/-- An emission that goes into a block of its own where none is open: it might as well
start there. -/
def Opens (x : Emit α) : Prop := ∀ b : Builder, x.run b.insertion.2 = x.run b

theorem Opens.bind (h : Opens x) (k : α → Emit β) : Opens (x >>= k) := fun b => by
  rw [StateT.run_bind, StateT.run_bind, h b]

theorem opens_define (name : String) (ty : Ir.Ty) (i : TempId → Instr) :
    Opens (fun b => .ok (b.define name ty i)) := fun b =>
  congrArg Except.ok (b.define_insertion name ty i)

theorem opens_elementPtr (name : String) (base : Operand) (indices : List Operand) :
    Opens (elementPtr p name base indices) := fun b => b.elementPtr_insertion p name base indices

/-- **Its code** starts in the block that it goes into. -/
theorem Codes.starts (h : Codes ks x code) (hx : Opens x) {b b' : Builder} {v : α}
    (hb : b.Awaits ks) (hrun : x.run b = .ok (v, b')) :
    b'.Awaits ks ∧ b.Into b' ∧ ∃ pt pt', b.insertion.2.here? = some pt ∧ b'.here? = some pt' ∧
      ∀ q : Proc, q.Covers b' → code v q pt pt' := by
  obtain ⟨pt, hpt⟩ := b.exists_here
  obtain ⟨hb', hinto, pt', hpt', hall⟩ :=
    h b.insertion.2 v b' pt hb.insertion.1 hpt ((hx b).trans hrun)
  exact ⟨hb', b.into_insertion.trans hinto, pt, pt', hpt, hpt', hall⟩

end Emit

/-! ## Code that is lowered -/

namespace Lower

variable {s s' : Body}

theorem of_emit {x : Ir.Program → Emit α} {v : α} (h : (emit x).run s = .ok (v, s')) :
    (x s.session.ir).run s.builder = .ok (v, s'.builder) ∧ s'.line = s.line := by
  have hends := ends_emit (F := fun _ => True) (fun _ => trivial) (.run (x s.session.ir) s.builder)
  obtain ⟨b, rfl, hrun⟩ := hends.result h
  exact ⟨hrun, rfl⟩

/-- Two emissions are one; the line is the same for both. -/
theorem run_emit_bind (x : Ir.Program → Emit α) (y : α → Nat → Ir.Program → Emit β)
    (pos : Option Pos) : (emit x >>= fun v => lineOf pos >>= fun line => emit (y v line)).run s =
      (emit fun p => x p >>= fun v => y v (Semantics.lineOf s.line pos) p).run s := by
  show (ofIr ((x s.session.ir).run s.builder) >>= fun r => .ok (r.1, { s with builder := r.2 })) >>=
    (fun r => (emit (y r.1 (Semantics.lineOf r.2.line pos))).run r.2) =
      (ofIr ((x s.session.ir).run s.builder >>= fun r =>
        (y r.1 (Semantics.lineOf s.line pos) s.session.ir).run r.2) >>= fun r =>
          .ok (r.1, { s with builder := r.2 }))
  cases (x s.session.ir).run s.builder <;> rfl

theorem run_nullCheck (v : Operand) (pos : Option Pos) : (nullCheck v pos).run s =
    (emit fun _ => Emit.haltIfNull v
      (Fault.nullPointer (Semantics.lineOf s.line pos)).message).run s := by
  have hline : (lineOf pos).run s = .ok (Semantics.lineOf s.line pos, s) := rfl
  rw [nullCheck, StateT.run_bind, hline, Emit.ok_bind]
  rfl

theorem codes_nullCheck {v : Operand} {pos : Option Pos} (hs : s.builder.Awaits ks)
    (h : (nullCheck v pos).run s = .ok ((), s')) :
    s'.line = s.line ∧ s'.builder.Awaits ks ∧ s.builder.Into s'.builder ∧
      ∃ pt pt', s.builder.insertion.2.here? = some pt ∧ s'.builder.here? = some pt' ∧
        ∀ q : Proc, q.Covers s'.builder →
          q.HaltsIfNull v (Fault.nullPointer (Semantics.lineOf s.line pos)).message pt pt' := by
  obtain ⟨hrun, hline⟩ := of_emit ((run_nullCheck v pos).symm.trans h)
  exact ⟨hline, (Emit.codes_haltIfNull v _).starts ((Emit.opens_define _ _ _).bind _) hs hrun⟩

theorem codes_elementAddr {array index v : Operand} {pos : Option Pos} (hs : s.builder.Awaits ks)
    (h : (elementAddr array index pos).run s = .ok (v, s')) :
    s'.builder.Awaits ks ∧ s.builder.Into s'.builder ∧
      ∃ pt pt', s.builder.insertion.2.here? = some pt ∧ s'.builder.here? = some pt' ∧
        ∀ q : Proc, q.Covers s'.builder → q.Element array index
          (Fault.outOfBounds (Semantics.lineOf s.line pos)).message pt v pt' := by
  obtain ⟨hrun, -⟩ := of_emit ((run_emit_bind _ _ pos).symm.trans h)
  have hopens := Emit.opens_elementPtr (p := s.session.ir) "length_addr" array [.int 0, .int 0]
  exact (Emit.codes_element array index _).starts ((hopens.bind _).bind _) hs hrun

end Lower

/-! ## Checks -/

/-- **The check for null is exact**: the machine halts if the operand is null, and
otherwise comes to the second point. Nothing is read or written. -/
def ChecksNull (q : Proc) (v : Operand) (message : String) (pt pt' : Point) : Prop :=
  ∀ (p : Ir.Program) (grant : Nat → Bool) (m : Ir.State) (x : Ir.Value), m.At p q pt →
    m.frame.eval? p v = some x →
    if x = .null then
      Ir.HaltsAfter p grant (Ir.State.Confined p (fun _ => False) m.callers) [] m message
    else ∃ m', Ir.Crosses p grant q (· < pt.temps) (fun _ => False) [] m pt' m'

/-- **The check of an index is exact**: the machine halts if the array has no element
of the index, and otherwise comes to the second point with its address. All that is
read is the length of the array, nothing is written, and no operation wraps around. -/
def ChecksIndex (q : Proc) (array index v : Operand) (message : String) (pt pt' : Point) : Prop :=
  ∀ (p : Ir.Program) (grant : Nat → Bool) (m : Ir.State) (o length : Nat) (i : Int32),
    m.At p q pt → m.HasArray o length → m.frame.eval? p array = some (.ptr ⟨o, []⟩) →
    m.frame.eval? p index = some (.int i) →
    if 0 ≤ i ∧ i.toInt < length then
      ∃ m', Ir.Crosses p grant q (· < pt.temps) (· = ⟨o, [0]⟩) [] m pt' m' ∧
        m'.frame.eval? p v = some (.ptr ⟨o, [1, i.toInt.toNat]⟩)
    else Ir.HaltsAfter p grant (Ir.State.Confined p (· = ⟨o, [0]⟩) m.callers) [] m message

/-- **The code of an element** is that of the array, the check for null, that of the
index, and the address with the check of the index. Both checks are exact, wherever a
body goes on in a block that is open, as all bodies do that are lowered
(`continues_rvalue`). -/
theorem index_checked {a : Typing.Analysis} {s s' : Body} (hs : s.builder.Awaits ks)
    {n : Source.Mark} {array index : Source.Expr} {v : Operand}
    (h : (placeAddr a (.index n array index)).run s = .ok (v, s')) :
    ∃ base i s₁ s₂ s₃ pt₁ pt₂ pt₃ pt₄,
      (rvalue a array).run s = .ok (base, s₁) ∧ s₁.builder.insertion.2.here? = some pt₁ ∧
      (Lower.nullCheck base n.pos).run s₁ = .ok ((), s₂) ∧ s₂.builder.here? = some pt₂ ∧
      (rvalue a index).run s₂ = .ok (i, s₃) ∧ s₃.builder.insertion.2.here? = some pt₃ ∧
      (Lower.elementAddr base i n.pos).run s₃ = .ok (v, s') ∧ s'.builder.here? = some pt₄ ∧
      ∀ q : Proc, q.Covers s'.builder →
        ChecksNull q base (Fault.nullPointer (Semantics.lineOf s.line n.pos)).message pt₁ pt₂ ∧
        ChecksIndex q base i v (Fault.outOfBounds (Semantics.lineOf s.line n.pos)).message
          pt₃ pt₄ := by
  unfold placeAddr at h
  obtain ⟨base, s₁, harray, h⟩ := runs_of_bind h
  obtain ⟨⟨⟩, s₂, hnull, h⟩ := runs_of_bind h
  obtain ⟨i, s₃, hindex, helem⟩ := runs_of_bind h
  obtain ⟨hs₁, -, hline₁⟩ := continues_rvalue a harray hs
  obtain ⟨hline₂, hs₂, hinto₂, pt₁, pt₂, hpt₁, hpt₂, hcode⟩ := Lower.codes_nullCheck hs₁ hnull
  obtain ⟨hs₃, hinto₃, hline₃⟩ := continues_rvalue a hindex hs₂
  obtain ⟨-, hinto₄, pt₃, pt₄, hpt₃, hpt₄, hcode'⟩ := Lower.codes_elementAddr hs₃ helem
  rw [hline₁] at hcode
  rw [hline₃, hline₂, hline₁] at hcode'
  refine ⟨base, i, s₁, s₂, s₃, pt₁, pt₂, pt₃, pt₄, harray, hpt₁, hnull, hpt₂, hindex, hpt₃, helem,
    hpt₄, fun q hq => ⟨fun p grant m x hm hx => ?_, fun p grant m o length j hm ho hbase hi => ?_⟩⟩
  · exact hm.checksNull grant (hcode q ((hinto₃.trans hinto₄).covers hq)) hx
  -- Both operands were there before the code of the address, so it leaves them alone.
  · have hle : s₃.builder.temps.length ≤ pt₃.temps :=
      (of_here? hpt₃).2.1 ▸ s₃.builder.into_insertion.temps.length_le
    have hbase' : base.Before s₁.builder.temps.length := (known_rvalue a array s).result harray
    have hi' : i.Before s₃.builder.temps.length := (known_rvalue a index s₂).result hindex
    exact hm.reachesElement grant (hcode' q hq) hbase ho hi
      (hbase'.mono (Nat.le_trans (hinto₂.trans hinto₃).temps.length_le hle)) (hi'.mono hle) rfl

/-- A name that stands for a local variable. -/
def oneVariable : Typing.Analysis :=
  ⟨{ Typing.Findings.ofTable (.ofClassNames []) [] with vars := [(2, .local_ 1)] }, ⟨[], []⟩,
    ⟨[], "print"⟩⟩

/-- The third element of the array in the variable. -/
def thirdElement : Source.Place :=
  .index ⟨4, some ⟨3, 1⟩⟩ (.read ⟨3, none⟩ (.var ⟨2, none⟩ "xs")) (.int ⟨5, none⟩ 2)

/-- A body that has an array of integers in the variable. -/
def arrayVariable : Body :=
  ⟨{ Session.start with ir := ⟨[⟨"array_int", arrayFields .int⟩], [], []⟩ },
    ((Builder.start [] .int).alloca "xs" (.ptr (.struct 0))).2, [(1, .temp 0)], false, 1⟩

/-- A procedure that is made of a body. -/
def closed (b : Builder) : Proc :=
  ⟨"third", b.ret, b.params, b.temps, b.blocks.map (Builder.OpenBlock.close "")⟩

/-- The machine behind the check for null, with an array of so many elements. -/
def behindNullCheck (length : Nat) : Ir.State :=
  ⟨[.agg fun i => if i = 0 then .scalar (.int (.ofNat length)) else .uninit], 0, [],
    ⟨0, [], fun t => if t = 1 then some (.ptr ⟨0, []⟩) else none, 2, 0⟩, []⟩

theorem index_checked_third : ∃ v s',
    (placeAddr oneVariable thirdElement).run arrayVariable = .ok (v, s') ∧
      Ir.HaltsAfter ⟨[], [], [closed s'.builder]⟩ (fun _ => true)
        (Ir.State.Confined ⟨[], [], [closed s'.builder]⟩ (· = ⟨0, [0]⟩) []) [] (behindNullCheck 2)
        "Index out of bounds error in line 3" := by
  obtain ⟨s', hrun⟩ : ∃ s', (placeAddr oneVariable thirdElement).run arrayVariable =
      .ok (.temp 9, s') := ⟨_, rfl⟩
  have hs : arrayVariable.builder.Awaits [] :=
    (Builder.Builds.define (J := Builder.Continues) [] _ "xs" (.ptr (.ptr (.struct 0)))
      (.alloca · (.ptr (.struct 0))) (Builder.awaits_start [] .int)).1
  obtain ⟨base, i, s₁, s₂, s₃, pt₁, pt₂, pt₃, pt₄, harray, -, hnull, -, hindex, hpt₃, -, -, h⟩ :=
    index_checked hs hrun
  obtain ⟨rfl, rfl⟩ := Prod.mk.inj (Except.ok.inj harray)
  obtain ⟨-, rfl⟩ := Prod.mk.inj (Except.ok.inj hnull)
  obtain ⟨rfl, rfl⟩ := Prod.mk.inj (Except.ok.inj hindex)
  obtain rfl := Option.some.inj hpt₃
  have hcloses : (closed s'.builder).Closes s'.builder "" := ⟨rfl, rfl, rfl, rfl⟩
  have hhalts := (h _ hcloses.covers).2 ⟨[], [], [closed s'.builder]⟩ (fun _ => true)
    (behindNullCheck 2) 0 2 2 ⟨rfl, rfl, rfl⟩ ⟨by decide, _, rfl, rfl⟩ rfl rfl
  have hout : ¬ ((0 : Int32) ≤ 2 ∧ (2 : Int32).toInt < (2 : Nat)) := by decide
  rw [if_neg hout] at hhalts
  exact ⟨_, s', hrun, hhalts⟩

end Lowering

end ClassLang
