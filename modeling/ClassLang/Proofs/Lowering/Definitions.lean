import ClassLang.Proofs.Ir.Paths
import ClassLang.Proofs.Lowering.Guarantees
/-!
# Lowering — definition before use

The code of every form of expressions and statements uses what was given
before it, or what it gives itself (`ExprCode.clears`, `StmtCode.clears`):
operands that are computed before a part with blocks of its own are given
on every way through the part. So whichever way leads to a use of a
temporary in a lowered program, the temporary was given on it
(`Accepted.lowered_definesFirst`).
-/


namespace ClassLang

open Source (NodeId TypeExpr Expr Place Stmt Program VarDecl FunctionDecl)
open Typing (Analysis Names)
open Ir (Operand Point Proc Instr TempId BlockId Terminator Available)
open Lowering (Session Leaves Commented)

/-! ## Pieces of code -/

namespace Ir.Proc

/-- **A piece of code**: it uses only what is given before, the operands
`uses` among it; behind it the operands `vs` are given. -/
def Clears (q : Proc) (uses vs : List Operand) (pt : Point) (out : Option Point) : Prop :=
  ∀ n given, q.Passed pt given → Available given uses →
    (∀ pt' ∈ out, ∀ m ≤ n, ∀ given', given ⊆ given' → q.Passed pt' given' → Available given' vs →
      q.ClearAt m pt' given') → q.ClearAt n pt given

/-- Whatever temporaries there are in the first list are in the second. -/
def Needs (uses vs : List Operand) : Prop := ∀ t, .temp t ∈ uses → .temp t ∈ vs

section Pieces

variable {q : Proc} {uses uses' vs ws : List Operand} {pt pt' pt₁ pt₂ : Point}
variable {out : Option Point} {v : Operand}

theorem available_of_needs {given : Set TempId} (h : Available given vs) (hneeds : Needs uses vs) :
    Available given uses := fun t ht => h t (hneeds t ht)

theorem available_append {given : Set TempId} (h : Available given vs) (h' : Available given uses) :
    Available given (vs ++ uses) := fun t ht => (List.mem_append.1 ht).elim (h t) (h' t)

theorem Clears.refl : q.Clears uses [] pt (some pt) := fun n given hpassed _ hrest =>
  hrest pt rfl n (Nat.le_refl n) given subset_rfl hpassed available_nil

/-- **Pieces in turn.** The second may use what the first has given. -/
theorem Clears.trans (h : q.Clears uses vs pt (some pt₁)) (h' : q.Clears uses' ws pt₁ out)
    (hneeds : Needs uses' (vs ++ uses)) : q.Clears uses (ws ++ vs) pt out := by
  intro n given hpassed huses hrest
  refine h n given hpassed huses fun _ heq m hm given₁ hle hpassed₁ hvs => ?_
  obtain rfl := Option.some.inj heq
  refine h' m given₁ hpassed₁ (available_of_needs (available_append hvs (huses.mono hle)) hneeds)
    fun pt₂ hpt₂ m' hm' given₂ hle' hpassed₂ hws => ?_
  exact hrest pt₂ hpt₂ m' (Nat.le_trans hm' hm) given₂ (hle.trans hle') hpassed₂
    (available_append hws (hvs.mono hle'))

/-- Fewer operands may be given behind it, and those too that were given
before. -/
theorem Clears.weaken (h : q.Clears uses vs pt out) (hneeds : Needs uses uses')
    (hgives : Needs ws (vs ++ uses')) : q.Clears uses' ws pt out := by
  intro n given hpassed huses hrest
  refine h n given hpassed (available_of_needs huses hneeds)
    fun pt' hpt' m hm given' hle hpassed' hvs => ?_
  exact hrest pt' hpt' m hm given' hle hpassed'
    (available_of_needs (available_append hvs (huses.mono hle)) hgives)

/-- More operands may be given before it. -/
theorem Clears.using (h : q.Clears uses vs pt out) (uses' : List Operand)
    (hneeds : Needs uses uses') : q.Clears uses' vs pt out :=
  h.weaken hneeds fun _ ht => List.mem_append_left _ ht

/-- An instruction. -/
theorem clears_at {ins : Instr} (hat : q.At pt ins) {temps : Nat}
    (hgives : ∀ t, .temp t ∈ vs → ins.dst? = some t) :
    q.Clears ins.operands vs pt (some ⟨temps, pt.block, pt.index + 1⟩) := by
  intro n given hpassed huses hrest
  refine clearAt_at hat huses fun m hm => ?_
  refine hrest _ rfl m (Nat.le_of_lt hm) _ (fun _ => .inr) (hpassed.next hat) fun t ht => ?_
  exact .inl (hgives t ht)

theorem Defines.clears {i : TempId → Instr} (h : q.Defines i pt v pt')
    (hdst : ∀ t, (i t).dst? = some t) : q.Clears (i pt.temps).operands [v] pt (some pt') := by
  obtain ⟨hat, rfl, rfl⟩ := h
  refine clears_at hat fun t ht => ?_
  obtain rfl := Operand.temp.inj (List.mem_singleton.1 ht)
  exact hdst _

/-- An instruction without a result, or one whose result is not used. -/
theorem clears_next {ins : Instr} (hat : q.At pt ins) :
    q.Clears ins.operands [] pt (some pt.next) :=
  clears_at hat (by simp)

theorem Stores.clears {addr value : Operand} (h : q.Stores addr value pt pt') :
    q.Clears [addr, value] [] pt (some pt') := by
  obtain ⟨hat, rfl⟩ := h
  exact clears_next hat

theorem Casts.clears {value : Operand} (h : q.Casts value pt v pt') :
    q.Clears [value] [v] pt (some pt') := by
  rcases h with ⟨rfl, rfl⟩ | h
  · exact Clears.refl.weaken (fun _ h => h) (fun _ h => List.mem_append_right _ h)
  · exact h.clears fun _ => rfl

/-! ### Ends of blocks -/

/-- The code halts or returns. -/
theorem clears_done {t : Terminator} (h : q.Ends pt t) (ht : t.successors = []) :
    q.Clears t.operands [] pt none := fun _ _ hpassed huses _ =>
  clearAt_ends h hpassed huses (by simp [ht])

/-- The code goes on in another block. -/
theorem clears_jump {target : BlockId} (h : q.Ends pt (.jump target)) (temps : Nat) :
    q.Clears [] [] pt (some ⟨temps, target, 0⟩) := by
  intro n given hpassed huses hrest
  refine clearAt_ends h hpassed huses fun m hm target' htarget given' hle hpassed' => ?_
  obtain rfl := List.mem_singleton.1 htarget
  exact hrest _ rfl m (Nat.le_of_lt hm) given' hle (hpassed' temps) available_nil

/-- The code goes on in one of two blocks. -/
theorem clears_branch {cond : Operand} {yes no : BlockId} (h : q.Ends pt (.branch cond yes no))
    (temps temps' : Nat) (hyes : q.Clears uses vs ⟨temps, yes, 0⟩ out)
    (hno : q.Clears uses vs ⟨temps', no, 0⟩ out) : q.Clears (cond :: uses) vs pt out := by
  intro n given hpassed huses hrest
  obtain ⟨hcond, huses⟩ := available_cons.1 huses
  refine clearAt_ends h hpassed hcond fun m hm target htarget given' hle hpassed' => ?_
  have hrest' : ∀ pt' ∈ out, ∀ m' ≤ m, ∀ given'', given' ⊆ given'' → q.Passed pt' given'' →
      Available given'' vs → q.ClearAt m' pt' given'' := fun pt' hpt' m' hm' given'' hle' =>
    hrest pt' hpt' m' (Nat.le_trans hm' (Nat.le_of_lt hm)) given'' (hle.trans hle')
  rcases List.mem_pair.1 htarget with rfl | rfl
  · exact hyes m given' (hpassed' temps) (huses.mono hle) hrest'
  · exact hno m given' (hpassed' temps') (huses.mono hle) hrest'

/-- A part is left for another block. -/
theorem Clears.leaves {target : BlockId} (h : q.Clears uses vs pt out) (hout : Leaves q out target)
    (temps : Nat) : q.Clears uses [] pt (some ⟨temps, target, 0⟩) := by
  intro n given hpassed huses hrest
  refine h n given hpassed huses fun pt' hpt' m hm given' hle hpassed' _ => ?_
  refine clears_jump (hout pt' hpt') temps m given' hpassed' available_nil
    fun pt'' heq m' hm' given'' hle' => ?_
  exact hrest pt'' heq m' (Nat.le_trans hm' hm) given'' (hle.trans hle')

/-- What is clear from the entry on, whatever the way, defines first. -/
theorem Clears.definesFirst (h : q.Clears [] vs ⟨0, 0, 0⟩ out)
    (hout : ∀ pt ∈ out, ∃ t, q.Ends pt t ∧ t.successors = [] ∧ Needs t.operands vs) :
    q.DefinesFirst := by
  refine definesFirst_of_clear fun n => ?_
  refine h n ∅ q.passed_start available_nil fun pt hpt m _ given' _ hpassed' hvs => ?_
  obtain ⟨t, hends, hdone, hneeds⟩ := hout pt hpt
  exact clears_done hends hdone m given' hpassed' (available_of_needs hvs hneeds) nofun

/-- **A loop**: by the number of steps, as every round takes one at least. -/
theorem clears_loop {head inside exit : BlockId} (hjump : q.Ends pt (.jump head))
    (hcond : q.Clears uses (v :: vs) (pt.enter head) (some pt₁))
    (hbranch : q.Ends pt₁ (.branch v inside exit))
    (hbody : q.Clears (vs ++ uses) [] (pt₁.enter inside) out) (hback : Leaves q out head)
    (temps : Nat) :
    q.Clears uses [] pt (some ⟨temps, exit, 0⟩) := by
  have hround : ∀ n given, q.Passed (pt.enter head) given → Available given uses →
      (∀ m ≤ n, ∀ given', given ⊆ given' → q.Passed ⟨temps, exit, 0⟩ given' →
        q.ClearAt m ⟨temps, exit, 0⟩ given') → q.ClearAt n (pt.enter head) given := by
    intro n
    induction n using Nat.strong_induction_on with
    | h n ih =>
      intro given hpassed huses hrest
      refine hcond n given hpassed huses fun pt' heq m hm given₁ hle hpassed₁ hvs => ?_
      obtain rfl := Option.some.inj heq
      obtain ⟨hv, hvs⟩ := available_cons.1 hvs
      have huses₁ := huses.mono hle
      refine clearAt_ends hbranch hpassed₁ hv fun m₁ hm₁ target htarget given₂ hle₁ hpassed₂ => ?_
      have hle₂ := hle.trans hle₁
      rcases List.mem_pair.1 htarget with rfl | rfl
      · refine hbody.leaves hback pt.temps m₁ given₂ (hpassed₂ _)
          (available_append (hvs.mono hle₁) (huses₁.mono hle₁))
          fun pt' heq m₂ hm₂ given₃ hle₃ hpassed₃ _ => ?_
        obtain rfl := Option.some.inj heq
        refine ih m₂ (by omega) given₃ hpassed₃ (huses₁.mono (hle₁.trans hle₃))
          fun m' hm' given' hle' => ?_
        exact hrest m' (by omega) given' ((hle₂.trans hle₃).trans hle')
      · exact hrest m₁ (by omega) given₂ hle₂ (hpassed₂ _)
  intro n given hpassed huses hrest
  refine clears_jump hjump pt.temps n given hpassed available_nil
    fun pt' heq m hm given' hle hpassed' _ => ?_
  obtain rfl := Option.some.inj heq
  exact hround m given' hpassed' (huses.mono hle) fun m' hm' given'' hle' hpassed'' =>
    hrest _ rfl m' (Nat.le_trans hm' hm) given'' (hle.trans hle') hpassed'' available_nil

/-! ### Checks and addresses -/

theorem HasSlot.clears {ty : Ir.Ty} (h : q.HasSlot ty pt pt') :
    q.Clears [] [.temp pt.temps] pt (some pt') := by
  rcases h with ⟨-, hat, rfl⟩ | ⟨hne, ⟨i, hslot⟩, rfl⟩
  · refine clears_at hat fun t ht => ?_
    obtain rfl := Operand.temp.inj (List.mem_singleton.1 ht)
    rfl
  · intro n given hpassed _ hrest
    refine hrest _ rfl n (Nat.le_refl n) given subset_rfl hpassed fun t ht => ?_
    obtain rfl := Operand.temp.inj (List.mem_singleton.1 ht)
    exact hpassed i _ _ hslot rfl fun h0 => absurd h0 hne

theorem HaltsIf.clears {cond : Operand} {message : String} (h : q.HaltsIf cond message pt pt') :
    q.Clears [cond] [] pt (some pt') := by
  cases h with
  | mk hbranch hhalt _ _ =>
    intro n given hpassed huses hrest
    refine clearAt_ends hbranch hpassed huses fun m hm target htarget given' hle hpassed' => ?_
    rcases List.mem_pair.1 htarget with rfl | rfl
    · exact clears_done hhalt rfl m given' (hpassed' _) available_nil nofun
    · exact hrest _ rfl m (Nat.le_of_lt hm) given' hle (hpassed' _) available_nil

theorem HaltsIfNull.clears {value : Operand} {message : String}
    (h : q.HaltsIfNull value message pt pt') : q.Clears [value] [] pt (some pt') := by
  cases h with
  | mk heq hhalts =>
    exact ((heq.clears fun _ => rfl).trans hhalts.clears (by grind [Needs])).weaken
      (by grind [Needs, Instr.operands]) (by grind [Needs])

theorem Member.clears {base : Operand} {index : Nat} (h : q.Member base index pt v pt') :
    q.Clears [base] [v] pt (some pt') :=
  (Defines.clears h fun _ => rfl).weaken (by grind [Needs, Instr.operands]) (by grind [Needs])

theorem Length.clears {array : Operand} (h : q.Length array pt v pt') :
    q.Clears [array] [v] pt (some pt') := by
  cases h with
  | mk haddr hload =>
    exact (haddr.clears.trans (hload.clears fun _ => rfl) (by grind [Needs, Instr.operands])).weaken
      (by grind [Needs]) (by grind [Needs])

theorem Element.clears {array index : Operand} {message : String}
    (h : q.Element array index message pt v pt') : q.Clears [array, index] [v] pt (some pt') := by
  cases h with
  | mk hlength hbelow hlast habove houtside hhalts helem =>
    have h := hlength.clears.using [array, index] (by grind [Needs])
    have h := h.trans (hbelow.clears fun _ => rfl) (by grind [Needs, Instr.operands])
    have h := h.trans (hlast.clears fun _ => rfl) (by grind [Needs, Instr.operands])
    have h := h.trans (habove.clears fun _ => rfl) (by grind [Needs, Instr.operands])
    have h := h.trans (houtside.clears fun _ => rfl) (by grind [Needs, Instr.operands])
    have h := h.trans hhalts.clears (by grind [Needs])
    have h := h.trans (helem.clears fun _ => rfl) (by grind [Needs, Instr.operands])
    exact h.weaken (by grind [Needs]) (by grind [Needs])

theorem Quotient.clears {left right : Operand} {message : String}
    (h : q.Quotient left right message pt v pt') : q.Clears [left, right] [v] pt (some pt') := by
  cases h with
  | @mk _ _ pt₂ _ _ _ _ _ _ _ _ _ _ _ _ pt₉ _ _ hzero hhalts hslot hmin hminus hisMin hoverflow hbranch _ _ hdiv hstore hjump hload =>
    have h := (hzero.clears fun _ => rfl).using [left, right]
      (by grind [Needs, Instr.operands])
    have h := h.trans hhalts.clears (by grind [Needs])
    have h := h.trans hslot.clears (by grind [Needs])
    have h := h.trans hmin.clears (by grind [Needs])
    have h := h.trans (hminus.clears fun _ => rfl) (by grind [Needs, Instr.operands])
    have h := h.trans (hisMin.clears fun _ => rfl) (by grind [Needs, Instr.operands])
    have h := h.trans (hoverflow.clears fun _ => rfl) (by grind [Needs, Instr.operands])
    -- The division is left out on one of the ways to the result.
    have hdivision := ((hdiv.clears fun _ => rfl).using [left, right, .temp pt₂.temps]
      (by grind [Needs, Instr.operands])).trans hstore.clears (by grind [Needs])
    have hdivision := hdivision.trans (clears_jump hjump pt₉.temps) (by simp [Needs])
    have hresult := clears_branch hbranch pt₉.temps _ Clears.refl
      (hdivision.weaken (fun _ h => h) (by simp [Needs]))
    have h := (h.trans hresult (by grind [Needs])).trans (hload.clears fun _ => rfl)
      (by grind [Needs, Instr.operands])
    exact h.weaken (fun _ h => h) (by grind [Needs])

theorem Equality.clears {left right : Operand} (h : q.Equality left right pt v pt') :
    q.Clears [left, right] [v] pt (some pt') := by
  cases h with
  | castLeft hcast heq | castRight hcast heq =>
    have h := (hcast.clears.using [left, right] (by grind [Needs])).trans
      (heq.clears fun _ => rfl) (by grind [Needs, Instr.operands])
    exact h.weaken (fun _ h => h) (by grind [Needs])

theorem Dispatch.clears {object : Operand} {slot : Nat} {args : List Operand}
    (h : q.Dispatch object slot args pt v pt') : q.Clears (object :: args) [v] pt (some pt') := by
  cases h with
  | mk hheader hvtable hentry htarget hcall =>
    have h := hheader.clears.using (object :: args) (by grind [Needs])
    have h := h.trans (hvtable.clears fun _ => rfl) (by grind [Needs, Instr.operands])
    have h := h.trans hentry.clears (by grind [Needs])
    have h := h.trans (htarget.clears fun _ => rfl) (by grind [Needs, Instr.operands])
    have h := h.trans (hcall.clears fun _ => rfl) (by grind [Needs, Instr.operands])
    exact h.weaken (fun _ h => h) (by grind [Needs])

theorem needs_defaultOperand (ty : TypeExpr) : Needs [Lowering.defaultOperand ty] [] := by
  cases ty <;> simp [Needs, Lowering.defaultOperand]

theorem FillsElems.clears {array size : Operand} {elem : TypeExpr}
    (h : q.FillsElems array size elem pt pt') : q.Clears [array, size] [] pt (some pt') := by
  cases h with
  | @mk _ _ _ _ _ i _ _ _ slot _ _ next _ _ n hslot hinit hjump _ _ _ hi hmore hbranch helem
      hdefault hnext hstore hback _ =>
    have hneeds := needs_defaultOperand elem
    have hstart := (hslot.clears.using [array, size] (by simp [Needs])).trans hinit.clears
      (by grind [Needs])
    -- The loop uses the array and the slot of the index, and its body the index.
    have hcond := ((hi.clears fun _ => rfl).using [array, size, .temp pt.temps]
      (by grind [Needs, Instr.operands])).trans (hmore.clears fun _ => rfl)
        (by grind [Needs, Instr.operands])
    have hbody := ((helem.clears fun _ => rfl).using [i, array, size, .temp pt.temps]
      (by grind [Needs, Instr.operands])).trans hdefault.clears (by grind [Needs])
    have hbody := hbody.trans (hnext.clears fun _ => rfl) (by grind [Needs, Instr.operands])
    have hbody := hbody.trans hstore.clears (by grind [Needs])
    have hloop := clears_loop hjump hcond hbranch
      (hbody.weaken (fun _ h => h) (by grind [Needs])) (fun pt hpt => Option.some.inj hpt ▸ hback) n
    exact (hstart.trans hloop (by grind [Needs])).weaken (fun _ h => h) (by simp [Needs])

theorem Fills.clears {object : Operand} {index : Nat} {values : List Operand}
    (h : q.Fills object index values pt pt') (hvalues : ∀ value ∈ values, Needs [value] []) :
    q.Clears [object] [] pt (some pt') := by
  induction h with
  | nil => exact Clears.refl
  | cons _ hmember hstore _ ih =>
    rw [List.forall_mem_cons] at hvalues
    have h := hmember.clears.trans hstore.clears (by grind [Needs])
    exact (h.trans (ih hvalues.2) (by grind [Needs])).weaken (fun _ h => h) (by simp [Needs])

theorem ChecksSize.clears {size : Operand} {elem : TypeExpr} (h : q.ChecksSize size elem pt pt') :
    q.Clears [size] [] pt (some pt') := by
  cases h with
  | mk hnegative hhalts hlarge hhalts' =>
    have h := (hnegative.clears fun _ => rfl).using [size] (by grind [Needs, Instr.operands])
    have h := h.trans hhalts.clears (by grind [Needs])
    have h := h.trans (hlarge.clears fun _ => rfl) (by grind [Needs, Instr.operands])
    have h := h.trans hhalts'.clears (by grind [Needs])
    exact h.weaken (fun _ h => h) (by simp [Needs])

end Pieces

end Ir.Proc

namespace Lowering

open Ir.Proc (Clears Needs clears_branch clears_jump clears_loop clears_done needs_defaultOperand)

variable {p : Program} {printName : String} {a : Analysis} {S : Session} {q : Proc}
variable {slots : Table NodeId Operand} {uses : List Operand}

/-! ## Expressions -/

/-- The slots of the variables are among the operands. -/
def SlotsIn (slots : Table NodeId Operand) (vars : List VarDecl) (uses : List Operand) : Prop :=
  ∀ var ∈ vars, ∀ slot, slots.get? var.id = some slot → slot ∈ uses

theorem SlotsIn.var {names : Names} (h : SlotsIn slots names.vars uses) {name : String}
    {var : VarDecl} {slot : Operand} (hvar : names.var? name = some var)
    (hslot : slots.get? var.id = some slot) : slot ∈ uses :=
  h var (List.mem_of_find?_eq_some hvar) slot hslot

theorem SlotsIn.mono {vars vars' : List VarDecl} (h : SlotsIn slots vars uses)
    (hle : vars' ⊆ vars) : SlotsIn slots vars' uses := fun var hvar => h var (hle hvar)

theorem needs_uses (vs : List Operand) : Needs uses (vs ++ uses) := fun _ h =>
  List.mem_append_right _ h

section Expressions

variable {names : Names} {line : Nat}

mutual

/-- **The code of an expression** gives the operand that has its value, and
uses what it gives itself and the slots of variables. -/
theorem ExprCode.clears (hslots : SlotsIn slots names.vars uses) {e : Expr} {ty : Typing.ExprTy}
    {pt pt' : Point} {v : Operand} (h : ExprCode p printName a S q slots names line e ty pt v pt') :
    q.Clears uses [v] pt (some pt') := by
  cases h with
  | int | bool | null | this =>
    exact Clears.refl.weaken (fun _ h => h) (by simp [Needs])
  | read hplace hload =>
    have h := (hplace.clears hslots).trans (hload.clears fun _ => rfl)
      (by grind [Needs, Instr.operands])
    exact h.weaken (fun _ h => h) (by grind [Needs])
  | arrayLength harray hnull hlength =>
    have h := (harray.clears hslots).trans hnull.clears (by grind [Needs])
    have h := h.trans hlength.clears (by grind [Needs])
    exact h.weaken (fun _ h => h) (by grind [Needs])
  | minus hvalue hop | negate hvalue hop =>
    have h := (hvalue.clears hslots).trans (hop.clears fun _ => rfl)
      (by grind [Needs, Instr.operands])
    exact h.weaken (fun _ h => h) (by grind [Needs])
  | plain _ _ hleft hright hop =>
    have h := (hleft.clears hslots).trans (hright.clears hslots) (needs_uses _)
    have h := h.trans (hop.clears fun _ => rfl) (by grind [Needs, Instr.operands])
    exact h.weaken (fun _ h => h) (by grind [Needs])
  | div hleft hright hquotient =>
    have h := (hleft.clears hslots).trans (hright.clears hslots) (needs_uses _)
    have h := h.trans hquotient.clears (by grind [Needs])
    exact h.weaken (fun _ h => h) (by grind [Needs])
  | @and _ _ _ _ _ _ _ pt₃ _ _ _ _ pt₅ _ _ hslot hleft hstore hbranch _ _ hright _ hstore' hjump
      hload =>
    have h := (hslot.clears.using uses (by simp [Needs])).trans (hleft.clears hslots)
      (needs_uses _)
    have h := h.trans hstore.clears (by grind [Needs])
    -- The right operand is left out on one of the ways to the result.
    have hmore := ((hright.clears hslots).using (.temp pt.temps :: uses) (by grind [Needs])).trans
      hstore'.clears (by grind [Needs])
    have hmore := hmore.trans (clears_jump hjump pt₅.temps) (by simp [Needs])
    have hresult := clears_branch hbranch pt₃.temps pt₅.temps
      (hmore.weaken (fun _ h => h) (by simp [Needs])) Clears.refl
    have h := (h.trans hresult (by grind [Needs])).trans (hload.clears fun _ => rfl)
      (by grind [Needs, Instr.operands])
    exact h.weaken (fun _ h => h) (by grind [Needs])
  | equals hleft hright heq =>
    have h := (hleft.clears hslots).trans (hright.clears hslots) (needs_uses _)
    have h := h.trans heq.clears (by grind [Needs])
    exact h.weaken (fun _ h => h) (by grind [Needs])
  | print harg hprint =>
    have h := (harg.clears hslots).trans (Ir.Proc.clears_next hprint)
      (by grind [Needs, Instr.operands])
    exact h.weaken (fun _ h => h) (by simp [Needs])
  | call _ _ _ _ hargs hcall => 
    have h := (hargs.clears hslots).trans (hcall.clears fun _ => rfl)
      (by grind [Needs, Instr.operands])
    exact h.weaken (fun _ h => h) (by grind [Needs])
  | methodCall hreceiver hnull _ _ _ _ _ hcast hargs hdispatch =>
    have h := (hreceiver.clears hslots).trans hnull.clears (by grind [Needs])
    have h := h.trans hcast.clears (by grind [Needs])
    have h := h.trans (hargs.clears hslots) (by grind [Needs])
    have h := h.trans hdispatch.clears (by grind [Needs])
    exact h.weaken (fun _ h => h) (by grind [Needs])
  | newObject _ _ hcall =>
    exact ((hcall.clears fun _ => rfl).using uses (by grind [Needs, Instr.operands]))
  | newArray _ hsize _ hcall =>
    have h := (hsize.clears hslots).trans (hcall.clears fun _ => rfl)
      (by grind [Needs, Instr.operands])
    exact h.weaken (fun _ h => h) (by grind [Needs])

theorem PlaceCode.clears (hslots : SlotsIn slots names.vars uses) {place : Place} {ty : TypeExpr}
    {pt pt' : Point} {v : Operand}
    (h : PlaceCode p printName a S q slots names line place ty pt v pt') :
    q.Clears uses [v] pt (some pt') := by
  cases h with
  | variable_ hvar hslot =>
    have hmem := hslots.var hvar hslot
    exact Clears.refl.weaken (fun _ h => h) (by grind [Needs])
  | ownField _ _ _ _ _ _ _ hmember =>
    exact hmember.clears.using uses (by grind [Needs])
  | field hreceiver hnull _ _ _ _ _ hmember =>
    have h := (hreceiver.clears hslots).trans hnull.clears (by grind [Needs])
    have h := h.trans hmember.clears (by grind [Needs])
    exact h.weaken (fun _ h => h) (by grind [Needs])
  | index harray hnull hindex helem =>
    have h := (harray.clears hslots).trans hnull.clears (by grind [Needs])
    have h := h.trans (hindex.clears hslots) (by grind [Needs])
    have h := h.trans helem.clears (by grind [Needs])
    exact h.weaken (fun _ h => h) (by grind [Needs])

theorem ArgsCode.clears (hslots : SlotsIn slots names.vars uses) {args : List Expr}
    {tys : List TypeExpr} {pt pt' : Point} {vs : List Operand}
    (h : ArgsCode p printName a S q slots names line args tys pt vs pt') :
    q.Clears uses vs pt (some pt') := by
  cases h with
  | nil => exact Clears.refl
  | cons harg _ hcast hrest =>
    have h := (harg.clears hslots).trans hcast.clears (by grind [Needs])
    have h := h.trans (hrest.clears hslots) (by grind [Needs])
    exact h.weaken (fun _ h => h) (by grind [Needs])

end

end Expressions

/-! ## Statements -/

theorem Commented.clears {pt pt' : Point} (h : Commented q pt pt') :
    q.Clears uses [] pt (some pt') := by
  rcases h with rfl | ⟨⟨text, hat⟩, rfl⟩
  · exact Clears.refl
  · exact (Ir.Proc.clears_next hat).using uses (by simp [Needs, Instr.operands])

/-- An expression behind a comment. -/
theorem ExprCode.clears_commented {names : Names} {line : Nat} {e : Expr} {ty : Typing.ExprTy}
    {pt pt₁ pt' : Point} {v : Operand} (hcomment : Commented q pt pt₁)
    (h : ExprCode p printName a S q slots names line e ty pt₁ v pt')
    (hslots : SlotsIn slots names.vars uses) : q.Clears uses [v] pt (some pt') :=
  (hcomment.clears.trans (h.clears hslots) (needs_uses _)).weaken (fun _ h => h) (by grind [Needs])

section Statements

variable {ret : TypeExpr}

/-- What the names in scope behind a statement are. -/
theorem StmtCode.slotsIn {names behind : Names} {line : Nat} {stmt : Stmt} {pt : Point}
    {out : Option Point} (h : StmtCode p printName a S q slots ret names line stmt behind pt out)
    (hslots : SlotsIn slots names.vars uses) (hvars : SlotsIn slots stmt.varDecls uses) :
    SlotsIn slots behind.vars uses := by
  cases h with
  | decl => exact List.forall_mem_cons.2 ⟨hvars _ (by simp [Stmt.varDecls]), hslots⟩
  | _ => exact hslots

mutual

/-- **The code of a statement** uses what it gives itself and the slots of
variables. -/
theorem StmtCode.clears {names behind : Names} {line : Nat} {stmt : Stmt} {pt : Point}
    {out : Option Point} (h : StmtCode p printName a S q slots ret names line stmt behind pt out)
    (hslots : SlotsIn slots names.vars uses) (hvars : SlotsIn slots stmt.varDecls uses) :
    q.Clears uses [] pt out := by
  cases h with
  | block hcomment hbody =>
    exact hcomment.clears.trans (hbody.clears hslots hvars) (needs_uses _)
  | decl hcomment _ hslot hstore =>
    have hmem := hvars _ (by simp [Stmt.varDecls]) _ hslot
    have hnone (ty : TypeExpr) (t : TempId) : Operand.temp t ≠ defaultOperand ty := by
      cases ty <;> exact nofun
    exact hcomment.clears.trans hstore.clears (by grind [Needs])
  | assign hcomment hplace hvalue _ hcast hstore =>
    have h := hcomment.clears.trans (hplace.clears hslots) (needs_uses _)
    have h := h.trans (hvalue.clears hslots) (by grind [Needs])
    have h := h.trans hcast.clears (by grind [Needs])
    have h := h.trans hstore.clears (by grind [Needs])
    exact h.weaken (fun _ h => h) (by simp [Needs])
  | expr hcomment hvalue =>
    exact (hvalue.clears_commented hcomment hslots).weaken (fun _ h => h) (by simp [Needs])
  -- Behind branches only what was given before them may be used, so both are cut to that.
  | @ifThen _ _ _ _ _ _ _ _ _ pt₂ _ _ _ _ n hcomment hcond hbranch _ _ _ hbody hleaves hjump _ =>
    have hyes := (hbody.clears hslots hvars).leaves hleaves n
    have hno := (clears_jump hjump n).using uses (by simp [Needs])
    have h := (hcond.clears_commented hcomment hslots).trans
      (clears_branch hbranch pt₂.temps n hyes hno) (by grind [Needs])
    exact h.weaken (fun _ h => h) (by simp [Needs])
  | @ifElse _ _ _ _ _ _ _ _ _ _ _ pt₂ _ _ _ n _ _ n' hcomment hcond hbranch _ _ _ hyes hleaves _ hno
      hleaves' _ =>
    have hyes := (hyes.clears hslots (hvars.mono (List.subset_append_left _ _))).leaves
      hleaves n'
    have hno := (hno.clears hslots (hvars.mono (List.subset_append_right _ _))).leaves
      hleaves' n'
    have h := (hcond.clears_commented hcomment hslots).trans
      (clears_branch hbranch pt₂.temps n hyes hno) (by grind [Needs])
    exact h.weaken (fun _ h => h) (by simp [Needs])
  | @loop _ _ _ _ _ _ _ _ _ _ _ _ _ _ n hcomment hjump _ _ _ hcond hbranch hbody hleaves _ =>
    have h := clears_loop hjump (hcond.clears hslots) hbranch (hbody.clears hslots hvars) hleaves n
    exact hcomment.clears.trans h (needs_uses _)
  | ret hcomment hvalue _ hcast hret =>
    have h := (hvalue.clears_commented hcomment hslots).trans hcast.clears (by grind [Needs])
    have h := h.trans (clears_done hret rfl) (by grind [Needs, Terminator.operands])
    exact h.weaken (fun _ h => h) (by simp [Needs])

theorem StmtsCode.clears {names : Names} {line : Nat} {stmts : List Stmt} {pt : Point}
    {out : Option Point} (h : StmtsCode p printName a S q slots ret names line stmts pt out)
    (hslots : SlotsIn slots names.vars uses)
    (hvars : SlotsIn slots (Source.listVarDecls stmts) uses) : q.Clears uses [] pt out := by
  cases h with
  | nil => exact Clears.refl
  | cons hstmt hrest =>
    have hvars' := hvars.mono (List.subset_append_left _ _)
    exact (hstmt.clears hslots hvars').trans (hrest.clears (hstmt.slotsIn hslots hvars')
      (hvars.mono (List.subset_append_right _ _))) (needs_uses _)
  | dead hstmt =>
    -- There is no way to what stands behind.
    intro n given hpassed huses _
    exact hstmt.clears hslots (hvars.mono (List.subset_append_left _ _)) n given hpassed huses nofun

end

end Statements

/-! ## Procedures -/

theorem VarCode.clears {var : VarDecl} {pt pt' : Point} {slot : Operand}
    (h : VarCode p a S q slots var pt slot pt') :
    q.Clears [] [slot] pt (some pt') ∧ SlotsIn slots [var] [slot] := by
  obtain ⟨⟨ty, -, hslot⟩, hget⟩ := h
  refine ⟨hslot.clears fun _ => rfl, fun other hother slot' hslot' => ?_⟩
  rw [List.mem_singleton.1 hother, hget] at hslot'
  exact List.mem_singleton.2 (Option.some.inj hslot').symm

theorem SlotsIn.append {vars vars' : List VarDecl} {vs vs' : List Operand}
    (h : SlotsIn slots vars vs) (h' : SlotsIn slots vars' vs') :
    SlotsIn slots (vars ++ vars') (vs' ++ vs) := fun var hvar slot hslot =>
  (List.mem_append.1 hvar).elim (fun hvar => List.mem_append_right _ (h var hvar slot hslot))
    fun hvar => List.mem_append_left _ (h' var hvar slot hslot)

theorem ParamsCode.clears {index : Nat} {params : List VarDecl} {pt pt' : Point}
    (h : ParamsCode p a S q slots index params pt pt') :
    ∃ vs, q.Clears [] vs pt (some pt') ∧ SlotsIn slots params vs := by
  induction h with
  | nil => exact ⟨[], Clears.refl, nofun⟩
  | cons hvar hstore _ ih =>
    obtain ⟨hslot, hin⟩ := hvar.clears
    obtain ⟨vs, hrest, hins⟩ := ih
    have h := (hslot.trans hstore.clears (by grind [Needs])).trans hrest (by simp [Needs])
    exact ⟨_, h, hin.append hins⟩

theorem LocalsCode.clears {vars : List VarDecl} {pt pt' : Point}
    (h : LocalsCode p a S q slots vars pt pt') :
    ∃ vs, q.Clears [] vs pt (some pt') ∧ SlotsIn slots vars vs := by
  induction h with
  | nil => exact ⟨[], Clears.refl, nofun⟩
  | cons hvar _ ih =>
    obtain ⟨hslot, hin⟩ := hvar.clears
    obtain ⟨vs, hrest, hins⟩ := ih
    exact ⟨_, hslot.trans hrest (by simp [Needs]), hin.append hins⟩

theorem FunctionCode.definesFirst {this? : Option String} {name : String} {f : FunctionDecl}
    (h : FunctionCode p printName a S q this? name f) : q.DefinesFirst := by
  obtain ⟨hparams, hlocals, hbody, hend⟩ := h
  obtain ⟨vs, hparams, hin⟩ := hparams.clears
  obtain ⟨vs', hlocals, hin'⟩ := hlocals.clears
  have hslots := hin.append hin'
  have hbody := hbody.clears (hslots.mono (by simp)) (hslots.mono (List.subset_append_right _ _))
  have h := (hparams.trans hlocals (by simp [Needs])).trans hbody (by simp [Needs])
  exact h.definesFirst fun pt hpt => ⟨_, hend pt hpt, rfl, by simp [Needs, Terminator.operands]⟩

theorem ObjectCode.definesFirst {size : Int32} {vtable : Ir.GlobalId} {values : List Operand}
    (h : ObjectCode q size vtable values) (hvalues : ∀ value ∈ values, Needs [value] []) :
    q.DefinesFirst := by
  obtain ⟨hraw, hnull, hobject, hheader, hstore, hfills, hret⟩ := h
  have h := (hraw.clears fun _ => rfl).using [] (by simp [Needs, Instr.operands])
  have h := h.trans hnull.clears (by grind [Needs])
  have h := h.trans (hobject.clears fun _ => rfl) (by grind [Needs, Instr.operands])
  have h := h.trans hheader.clears (by grind [Needs])
  have h := h.trans hstore.clears (by grind [Needs])
  have h := h.trans (hfills.clears hvalues) (by grind [Needs])
  exact h.definesFirst fun pt hpt =>
    ⟨_, Option.some.inj hpt ▸ hret, rfl, by grind [Needs, Terminator.operands]⟩

theorem ArrayCode.definesFirst {elem : TypeExpr} (h : ArrayCode q elem) : q.DefinesFirst := by
  obtain ⟨hsize, hbytes, htotal, hraw, hnull, harray, hlength, hstore, hfills, hret⟩ := h
  have h := hsize.clears.using [] (by simp [Needs])
  have h := h.trans (hbytes.clears fun _ => rfl) (by grind [Needs, Instr.operands])
  have h := h.trans (htotal.clears fun _ => rfl) (by grind [Needs, Instr.operands])
  have h := h.trans (hraw.clears fun _ => rfl) (by grind [Needs, Instr.operands])
  have h := h.trans hnull.clears (by grind [Needs])
  have h := h.trans (harray.clears fun _ => rfl) (by grind [Needs, Instr.operands])
  have h := h.trans hlength.clears (by grind [Needs])
  have h := h.trans hstore.clears (by grind [Needs])
  have h := h.trans hfills.clears (by grind [Needs])
  exact h.definesFirst fun pt hpt =>
    ⟨_, Option.some.inj hpt ▸ hret, rfl, by grind [Needs, Terminator.operands]⟩

/-! ## Programs -/

theorem HasBody.definesFirst {s : Session} {this? : Option String} {f : FunctionDecl}
    {proc : Ir.ProcId} (h : HasBody p printName a s this? f proc) :
    ∃ q, s.ir.procs[proc]? = some q ∧ q.DefinesFirst := by
  obtain ⟨q, hq, -, -, hcode⟩ := h
  exact ⟨q, hq, (hcode s (.refl s)).definesFirst⟩

/-- The first values of fields are constants. -/
theorem needs_firstValues {refs : List MemberRef} {values : List Operand}
    (h : List.Forall₂ (FirstValue p) refs values) : ∀ value ∈ values, Needs [value] [] := by
  induction h with
  | nil => nofun
  | cons hfirst _ ih =>
    obtain ⟨field, -, rfl⟩ := hfirst
    exact List.forall_mem_cons.2 ⟨needs_defaultOperand _, ih⟩

/-- **Every procedure defines before it uses**, whatever it was declared for. -/
theorem Session.Complete.definesFirst {s : Session} (hs : s.Complete p printName a) {q : Proc}
    (hq : q ∈ s.ir.procs) : q.DefinesFirst := by
  obtain ⟨proc, hproc⟩ := List.mem_iff_getElem?.1 hq
  cases hs.ready.apart.known proc (List.getElem?_eq_some_iff.1 hproc).1 with
  | function hf hget =>
    obtain ⟨_, hget', hbody⟩ := hs.functions _ _ hf
    obtain rfl := Option.some.inj (hget.symm.trans hget')
    obtain ⟨q', hq', hdefines⟩ := hbody.definesFirst
    exact Option.some.inj (hq'.symm.trans hproc) ▸ hdefines
  | method hm hget =>
    obtain ⟨c, hc, hm⟩ := Option.bind_eq_some_iff.1 hm
    obtain ⟨_, hget', hbody⟩ := hs.methods _ _ hc _ _ hm
    obtain rfl := Option.some.inj (hget.symm.trans hget')
    obtain ⟨q', hq', hdefines⟩ := hbody.definesFirst
    exact Option.some.inj (hq'.symm.trans hproc) ▸ hdefines
  | object hget =>
    obtain ⟨-, -, q', _, hq', -, -, -, -, hvalues, hcode, -⟩ := hs.ready.objects _ _ hget
    exact Option.some.inj (hq'.symm.trans hproc) ▸ hcode.definesFirst (needs_firstValues hvalues)
  | array hget =>
    obtain ⟨-, q', _, _, hq', -, -, -, -, -, -, hcode, -⟩ := hs.ready.arrays _ _ hget
    exact Option.some.inj (hq'.symm.trans hproc) ▸ hcode.definesFirst

/-- **Single assignment, and definition before use**: every temporary is given
by one instruction, slots are made in the entry block, and whichever way
leads to a use of a temporary, it was given on it. -/
theorem Accepted.lowered_definesFirst {source : String} (h : Accepted source printName p)
    (options : Options) :
    ∃ ir, lowerProgram (Typing.analyze p ⟨printName⟩) p options = .ok ir ∧
      ∀ q ∈ ir.procs, q.Single ∧ q.DefinesFirst := by
  obtain ⟨s, -, hs, hcomplete⟩ := h.complete options
  exact ⟨s.ir, hs, fun q hq => ⟨(hcomplete.formed hq).2, hcomplete.definesFirst hq⟩⟩

theorem lowered_definesFirst_overriding : ∃ ir, lowerProgram
    (Typing.analyze (Source.parse overriding).program ⟨"print"⟩)
    (Source.parse overriding).program ⟨false⟩ = .ok ir ∧
      ∀ q ∈ ir.procs, q.Single ∧ q.DefinesFirst :=
  accepted_overriding.lowered_definesFirst ⟨false⟩

end Lowering

end ClassLang
