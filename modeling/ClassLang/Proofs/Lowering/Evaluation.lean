import ClassLang.Proofs.Lowering.Procedures
/-!
# Lowering — expressions at run time

The code of an expression does what the expression says, with the same
effects in the same order (`ExprCode.evaluates`), and so does that of a
place or of arguments. `Does` says so of a computation and the code between
two points; every form of an expression is put together from what its parts
do.
-/


namespace ClassLang.Lowering

open Source (NodeId TypeExpr Expr Place Program VarDecl FunctionDecl)
open Semantics (Run Scope Loc Fault evalExpr evalPlace evalArgs readLoc asInt asBool asRef lineOf)
open Typing (Analysis ExprTy)
open Ir (Operand Point ProcId)

namespace Call

variable {p : Program} {ir : Ir.Program} {grant : Nat → Bool} {origin : World} {c : Call ir}
variable {fuel : Nat} {slots : Table NodeId Operand} {declared : List VarDecl} {bound : Nat}
variable {scope : Scope} {pt pt' pt₁ pt₂ pt₃ : Point} {W W₁ : World}
variable {σ σ₁ : Semantics.State} {m m₁ : Ir.State} {u v w : Operand} {α β : Type}

/-! ## Computations and their code -/

section Does

variable {Q : α → World → Ir.State → Prop} {R : β → World → Ir.State → Prop}
variable {x : Run α} {k : α → Run β}

variable (p grant origin c fuel slots declared bound scope) in
/-- **The code between two points does what the computation does**, where the
names are in memory. -/
def Does (pt pt' : Point) (Q : α → World → Ir.State → Prop) (x : Run α) : Prop :=
  ∀ W σ m, c.Holds p origin pt W σ m → c.Scoped p slots declared bound scope pt W m →
    c.Outcome p grant origin pt.temps fuel pt W m pt' Q (x σ)

/-- **One computation and then another**, whose names are in memory. -/
theorem Outcome.seq (hs : c.Scoped p slots declared bound scope pt W m)
    (h : c.Outcome p grant origin pt.temps fuel pt W m pt₁ Q (x σ))
    (hk : ∀ value W₁ σ₁ m₁, c.Leads p grant origin pt.temps pt W m pt₁ W₁ σ₁ m₁ →
      c.Scoped p slots declared bound scope pt₁ W₁ m₁ → Q value W₁ m₁ →
      c.Outcome p grant origin pt₁.temps fuel pt₁ W₁ m₁ pt₂ R (k value σ₁)) :
    c.Outcome p grant origin pt.temps fuel pt W m pt₂ R ((x >>= k) σ) :=
  h.bind fun value W₁ σ₁ m₁ hlead hQ =>
    (hk value W₁ σ₁ m₁ hlead (hlead.scoped hs.older hs) hQ).mono hlead.temps fun _ _ _ _ _ hR => hR

theorem Does.seq (h : c.Does p grant origin fuel slots declared bound scope pt pt₁ Q x)
    (hk : ∀ value W σ m, c.Holds p origin pt₁ W σ m →
      c.Scoped p slots declared bound scope pt₁ W m → Q value W m →
      c.Outcome p grant origin pt₁.temps fuel pt₁ W m pt₂ R (k value σ)) :
    c.Does p grant origin fuel slots declared bound scope pt pt₂ R (x >>= k) :=
  fun W σ m hm hs => (h W σ m hm hs).seq hs fun value W₁ σ₁ m₁ hlead hs₁ hQ =>
    hk value W₁ σ₁ m₁ hlead.holds hs₁ hQ

/-- Code that changes nothing goes before. -/
theorem Quiet.then_ {r : Semantics.Result α} (h : c.Quiet p grant origin pt W σ m pt₁ m₁)
    (h' : c.Outcome p grant origin pt₁.temps fuel pt₁ W m₁ pt₂ Q r) :
    c.Outcome p grant origin pt.temps fuel pt W m pt₂ Q r :=
  Outcome.after h.leads h' h.leads.temps

end Does

/-! ## Operators -/

section Operators

variable {x y : Run Semantics.Value} {line : Nat} {ty : TypeExpr} {τ τ' : ExprTy}

variable (p grant origin c fuel slots declared bound scope) in
/-- **The code does what the computation of a value does**, and the operand has
the value behind it. -/
def Evaluates (pt : Point) (v : Operand) (pt' : Point) (τ : ExprTy) (x : Run Semantics.Value) :
    Prop :=
  c.Does p grant origin fuel slots declared bound scope pt pt' (Given p ir pt' v τ) x

theorem Evaluates.minus
    (h : c.Evaluates p grant origin fuel slots declared bound scope pt w pt₁ (.written .int) x)
    (hop : c.body.Defines (.binary · .sub (.int 0) w) pt₁ v pt₂) :
    c.Evaluates p grant origin fuel slots declared bound scope pt v pt₂ (.written .int)
      (do return .int (-(← asInt (← x)))) :=
  h.seq fun value W σ m hm _ hvalue => by
    obtain ⟨i, rfl, hi⟩ := hvalue.int
    obtain ⟨m', h'⟩ := hm.operates grant hop (.int 0) hi rfl
    rw [Int32.zero_sub] at h'
    exact h'.int

theorem Evaluates.negate
    (h : c.Evaluates p grant origin fuel slots declared bound scope pt w pt₁ (.written .bool) x)
    (hop : c.body.Defines (.binary · .eq (.bool false) w) pt₁ v pt₂) :
    c.Evaluates p grant origin fuel slots declared bound scope pt v pt₂ (.written .bool)
      (do return .bool (!(← asBool (← x)))) :=
  h.seq fun value W σ m hm _ hvalue => by
    obtain ⟨b, rfl, hb⟩ := hvalue.bool
    obtain ⟨m', h'⟩ := hm.operates grant hop (.bool false) hb rfl
    have heq : decide (Ir.Value.bool false = .bool b) = !b := by cases b <;> rfl
    rw [heq] at h'
    exact h'.bool

/-- Two operands, the left one first. -/
theorem Evaluates.both
    (hx : c.Evaluates p grant origin fuel slots declared bound scope pt u pt₁ τ x)
    (hy : c.Evaluates p grant origin fuel slots declared bound scope pt₁ w pt₂ τ' y)
    {k : Semantics.Value → Semantics.Value → Run β} {R : β → World → Ir.State → Prop}
    (hk : ∀ left right W σ m, c.Holds p origin pt₂ W σ m → Given p ir pt₂ u τ left W m →
      Given p ir pt₂ w τ' right W m →
      c.Outcome p grant origin pt₂.temps fuel pt₂ W m pt₃ R (k left right σ)) :
    c.Does p grant origin fuel slots declared bound scope pt pt₃ R
      (x >>= fun left => y >>= fun right => k left right) :=
  hx.seq fun left W σ m hm hs hleft => (hy W σ m hm hs).seq hs
    fun right W₁ σ₁ m₁ hlead _ hright =>
      hk left right W₁ σ₁ m₁ hlead.holds (hlead.given (Nat.le_refl _) hleft) hright

theorem Evaluates.plain {op : Source.BinaryOp} {op' : Ir.BinOp} (hop : plainOp? op = some op')
    (hx : c.Evaluates p grant origin fuel slots declared bound scope pt u pt₁ (.written .int) x)
    (hy : c.Evaluates p grant origin fuel slots declared bound scope pt₁ w pt₂ (.written .int) y)
    (hdef : c.body.Defines (.binary · op' u w) pt₂ v pt₃) :
    c.Evaluates p grant origin fuel slots declared bound scope pt v pt₃
      (.written (if op = .less then .bool else .int))
      (x >>= fun left => y >>= fun right => Semantics.apply line op left right) :=
  hx.both hy fun left right W σ m hm hleft hright => by
    obtain ⟨i, rfl, hi⟩ := hleft.int
    obtain ⟨j, rfl, hj⟩ := hright.int
    cases op with
    | plus | minus | times =>
      obtain rfl := Option.some.inj hop
      obtain ⟨m', h'⟩ := hm.operates grant hdef hi hj rfl
      exact h'.int
    | less =>
      obtain rfl := Option.some.inj hop
      obtain ⟨m', h'⟩ := hm.operates grant hdef hi hj rfl
      exact h'.bool
    | div | equals | and => cases hop

theorem Evaluates.div
    (hx : c.Evaluates p grant origin fuel slots declared bound scope pt u pt₁ (.written .int) x)
    (hy : c.Evaluates p grant origin fuel slots declared bound scope pt₁ w pt₂ (.written .int) y)
    (hdiv : c.body.Quotient u w (Fault.divisionByZero line).message pt₂ v pt₃) :
    c.Evaluates p grant origin fuel slots declared bound scope pt v pt₃ (.written .int)
      (x >>= fun left => y >>= fun right => Semantics.apply line .div left right) :=
  hx.both hy fun left right W σ m hm hleft hright => by
    obtain ⟨i, rfl, hi⟩ := hleft.int
    obtain ⟨j, rfl, hj⟩ := hright.int
    have hquotient := hm.divides grant hdiv hi hj
    rw [Semantics.apply]
    split at hquotient
    next hzero =>
      rw [if_pos hzero]
      exact hquotient
    next hzero =>
      obtain ⟨m', hlead, hv⟩ := hquotient
      rw [if_neg hzero]
      exact ⟨W, m', hlead, .int (i / j), hv, .written (.int _)⟩

/-- **Values are compared**, one of them perhaps read as the type of the other. -/
theorem Holds.compares (h : c.Holds p origin pt W σ m) (heq : c.body.Equality u w pt v pt')
    {left right : Semantics.Value} (hleft : Given p ir pt u τ left W m)
    (hright : Given p ir pt w τ' right W m) :
    c.Outcome p grant origin pt.temps fuel pt W m pt' (Given p ir pt' v (.written .bool))
      (.ok (.bool (left = right)) σ) := by
  obtain ⟨a, ha, hmatch⟩ := hleft
  obtain ⟨b, hb, hmatch'⟩ := hright
  -- A cast gives the same value, so it does not matter which side is read as the other.
  have hiff : decide (left = right) = decide (a = b) :=
    decide_eq_decide.2 (hmatch.same.eq_iff h.agrees.heap.apart hmatch'.same)
  rw [hiff]
  cases heq with
  | castLeft hcast hop =>
    obtain ⟨m₁, h₁⟩ := h.casts grant hcast ha
    obtain ⟨m₂, h₂⟩ := h₁.holds.operates grant hop h₁.toHas (h₁.toQuiet.has hb) rfl
    exact (h₁.toQuiet.computes h₂).bool
  | castRight hcast hop =>
    obtain ⟨m₁, h₁⟩ := h.casts grant hcast hb
    obtain ⟨m₂, h₂⟩ := h₁.holds.operates grant hop (h₁.toQuiet.has ha) h₁.toHas rfl
    exact (h₁.toQuiet.computes h₂).bool

theorem Evaluates.equals
    (hx : c.Evaluates p grant origin fuel slots declared bound scope pt u pt₁ τ x)
    (hy : c.Evaluates p grant origin fuel slots declared bound scope pt₁ w pt₂ τ' y)
    (heq : c.body.Equality u w pt₂ v pt₃) :
    c.Evaluates p grant origin fuel slots declared bound scope pt v pt₃ (.written .bool)
      (x >>= fun left => y >>= fun right => Semantics.apply line .equals left right) :=
  hx.both hy fun left right W σ m hm hleft hright => by
    rw [Semantics.apply.eq_def]
    exact hm.compares heq hleft hright

/-- **The right operand is left out** if the left one decides. The result is in
a slot that is older than either operand. -/
theorem Evaluates.and {pt₄ pt₅ pt₆ : Point} {more done : Ir.BlockId}
    (hslot : c.body.HasSlot .bool pt pt₁)
    (hx : c.Evaluates p grant origin fuel slots declared bound scope pt₁ u pt₂ (.written .bool) x)
    (hstore : c.body.Stores (.temp pt.temps) u pt₂ pt₃)
    (hbranch : c.body.Ends pt₃ (.branch u more done)) (hmore : more ≠ 0) (hdone : done ≠ 0)
    (hy : c.Evaluates p grant origin fuel slots declared bound scope (pt₃.enter more) w pt₄
      (.written .bool) y)
    (hle : pt₃.temps ≤ pt₄.temps) (hstore' : c.body.Stores (.temp pt.temps) w pt₄ pt₅)
    (hjump : c.body.Ends pt₅ (.jump done))
    (hload : c.body.Defines (.load · (.temp pt.temps)) (pt₅.enter done) v pt₆) :
    c.Evaluates p grant origin fuel slots declared bound scope pt v pt₆ (.written .bool) (do
      if ← asBool (← x) then
        return .bool (← asBool (← y))
      else
        return .bool false) := by
  intro W σ m hm hs
  obtain ⟨o, m₁, h₁, ho, hbefore, htemps⟩ := hm.hasSlot grant hslot
  refine Outcome.after h₁.leads (Outcome.bind ((hx W σ m₁ h₁.holds (h₁.leads.scoped hs.older hs)).mono
    h₁.leads.temps fun _ _ _ _ _ hvalue => hvalue) fun left W₂ σ₂ m₂ h₂ hvalue => ?_)
    (Nat.le_refl _)
  obtain ⟨b, rfl, hb⟩ := hvalue.bool
  have ho₂ : m₂.SlotAt pt.temps o := (h₂.keeps.made _ hbefore).trans ho
  obtain ⟨h₃, hstored, -⟩ := h₂.holds.storesSlot grant hstore (h₂.slots _ hbefore) ho₂ hb
  have hlt : pt.temps < pt₃.temps := by
    have hle₂ := h₂.temps
    have hle₃ := h₃.temps
    omega
  obtain ⟨m₄, h₄, -⟩ := h₃.holds.branches grant hbranch hmore hdone (hb.stores hstore _)
  have hstored := h₄.leads.stored hlt hstored
  have hle₅ : pt₅.temps = pt₄.temps := by rw [hstore'.2]; rfl
  -- From here on the slot is older than all that is computed, so it keeps its value.
  have hlead := (h₃.trans h₄.leads (Nat.le_of_lt hlt))
  refine Outcome.after hlead ?_ (Nat.le_refl _)
  cases b with
  | false =>
    -- The slot has the left operand.
    have hskip : c.Leads p grant origin pt.temps (pt₃.enter done) W₂ m₄
        ⟨pt₅.temps, done, 0⟩ W₂ σ₂ m₄ :=
      (Leads.refl h₄.holds).at_temps (by show pt₃.temps ≤ _; omega)
    obtain ⟨m₅, h₅⟩ := hskip.holds.reads grant hload (by show _ < pt₅.temps; omega) hstored
    exact Outcome.after hskip (h₅.bool.mono (by show _ ≤ pt₅.temps; omega) fun _ _ _ _ _ h => h)
      (Nat.le_refl _)
  | true =>
    have hs₄ := hlead.scoped hs.older (h₂.scoped hs.older (h₁.leads.scoped hs.older hs))
    refine Outcome.bind (Q := fun value W' m' => Given p ir pt₄ w (.written .bool) value W' m' ∧
      c.Stored pt₄ m' pt.temps (.bool true)) ((hy W₂ σ₂ m₄ h₄.holds hs₄).mono (Nat.le_of_lt hlt)
        fun _ _ _ _ hlead hvalue => ⟨hvalue, hlead.stored hlt hstored⟩)
      fun right W₅ σ₅ m₅ h₅ ⟨hvalue, hbefore₅, o₅, ho₅, _⟩ => ?_
    obtain ⟨b, rfl, hb⟩ := hvalue.bool
    obtain ⟨h₆, hstored, -⟩ := h₅.holds.storesSlot grant hstore' hbefore₅ ho₅ hb
    obtain ⟨m₇, h₇, -⟩ := h₆.holds.jumps grant hjump hdone
    have hstored := h₇.leads.stored (show pt.temps < pt₅.temps by omega) hstored
    obtain ⟨m₈, h₈⟩ := h₇.holds.reads grant hload (by show _ < pt₅.temps; omega) hstored
    have hend := h₆.trans h₇.leads (show pt.temps ≤ pt₅.temps by omega)
    exact Outcome.after hend (h₈.bool.mono (by show _ ≤ pt₅.temps; omega) fun _ _ _ _ _ h => h)
      (Nat.le_refl _)

end Operators

/-! ## Places -/

section Places

variable {x y : Run Semantics.Value} {line : Nat} {ty elem : TypeExpr} {τ : ExprTy}

/-- A value that is there. -/
theorem Evaluates.constant {value : Semantics.Value}
    (h : ∀ W σ m, c.Holds p origin pt W σ m → c.Scoped p slots declared bound scope pt W m →
      Given p ir pt v τ value W m) :
    c.Evaluates p grant origin fuel slots declared bound scope pt v pt τ (pure value) :=
  fun W σ m hm hs => ⟨W, m, .refl hm, h W σ m hm hs⟩

/-- **A reference that is used**; null halts. -/
theorem Evaluates.refers
    (hx : c.Evaluates p grant origin fuel slots declared bound scope pt u pt₁ (.written ty) x)
    (hcheck : c.body.HaltsIfNull u (Fault.nullPointer line).message pt₁ pt₂)
    (hty : (∃ name, ty = .class_ name) ∨ ∃ elem, ty = .array elem)
    {k : Nat → Run β} {R : β → World → Ir.State → Prop}
    (hk : ∀ addr o W σ m, c.Holds p origin pt₂ W σ m →
      c.Scoped p slots declared bound scope pt₂ W m → Has ir pt₂ m u (.ptr ⟨o, []⟩) →
      Matches p W ty (.ref addr) (.ptr ⟨o, []⟩) →
      c.Outcome p grant origin pt₂.temps fuel pt₂ W m pt₃ R (k addr σ)) :
    c.Does p grant origin fuel slots declared bound scope pt pt₃ R
      (x >>= fun value => asRef line value >>= k) :=
  hx.seq fun _ _ _ _ hm hs hvalue => (hm.checksNull hcheck hty hvalue).seq hs
    fun addr W₁ σ₁ m₁ hlead hs₁ ⟨o, hu, hmatch⟩ => hk addr o W₁ σ₁ m₁ hlead.holds hs₁ hu hmatch

theorem Evaluates.read {place : Run Loc}
    (h : c.Does p grant origin fuel slots declared bound scope pt pt₁
      (Located p ir slots scope pt₁ u ty) place) (hload : c.body.Defines (.load · u) pt₁ v pt₂) :
    c.Evaluates p grant origin fuel slots declared bound scope pt v pt₂ (.written ty)
      (place >>= readLoc scope.vars) :=
  h.seq fun _ _ _ _ hm hs hloc => hm.readsPlace hs hloc hload

theorem Evaluates.arrayLength
    (hx : c.Evaluates p grant origin fuel slots declared bound scope pt u pt₁
      (.written (.array elem)) x)
    (hcheck : c.body.HaltsIfNull u (Fault.nullPointer line).message pt₁ pt₂)
    (hlength : c.body.Length u pt₂ v pt₃) :
    c.Evaluates p grant origin fuel slots declared bound scope pt v pt₃ (.written .int) (do
      match ← Run.cell (← asRef line (← x)) with
      | .array elems => return .int (.ofNat elems.length)
      | .object _ _ => Run.stuck) :=
  hx.refers hcheck (.inr ⟨elem, rfl⟩) fun addr o W σ m hm _ hu hmatch => by
    cases hmatch with
    | array hlink =>
      obtain ⟨cell, _, hcell, -, hcells⟩ := hm.cell hlink
      obtain ⟨m', h'⟩ := hm.lengths grant hlength hlink hu
      rw [Run.bind_of_ok (Run.cell_of_eq hcell)]
      cases hcells with
      | array hcount =>
        subst hcount
        exact h'.int

/-- **The address of a field** of an object; fields have the same members in
subclasses. -/
theorem Holds.locatesField (hacyclic : p.Acyclic) (h : c.Holds p origin pt W σ m)
    {class_ : String} {id : ClassId} {ref : MemberRef} {field : VarDecl} {i addr o : Nat}
    (hid : p.classId? class_ = some id) (hi : (p.fieldRefs id)[i]? = some ref)
    (hfield : fieldDecl? p ref = some field) (hsmall : i + 1 < 2 ^ 31)
    (hmember : c.body.Member u (i + 1) pt v pt') (hu : Has ir pt m u (.ptr ⟨o, []⟩))
    (hmatch : Matches p W (.class_ class_) (.ref addr) (.ptr ⟨o, []⟩)) :
    c.Outcome p grant origin pt.temps fuel pt W m pt' (Located p ir slots scope pt' v field.ty)
      (.ok (.field addr ref) σ) := by
  cases hmatch with
  | object hid' hinherits hlink =>
    obtain rfl := Option.some.inj (hid.symm.trans hid')
    obtain ⟨m', h'⟩ := h.members grant hmember hsmall hu (h.agrees.heap.lt hlink)
    have hsub := getElem?_of_initial (Program.fieldRefs_of_inherits hacyclic hinherits) hi
    exact ⟨W, m', h'.leads, .field hlink hsub hfield h'.toHas⟩

theorem Does.index
    (hx : c.Evaluates p grant origin fuel slots declared bound scope pt u pt₁
      (.written (.array elem)) x)
    (hcheck : c.body.HaltsIfNull u (Fault.nullPointer line).message pt₁ pt₂)
    (hy : c.Evaluates p grant origin fuel slots declared bound scope pt₂ w pt₃ (.written .int) y)
    {pt₄ : Point} (helem : c.body.Element u w (Fault.outOfBounds line).message pt₃ v pt₄) :
    c.Does p grant origin fuel slots declared bound scope pt pt₄
      (Located p ir slots scope pt₄ v elem) (do
        let addr ← asRef line (← x)
        let i ← asInt (← y)
        match ← Run.cell addr with
        | .array elems =>
          if 0 ≤ i ∧ i.toInt < elems.length then return .elem addr i.toInt.toNat
          else Run.halt (.outOfBounds line)
        | .object _ _ => Run.stuck) :=
  hx.refers hcheck (.inr ⟨elem, rfl⟩) fun addr o W σ m hm hs hu hmatch =>
    (hy W σ m hm hs).seq hs fun value W₁ σ₁ m₁ hlead _ hvalue => by
      obtain ⟨i, rfl, hi⟩ := hvalue.int
      -- Whatever the index has called, the array is where it was and as long.
      cases hmatch.mono hlead.grows with
      | array hlink =>
        obtain ⟨cell, _, hcell, -, hcells⟩ := hlead.holds.cell hlink
        have helement := hlead.holds.elements grant helem hlink (hlead.has (Nat.le_refl _) hu) hi
        show c.Outcome p grant origin _ _ _ _ _ _ _ ((Run.cell addr >>= _) σ₁)
        rw [Run.bind_of_ok (Run.cell_of_eq hcell)]
        cases hcells with
        | array hcount =>
          subst hcount
          dsimp only
          split at helement
          next hin =>
            obtain ⟨m', h'⟩ := helement
            rw [if_pos hin]
            have hnat : i.toInt.toNat < _ := (Int.toNat_lt (Int32.le_iff_toInt_le.1 hin.1)).2 hin.2
            exact ⟨W₁, m', h'.leads, .elem hlink hnat h'.toHas⟩
          next hout =>
            rw [if_neg hout]
            exact helement

end Places

/-! ## Calls -/

section Calls

variable {printName : String} {a : Analysis} {S : Session} {c : Call S.ir} {n line : Nat}
variable {invoke : Option (String × Semantics.Value) → FunctionDecl → List Semantics.Value →
  Run Semantics.Value}
variable {x : Run Semantics.Value} {xs : Run (List Semantics.Value)} {vs : List Operand}
variable {g : FunctionDecl}

variable (p ir) in
/-- **The operands have the values** of arguments for parameters of these types. -/
def Supplies (pt : Point) (vs : List Operand) (tys : List TypeExpr) (values : List Semantics.Value)
    (W : World) (m : Ir.State) : Prop :=
  ∃ xs, List.Forall₂ (Has ir pt m) vs xs ∧ MatchesAll p W tys values xs

theorem Does.supply {c : Call ir} {xs : Run (List Semantics.Value)} {ty : TypeExpr}
    {tys : List TypeExpr} {τ : ExprTy}
    (hx : c.Evaluates p grant origin fuel slots declared bound scope pt u pt₁ τ x)
    (hfits : Typing.Fits p τ (.written ty)) (hcast : c.body.Casts u pt₁ v pt₂)
    (hxs : c.Does p grant origin fuel slots declared bound scope pt₂ pt₃
      (Supplies p ir pt₃ vs tys) xs) :
    c.Does p grant origin fuel slots declared bound scope pt pt₃
      (Supplies p ir pt₃ (v :: vs) (ty :: tys))
      (do return (← x) :: (← xs)) :=
  hx.seq fun value W σ m hm hs hvalue => by
    obtain ⟨m₁, h₁, hvalue⟩ := hm.castsGiven grant hcast hfits hvalue
    refine h₁.then_ ((hxs W σ m₁ h₁.holds (h₁.leads.scoped hs.older hs)).seq
      (h₁.leads.scoped hs.older hs) fun values W₂ σ₂ m₂ h₂ _ ⟨ys, hys, hmatch⟩ => ?_)
    obtain ⟨y, hy, hmatch'⟩ := hvalue.written
    exact ⟨W₂, m₂, .refl h₂.holds, y :: ys, .cons (h₂.has (Nat.le_refl _) hy) hys,
      .cons (hmatch'.mono h₂.grows) hmatch⟩

theorem Evaluates.print {c : Call ir}
    (hx : c.Evaluates p grant origin fuel slots declared bound scope pt u pt₁ (.written .int) x)
    (hat : c.body.At pt₁ (.print u)) :
    c.Evaluates p grant origin fuel slots declared bound scope pt (.int 0) pt₁.next (.written .int)
      (do
        Run.print (← asInt (← x))
        return .int 0) :=
  hx.seq fun value W σ m hm _ hvalue => by
    obtain ⟨i, rfl, hi⟩ := hvalue.int
    obtain ⟨m', h'⟩ := hm.prints grant hat hi
    exact ⟨W, m', h', .int 0, .int 0, .written (.int 0)⟩

theorem Does.call (hS : S.Complete p printName a) (hinvoke : Invokes p S grant origin n invoke)
    (hxs : c.Does p grant origin (n + 1) slots declared bound scope pt pt₁
      (Supplies p S.ir pt₁ vs (g.params.map (·.ty))) xs) {proc : ProcId}
    (howner : S.Owner p none g proc) (hcall : c.body.Defines (.call · (.proc proc) vs) pt₁ v pt₂) :
    c.Evaluates p grant origin (n + 1) slots declared bound scope pt v pt₂ (.written g.returnType)
      (xs >>= invoke none g) :=
  hxs.seq fun _ _ _ _ hm _ ⟨_, hys, hmatch⟩ =>
    hm.invokes hS hinvoke none howner hcall (.proc proc) hys (.function hmatch)

/-- **A method is called** on what the receiver refers to. -/
theorem Evaluates.methodCall (hS : S.Complete p printName a) (hsound : p.SoundClasses)
    (hinvoke : Invokes p S grant origin n invoke) {class_ method : String} {id : ClassId}
    {ref : MemberRef} {slot : Nat} {pt₄ pt₅ : Point}
    (hx : c.Evaluates p grant origin (n + 1) slots declared bound scope pt u pt₁
      (.written (.class_ class_)) x)
    (hcheck : c.body.HaltsIfNull u (Fault.nullPointer line).message pt₁ pt₂)
    (hid : p.classId? class_ = some id) (href : p.methodRef? id method = some ref)
    (hg : methodDecl? p ref = some g) (hslot : (p.slotNames id)[slot]? = some method)
    (hsmall : slot < 2 ^ 31) (hcast : c.body.Casts u pt₂ w pt₃)
    (hxs : c.Does p grant origin (n + 1) slots declared bound scope pt₃ pt₄
      (Supplies p S.ir pt₄ vs (g.params.map (·.ty))) xs)
    (hdispatch : c.body.Dispatch u slot (w :: vs) pt₄ v pt₅) :
    c.Evaluates p grant origin (n + 1) slots declared bound scope pt v pt₅ (.written g.returnType)
      (do
        let addr ← asRef line (← x)
        let values ← xs
        match ← Run.cell addr with
        | .object sub _ =>
          let ref ← Run.ofOption (p.methodRef? sub method)
          let f ← Run.ofOption (methodDecl? p ref)
          let owner ← Run.ofOption p.classes[ref.class_]?
          invoke (some (owner.name, .ref addr)) f values
        | .array _ => Run.stuck) :=
  hx.refers hcheck (.inl ⟨class_, rfl⟩) fun addr o W σ m hm hs hu hmatch => by
    obtain ⟨m₁, h₁⟩ := hm.casts grant hcast hu
    have hs₁ := h₁.leads.scoped hs.older hs
    -- The class of the receiver is read behind the arguments, in both: objects keep theirs.
    refine h₁.toQuiet.then_ ((hxs W σ m₁ h₁.holds hs₁).seq hs₁
      fun values W₂ σ₂ m₂ h₂ _ ⟨ys, hys, hall⟩ => ?_)
    cases hmatch.mono h₂.grows with
    | object hid' hinherits hlink =>
      obtain rfl := Option.some.inj (hid.symm.trans hid')
      obtain ⟨ref', f, owner, href', hf, howner, h₃⟩ := h₂.holds.dispatches hS hsound hinvoke hlink
        hinherits (Program.classId?_lt hid) hslot hsmall href hg
        (h₂.has (Nat.le_refl _) (h₁.toQuiet.has hu)) (h₂.has (Nat.le_refl _) h₁.toHas) hys hall
        hdispatch
      obtain ⟨cell, _, hcell, -, hcells⟩ := h₂.holds.cell hlink
      rw [Run.bind_of_ok (Run.cell_of_eq hcell)]
      cases hcells with
      | object =>
        dsimp only
        rw [Run.bind_of_ok (Run.ofOption_of_eq href' σ₂), Run.bind_of_ok (Run.ofOption_of_eq hf σ₂),
          Run.bind_of_ok (Run.ofOption_of_eq howner σ₂)]
        exact h₃

end Calls

end Call

/-! ## All expressions -/

section Expressions

open Call

variable {p : Program} {printName : String} {a : Analysis} {S : Session} {grant : Nat → Bool}
variable {origin : World} {c : Call S.ir} {n : Nat} {slots : Table NodeId Operand}
variable {declared : List VarDecl} {bound : Nat} {scope : Scope} {line : Nat}
variable {invoke : Option (String × Semantics.Value) → FunctionDecl → List Semantics.Value →
  Run Semantics.Value}

mutual

/-- **The code of an expression does what the expression says.** -/
theorem ExprCode.evaluates (hS : S.Complete p printName a) (hsound : p.SoundClasses)
    (hinvoke : Invokes p S grant origin n invoke) {e : Expr} {τ : ExprTy} {pt pt' : Point}
    {v : Operand} (h : ExprCode p printName a S c.body slots scope.names line e τ pt v pt') :
    c.Evaluates p grant origin (n + 1) slots declared bound scope pt v pt' τ
      (evalExpr p printName grant invoke scope line e) := by
  cases h with
  | int => exact .constant fun _ _ _ _ _ => ⟨_, .int _, .written (.int _)⟩
  | bool => exact .constant fun _ _ _ _ _ => ⟨_, .bool _, .written (.bool _)⟩
  | null => exact .constant fun _ _ _ _ _ => ⟨_, .null, .null⟩
  | this hthis =>
    obtain ⟨⟨_, value⟩, hreceiver, rfl⟩ := Option.map_eq_some_iff.1 hthis
    rw [evalExpr, hreceiver]
    refine .constant fun W σ m hm hs => ?_
    obtain ⟨addr, o, rfl, harg, hmatch⟩ := hs.this _ _ hreceiver
    exact ⟨_, hm.param harg, .written hmatch⟩
  | read hplace hload =>
    rw [evalExpr]
    exact .read (hplace.evaluates hS hsound hinvoke) hload
  | arrayLength harray hnull hlength =>
    rw [evalExpr]
    exact (harray.evaluates hS hsound hinvoke).arrayLength hnull hlength
  | minus hoperand hop =>
    rw [evalExpr]
    exact (hoperand.evaluates hS hsound hinvoke).minus hop
  | negate hoperand hop =>
    rw [evalExpr]
    exact (hoperand.evaluates hS hsound hinvoke).negate hop
  -- Operators that compute both operands: the conjunction is none of them.
  | @plain _ op _ _ _ _ _ _ _ _ _ _ _ hplain hty hleft hright hop =>
    have hne : op ≠ .and := by rintro rfl; cases hplain
    rw [evalExpr, hty]
    simp only [if_neg hne]
    exact .plain hplain (hleft.evaluates hS hsound hinvoke) (hright.evaluates hS hsound hinvoke) hop
  | div hleft hright hquotient =>
    rw [evalExpr]
    exact .div (hleft.evaluates hS hsound hinvoke) (hright.evaluates hS hsound hinvoke) hquotient
  | and hslot hleft hstore hbranch hmore hdone hright hle hstore' hjump hload =>
    rw [evalExpr]
    exact .and hslot (hleft.evaluates hS hsound hinvoke) hstore hbranch hmore hdone
      (hright.evaluates hS hsound hinvoke) hle hstore' hjump hload
  | equals hleft hright heq =>
    rw [evalExpr]
    exact .equals (hleft.evaluates hS hsound hinvoke) (hright.evaluates hS hsound hinvoke) heq
  | print harg hprint =>
    rw [evalExpr, if_pos rfl]
    exact (harg.evaluates hS hsound hinvoke).print hprint
  | @call _ name _ _ g _ _ _ _ _ _ hname hindex hg hproc hargs hcall =>
    have hfunction : p.function? name = some g := by
      rw [Program.function?_eq, hindex, Option.bind_some, hg]
    rw [evalExpr.eq_def]
    dsimp only
    rw [if_neg hname, hfunction]
    exact .call hS hinvoke (hargs.evaluates hS hsound hinvoke) (.function hg hproc) hcall
  | methodCall hreceiver hnull hid href hg hslot hsmall hcast hargs hdispatch =>
    rw [evalExpr]
    exact .methodCall hS hsound hinvoke (hreceiver.evaluates hS hsound hinvoke) hnull hid href hg
      hslot hsmall hcast (hargs.evaluates hS hsound hinvoke) hdispatch
  | newObject hid hproc hcall =>
    rw [evalExpr, hid]
    exact fun W σ m hm _ => hm.makesObject hS hid hproc hcall
  | newArray hd hsize hproc hcall =>
    rw [evalExpr]
    refine (hsize.evaluates hS hsound hinvoke).seq fun value W σ m hm _ hvalue => ?_
    obtain ⟨i, rfl, hi⟩ := hvalue.int
    exact hm.makesArray hS hd hproc hcall hi

/-- **The code of a place** gives its address. -/
theorem PlaceCode.evaluates (hS : S.Complete p printName a) (hsound : p.SoundClasses)
    (hinvoke : Invokes p S grant origin n invoke) {place : Place} {ty : TypeExpr} {pt pt' : Point}
    {v : Operand} (h : PlaceCode p printName a S c.body slots scope.names line place ty pt v pt') :
    c.Does p grant origin (n + 1) slots declared bound scope pt pt'
      (Located p S.ir slots scope pt' v ty) (evalPlace p printName grant invoke scope line place) := by
  cases h with
  | variable_ hvar hslot =>
    intro W σ m hm hs
    obtain ⟨value, d, x, hvalue, hslot', -⟩ := hs.var hvar
    obtain rfl := Option.some.inj (hslot.symm.trans hslot')
    rw [evalPlace, hvalue]
    exact ⟨W, m, .refl hm, .variable_ hvar hslot rfl⟩
  | @ownField _ name class_ _ ref _ _ _ _ _ hnone hthis hid href hfield hi hsmall hmember =>
    intro W σ m hm hs
    obtain ⟨⟨class_, value⟩, hreceiver, rfl⟩ := Option.map_eq_some_iff.1 hthis
    obtain ⟨addr, o, rfl, harg, hmatch⟩ := hs.this _ _ hreceiver
    have hfieldIn : Semantics.fieldIn? p class_ name = some ref := by
      rw [Semantics.fieldIn?, hid, Option.bind_some, href]
    rw [evalPlace, Vars.value?_eq_none hnone]
    dsimp only
    rw [hreceiver, Run.bind_of_ok (Run.ofOption_of_eq rfl σ)]
    dsimp only
    rw [Run.bind_of_ok (Run.ofOption_of_eq hfieldIn σ)]
    exact hm.locatesField hsound.hierarchy.acyclic hid hi hfield hsmall hmember (hm.param harg) hmatch
  | field hreceiver hnull haccessed hid hfield hi hsmall hmember =>
    rw [evalPlace, haccessed]
    exact (hreceiver.evaluates hS hsound hinvoke).refers hnull (.inl ⟨_, rfl⟩)
      fun addr o W σ m hm _ hu hmatch =>
        hm.locatesField hsound.hierarchy.acyclic hid hi hfield hsmall hmember hu hmatch
  | index harray hnull hindex helem =>
    rw [evalPlace]
    exact .index (harray.evaluates hS hsound hinvoke) hnull (hindex.evaluates hS hsound hinvoke) helem

/-- **The code of arguments** gives their values, from left to right. -/
theorem ArgsCode.evaluates (hS : S.Complete p printName a) (hsound : p.SoundClasses)
    (hinvoke : Invokes p S grant origin n invoke) {args : List Expr} {tys : List TypeExpr}
    {pt pt' : Point} {vs : List Operand}
    (h : ArgsCode p printName a S c.body slots scope.names line args tys pt vs pt') :
    c.Does p grant origin (n + 1) slots declared bound scope pt pt'
      (Supplies p S.ir pt' vs tys) (evalArgs p printName grant invoke scope line args) := by
  cases h with
  | nil => exact fun W σ m hm _ => ⟨W, m, .refl hm, [], .nil, .nil⟩
  | cons harg hfits hcast hrest =>
    rw [evalArgs]
    exact .supply (harg.evaluates hS hsound hinvoke) hfits hcast (hrest.evaluates hS hsound hinvoke)

end

end Expressions

end ClassLang.Lowering
