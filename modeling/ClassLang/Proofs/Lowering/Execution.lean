import ClassLang.Proofs.Lowering.Evaluation
/-!
# Lowering — statements at run time

The code of statements does what the statements say
(`StmtCode.executes`, `StmtsCode.executes`): it comes to the point behind
them, where the variables that are in scope then are in memory, or it
returns. `Executes` says so of a computation on variables. A loop is
followed by the number of its rounds, each of which takes the machine a step
at least (`Holds.loops`).
-/


namespace ClassLang.Lowering

open Source (NodeId TypeExpr Stmt Program VarDecl FunctionDecl)
open Semantics (Run Scope Vars asBool execStmt execStmts loopWithin lineAfter)
open Typing (Analysis ExprTy Names)
open Ir (Operand Point)

namespace Call

variable {p : Program} {ir : Ir.Program} {grant : Nat → Bool} {origin : World} {c : Call ir}
variable {n fuel fuel' : Nat} {slots : Table NodeId Operand} {declared : List VarDecl} {bound : Nat}
variable {this? : Option (String × Semantics.Value)} {ret : TypeExpr} {names behind : Names}
variable {vars inner : Vars} {pt pt' pt₁ pt₂ : Point} {out : Option Point} {W W₁ : World}
variable {σ σ₁ σ' : Semantics.State} {m m₁ : Ir.State} {v : Operand} {α : Type}

/-! ## How statements end -/

variable (p grant origin c slots declared bound this? ret) in
/-- **How a statement ends**: behind it, where these names are in scope, or
with a return from the call. -/
inductive Exits (pt : Point) (W : World) (m : Ir.State) (behind : Names) (out : Option Point) :
    Option Semantics.Value × Vars → Semantics.State → Prop
  | leaves {vars σ' pt' W' m'} : out = some pt' → c.Leads p grant origin 0 pt W m pt' W' σ' m' →
      c.Scoped p slots declared bound ⟨this?, vars⟩ pt' W' m' → (Scope.mk this? vars).names = behind →
      Exits pt W m behind out (none, vars) σ'
  | returns {value vars σ' pt' W' m' x} : c.Leads p grant origin 0 pt W m pt' W' σ' m' →
      Ir.step ir grant m' = m'.return_ x → Matches p W' ret value x →
      Exits pt W m behind out (some value, vars) σ'

variable (p grant origin c slots declared bound this? ret) in
/-- **The machine ends a statement** as the source does. -/
def Finishes (fuel : Nat) (pt : Point) (W : World) (m : Ir.State) (behind : Names)
    (out : Option Point) : Semantics.Result (Option Semantics.Value × Vars) → Prop :=
  Follows p ir grant origin fuel m
    (c.Exits p grant origin slots declared bound this? ret pt W m behind out)

variable (p grant origin c fuel slots declared bound this? ret) in
/-- **The code from a point on does what the computation does**, with whatever
values the variables have. -/
def Executes (pt : Point) (names behind : Names) (out : Option Point)
    (x : Vars → Run (Option Semantics.Value × Vars)) : Prop :=
  ∀ vars, (Scope.mk this? vars).names = names → ∀ W σ m, c.Holds p origin pt W σ m →
    c.Scoped p slots declared bound ⟨this?, vars⟩ pt W m →
    c.Finishes p grant origin slots declared bound this? ret fuel pt W m behind out (x vars σ)

section Finishes

variable {r : Semantics.Result (Option Semantics.Value × Vars)} {x : Run α}
variable {k : α → Run (Option Semantics.Value × Vars)} {Q : α → World → Ir.State → Prop}

theorem Exits.after (hlead : c.Leads p grant origin n pt W m pt₁ W₁ σ₁ m₁)
    {e : Option Semantics.Value × Vars}
    (h : c.Exits p grant origin slots declared bound this? ret pt₁ W₁ m₁ behind out e σ') :
    c.Exits p grant origin slots declared bound this? ret pt W m behind out e σ' := by
  have hlead := hlead.weaken (Nat.zero_le n)
  cases h with
  | leaves hout hrest hs hnames => exact .leaves hout (hlead.trans hrest (Nat.le_refl 0)) hs hnames
  | returns hrest hreturn hmatch => exact .returns (hlead.trans hrest (Nat.le_refl 0)) hreturn hmatch

/-- **A run before it.** -/
theorem Finishes.after (hlead : c.Leads p grant origin n pt W m pt₁ W₁ σ₁ m₁)
    (h : c.Finishes p grant origin slots declared bound this? ret fuel pt₁ W₁ m₁ behind out r) :
    c.Finishes p grant origin slots declared bound this? ret fuel pt W m behind out r := by
  obtain ⟨j, hj⟩ := hlead.runs
  exact Follows.after hj h (fun _ _ hexit => hexit.after hlead) (Nat.le_add_left _ _)

/-- **A run of one step at least before it.** -/
theorem Finishes.moved (hlead : c.Leads p grant origin n pt W m pt₁ W₁ σ₁ m₁)
    (hmoves : Moves p ir origin grant m m₁)
    (h : c.Finishes p grant origin slots declared bound this? ret fuel pt₁ W₁ m₁ behind out r) :
    c.Finishes p grant origin slots declared bound this? ret (fuel + 1) pt W m behind out r := by
  obtain ⟨j, hj⟩ := hmoves
  exact Follows.after hj h (fun _ _ hexit => hexit.after hlead) (by omega)

/-- **A computation and then a statement.** -/
theorem Outcome.finishes (h : c.Outcome p grant origin n fuel' pt W m pt₁ Q (x σ))
    (hfuel : fuel ≤ fuel')
    (hk : ∀ value W₁ σ₁ m₁, c.Leads p grant origin n pt W m pt₁ W₁ σ₁ m₁ → Q value W₁ m₁ →
      c.Finishes p grant origin slots declared bound this? ret fuel pt₁ W₁ m₁ behind out (k value σ₁)) :
    c.Finishes p grant origin slots declared bound this? ret fuel pt W m behind out ((x >>= k) σ) :=
  Follows.bind (Follows.sooner h hfuel) fun value σ' ⟨W', m', hlead, hQ⟩ =>
    (hk value W' σ' m' hlead hQ).after hlead

/-- Code that changes nothing goes before. -/
theorem Quiet.finishes (h : c.Quiet p grant origin pt W σ m pt₁ m₁)
    (h' : c.Finishes p grant origin slots declared bound this? ret fuel pt₁ W m₁ behind out r) :
    c.Finishes p grant origin slots declared bound this? ret fuel pt W m behind out r :=
  h'.after h.leads

/-- Behind a statement. -/
theorem Leads.finishes (h : c.Leads p grant origin n pt W m pt₁ W₁ σ₁ m₁)
    (hs : c.Scoped p slots declared bound ⟨this?, vars⟩ pt₁ W₁ m₁) :
    c.Finishes p grant origin slots declared bound this? ret fuel pt W m
      (Scope.mk this? vars).names (some pt₁) (.ok (none, vars) σ₁) :=
  .leaves rfl (h.weaken (Nat.zero_le n)) hs rfl

/-- **A statement and then more**, unless it has returned. -/
theorem Finishes.then_ {x : Run (Option Semantics.Value × Vars)} {behind' : Names}
    {out' : Option Point} {k : Option Semantics.Value × Vars → Run (Option Semantics.Value × Vars)}
    (h : c.Finishes p grant origin slots declared bound this? ret fuel pt W m behind out (x σ))
    (hleaves : ∀ inner pt₁ W₁ σ₁ m₁, out = some pt₁ → c.Leads p grant origin 0 pt W m pt₁ W₁ σ₁ m₁ →
      c.Scoped p slots declared bound ⟨this?, inner⟩ pt₁ W₁ m₁ →
      (Scope.mk this? inner).names = behind →
      c.Finishes p grant origin slots declared bound this? ret fuel pt W m behind' out'
        (k (none, inner) σ₁))
    (hreturns : ∀ value inner σ₁, ∃ vars, k (some value, inner) σ₁ = .ok (some value, vars) σ₁) :
    c.Finishes p grant origin slots declared bound this? ret fuel pt W m behind' out'
      ((x >>= k) σ) := by
  refine Follows.bind h fun _ σ₁ hexit => ?_
  cases hexit with
  | leaves hout hlead hs hnames => exact hleaves _ _ _ _ _ hout hlead hs hnames
  | returns hlead hreturn hmatch =>
    obtain ⟨vars, heq⟩ := hreturns _ _ σ₁
    rw [heq]
    exact .returns hlead hreturn hmatch

/-- The names that were declared before are the last ones. -/
theorem Vars.names_leave (h : (Scope.mk this? inner).names = behind)
    (hsuffix : (Scope.mk this? vars).names.vars <:+ behind.vars) :
    (Scope.mk this? (vars.leave inner)).names = (Scope.mk this? vars).names := by
  subst h
  have hdrop := List.suffix_iff_eq_drop.1 hsuffix
  simp only [Scope.names, List.length_map] at hdrop
  rw [Scope.names, Scope.names, Vars.leave, List.map_drop, ← hdrop]

theorem Scoped.leave (hs : c.Scoped p slots declared bound ⟨this?, inner⟩ pt W m) (vars : Vars) :
    c.Scoped p slots declared bound ⟨this?, vars.leave inner⟩ pt W m :=
  hs.sub (List.drop_sublist _ _)

/-- **What was declared inside is out of scope** behind a statement. -/
theorem Finishes.leave {x : Run (Option Semantics.Value × Vars)}
    (h : c.Finishes p grant origin slots declared bound this? ret fuel pt W m behind out (x σ))
    (hsuffix : (Scope.mk this? vars).names.vars <:+ behind.vars) :
    c.Finishes p grant origin slots declared bound this? ret fuel pt W m
      (Scope.mk this? vars).names out
      ((do
        let (result, inner) ← x
        return (result, vars.leave inner)) σ) := by
  refine Follows.bind h fun _ σ' hexit => ?_
  cases hexit with
  | leaves hout hlead hs hnames =>
    exact .leaves hout hlead (hs.leave vars) (Vars.names_leave hnames hsuffix)
  | returns hlead hreturn hmatch => exact .returns hlead hreturn hmatch

/-- **A branch is left** for another block. -/
theorem Finishes.joins {join : Ir.BlockId} {t : Nat}
    (h : c.Finishes p grant origin slots declared bound this? ret fuel pt W m behind out r)
    (hleaves : Leaves c.body out join) (hjoin : join ≠ 0) (hle : pt.temps ≤ t)
    (hbound : bound ≤ t) :
    c.Finishes p grant origin slots declared bound this? ret fuel pt W m behind
      (some ⟨t, join, 0⟩) r := by
  refine Follows.mono h fun _ σ' hexit => ?_
  cases hexit with
  | leaves hout hlead hs hnames =>
    obtain ⟨m', h', -⟩ := hlead.holds.jumps grant (hleaves _ hout) hjoin
    have hlead := (hlead.trans h'.leads (Nat.zero_le _)).at_temps hle
    exact .leaves rfl hlead ((h'.leads.scoped hs.older hs).at_temps hbound) hnames
  | returns hlead hreturn hmatch => exact .returns hlead hreturn hmatch

end Finishes

/-! ## Forms of statements -/

section Forms

variable (grant) in
/-- A comment changes nothing. -/
theorem Holds.comments (h : c.Holds p origin pt W σ m) (hcomment : Commented c.body pt pt') :
    ∃ m', c.Quiet p grant origin pt W σ m pt' m' := by
  rcases hcomment with rfl | ⟨⟨text, hat⟩, rfl⟩
  · exact ⟨m, .refl h⟩
  · refine ⟨m.advance, ⟨⟨⟨1, h.runs hat rfl rfl⟩, h.advance hat fun _ _ => nofun, .refl W,
      Nat.le_refl _, fun d hd => hd.of_index rfl (Nat.le_succ _), Nat.le_refl _,
      fun d _ hd _ => .inl (hd.of_step hat fun _ _ => nofun), rfl, fun _ _ => rfl, fun _ _ => rfl,
      fun _ _ _ _ _ => rfl⟩, List.prefix_rfl⟩⟩

theorem Executes.commented {x : Vars → Run (Option Semantics.Value × Vars)}
    (hcomment : Commented c.body pt pt₁)
    (h : c.Executes p grant origin fuel slots declared bound this? ret pt₁ names behind out x) :
    c.Executes p grant origin fuel slots declared bound this? ret pt names behind out x := by
  intro vars hnames W σ m hm hs
  obtain ⟨m₁, h₁⟩ := hm.comments grant hcomment
  exact h₁.finishes (h vars hnames W σ m₁ h₁.holds (h₁.leads.scoped hs.older hs))

variable (grant) in
/-- **A variable is declared** and has its first value. -/
theorem Holds.declares {var : VarDecl} {slot : Operand} (h : c.Holds p origin pt W σ m)
    (hs : c.Scoped p slots declared bound ⟨this?, vars⟩ pt W m) (hvar : var ∈ declared)
    (hnew : (Scope.mk this? vars).names.var? var.name = none) (hslot : slots.get? var.id = some slot)
    (hstore : c.body.Stores slot (defaultOperand var.ty) pt pt') :
    ∃ m', c.Leads p grant origin 0 pt W m pt' W σ m' ∧
      c.Scoped p slots declared bound ⟨this?, (var, Semantics.default var.ty) :: vars⟩ pt' W m' := by
  obtain ⟨d, hd, hslot', hbefore⟩ := hs.slot var hvar
  obtain rfl := Option.some.inj (hslot.symm.trans hslot')
  obtain ⟨o, ho, -⟩ := h.slots d hbefore
  obtain ⟨x, hx, hmatch⟩ := Has.default p W var.ty
  obtain ⟨hlead, hstored, hothers⟩ := h.storesSlot grant hstore hbefore ho hx
  have hfresh : var.name ∉ (Scope.mk this? vars).names.vars.map (·.name) := fun hmem => by
    obtain ⟨other, hother, heq⟩ := List.mem_map.1 hmem
    have hne := List.find?_eq_none.1 hnew other hother
    exact hne (by simpa using heq)
  -- Variables of other names have slots of their own, so theirs still hold what they did.
  refine ⟨_, hlead.weaken (Nat.zero_le d), Nat.le_trans hs.older hlead.temps, fun u hu => ?_, hs.own,
    List.nodup_cons.2 ⟨hfresh, hs.names⟩, List.forall_mem_cons.2 ⟨hvar, hs.known⟩,
    List.forall_mem_cons.2 ⟨⟨d, x, hslot', hstored, hmatch⟩, fun e he => ?_⟩, hs.this⟩
  · obtain ⟨t, ht, hslot, hbefore⟩ := hs.slot u hu
    exact ⟨t, ht, hslot, hlead.slots t hbefore⟩
  · obtain ⟨t, y, hslotE, hstoredE, hmatchE⟩ := hs.values e he
    have hmem : e.1 ∈ (Scope.mk this? vars).names.vars := List.mem_map_of_mem he
    refine ⟨t, y, hslotE, hothers t y (fun heq => hfresh ?_) hstoredE, hmatchE⟩
    subst heq
    rw [← hs.own e.1 (hs.known _ hmem) var hvar (hslotE.trans hslot'.symm)]
    exact List.mem_map_of_mem hmem

/-- The truth of a condition. -/
theorem Evaluates.truth {scope : Scope} {x : Run Semantics.Value}
    (h : c.Evaluates p grant origin fuel slots declared bound scope pt v pt₁ (.written .bool) x) :
    c.Does p grant origin fuel slots declared bound scope pt pt₁
      (fun b _ m => Has ir pt₁ m v (.bool b)) (x >>= asBool) :=
  h.seq fun value W σ m hm _ hvalue => by
    obtain ⟨b, rfl, hb⟩ := hvalue.bool
    exact ⟨W, m, .refl hm, hb⟩

/-- **A condition is tested**, and the code goes on in one block or the other. -/
theorem Does.chooses {x : Run Bool} {k : Bool → Run (Option Semantics.Value × Vars)}
    {yes no : Ir.BlockId}
    (h : c.Does p grant origin fuel' slots declared bound ⟨this?, vars⟩ pt pt₁
      (fun b _ m => Has ir pt₁ m v (.bool b)) x)
    (hbranch : c.body.Ends pt₁ (.branch v yes no)) (hyes : yes ≠ 0) (hno : no ≠ 0)
    (hfuel : fuel ≤ fuel') (hm : c.Holds p origin pt W σ m)
    (hs : c.Scoped p slots declared bound ⟨this?, vars⟩ pt W m)
    (hk : ∀ b W₁ σ₁ m₁,
      c.Leads p grant origin pt.temps pt W m (pt₁.enter (if b then yes else no)) W₁ σ₁ m₁ →
      c.Scoped p slots declared bound ⟨this?, vars⟩ (pt₁.enter (if b then yes else no)) W₁ m₁ →
      c.Finishes p grant origin slots declared bound this? ret fuel pt W m behind out (k b σ₁)) :
    c.Finishes p grant origin slots declared bound this? ret fuel pt W m behind out ((x >>= k) σ) := by
  refine Follows.bind (Follows.sooner (h W σ m hm hs) hfuel) fun b σ₁ ⟨W₁, m₁, h₁, hb⟩ => ?_
  obtain ⟨m₂, h₂, -⟩ := h₁.holds.branches grant hbranch hyes hno hb
  have hlead := h₁.trans h₂.leads h₁.temps
  exact hk b W₁ σ₁ m₂ hlead (hlead.scoped hs.older hs)

/-- **A loop**: by the number of rounds. A round goes through the branch at least. -/
theorem Holds.loops {head inside exit : Ir.BlockId} {t : Nat} {cond : Vars → Run Bool}
    {body : Vars → Run (Option Semantics.Value × Vars)}
    (hcond : ∀ vars, (Scope.mk this? vars).names = names →
      c.Does p grant origin fuel slots declared bound ⟨this?, vars⟩ (pt.enter head) pt₂
        (fun b _ m => Has ir pt₂ m v (.bool b)) (cond vars))
    (hbranch : c.body.Ends pt₂ (.branch v inside exit))
    (hbody : c.Executes p grant origin fuel slots declared bound this? ret (pt₂.enter inside) names
      behind out body)
    (hsuffix : names.vars <:+ behind.vars) (hback : Leaves c.body out head) (hhead : head ≠ 0)
    (hinside : inside ≠ 0) (hexit : exit ≠ 0) (hle : pt₂.temps ≤ t) {rounds : Nat}
    (hrounds : rounds ≤ fuel) :
    c.Executes p grant origin rounds slots declared bound this? ret (pt.enter head) names names
      (some ⟨t, exit, 0⟩) (loopWithin cond body rounds) := by
  induction rounds with
  | zero => exact fun vars _ W σ m hm _ => ⟨0, m, Nat.le_refl 0, .refl m, hm.agrees.output⟩
  | succ rounds ih =>
    rintro vars rfl W σ m hm hs
    rw [loopWithin]
    refine (hcond vars rfl).chooses hbranch hinside hexit hrounds hm hs fun b W₁ σ₁ m₁ h₁ hs₁ => ?_
    cases b with
    | false =>
      have hskip := h₁.at_temps (Nat.le_trans h₁.temps hle)
      exact hskip.finishes (hs₁.at_temps (Nat.le_trans hs₁.older hle))
    | true =>
      have hround := (hbody vars rfl W₁ σ₁ m₁ h₁.holds hs₁).after h₁
      rw [if_pos rfl]
      refine Finishes.then_ (Follows.sooner hround hrounds)
        (fun inner pt₃ W₃ σ₃ m₃ hout h₃ hs₃ hnames => ?_) fun value inner σ₃ => ⟨_, rfl⟩
      -- The jump back to the head is the step that the round is paid with.
      obtain ⟨m₄, h₄, j, hj⟩ := h₃.holds.jumps grant (hback _ hout) hhead
      obtain ⟨i, hi⟩ := h₃.runs
      -- The next round begins where this one did.
      have hagain := (h₃.trans h₄.leads (Nat.zero_le _)).at_temps (Nat.le_refl (pt.enter head).temps)
      have hs₄ := ((h₄.leads.scoped hs₃.older hs₃).leave vars).at_temps hs.older
      exact .moved hagain ⟨i + j, hi.trans hj⟩ (ih (Nat.le_of_succ_le hrounds) _
        (Vars.names_leave hnames hsuffix) W₃ σ₃ m₄ hagain.holds hs₄)

end Forms

end Call

/-! ## All statements -/

section Statements

open Call

variable {p : Program} {printName : String} {a : Analysis} {S : Session} {grant : Nat → Bool}
variable {origin : World} {c : Call S.ir} {n : Nat} {slots : Table NodeId Operand}
variable {declared : List VarDecl} {bound : Nat}
variable {this? : Option (String × Semantics.Value)} {ret : TypeExpr}
variable {invoke : Option (String × Semantics.Value) → FunctionDecl → List Semantics.Value →
  Run Semantics.Value}

/-- A statement adds to the names in scope, if anything. -/
theorem StmtCode.suffix {names behind : Names} {line : Nat} {s : Stmt} {pt : Point}
    {out : Option Point}
    (h : StmtCode p printName a S c.body slots ret names line s behind pt out) :
    names.vars <:+ behind.vars := by
  cases h with
  | decl => exact List.suffix_cons _ _
  | _ => exact List.suffix_rfl

mutual

/-- **The code of a statement does what the statement says.** -/
theorem StmtCode.executes (hS : S.Complete p printName a) (hsound : p.SoundClasses)
    (hinvoke : Invokes p S grant origin n invoke) {names behind : Names} {line : Nat} {s : Stmt}
    {pt : Point} {out : Option Point}
    (h : StmtCode p printName a S c.body slots ret names line s behind pt out)
    (hvars : s.varDecls ⊆ declared) :
    c.Executes p grant origin (n + 1) slots declared bound this? ret pt names behind out
      (fun vars => execStmt p printName grant invoke n this? line vars s) := by
  cases h with
  | block hcomment hbody =>
    refine .commented hcomment ?_
    obtain ⟨inner, hsuffix, hbody⟩ := hbody.executes hS hsound hinvoke hvars
    rintro vars rfl W σ m hm hs
    simp only [execStmt]
    exact (hbody vars rfl W σ m hm hs).leave hsuffix
  | decl hcomment hnew hslot hstore =>
    refine .commented hcomment ?_
    rintro vars rfl W σ m hm hs
    obtain ⟨m', h', hs'⟩ := hm.declares grant hs (hvars (by simp [Stmt.varDecls])) hnew hslot hstore
    simp only [execStmt]
    exact h'.finishes hs'
  | assign hcomment hplace hvalue hfits hcast hstore =>
    refine .commented hcomment ?_
    rintro vars rfl W σ m hm hs
    simp only [execStmt]
    refine (hplace.evaluates hS hsound hinvoke W σ m hm hs).finishes (Nat.le_refl _)
      fun loc W₁ σ₁ m₁ h₁ hloc => ?_
    have hs₁ := h₁.scoped hs.older hs
    refine (hvalue.evaluates hS hsound hinvoke W₁ σ₁ m₁ h₁.holds hs₁).finishes (Nat.le_refl _)
      fun value W₂ σ₂ m₂ h₂ hvalue => ?_
    obtain ⟨m₃, h₃, hvalue⟩ := h₂.holds.castsGiven grant hcast hfits hvalue
    have hs₃ := h₃.leads.scoped (h₂.scoped hs₁.older hs₁).older (h₂.scoped hs₁.older hs₁)
    have hloc := h₃.leads.located (Nat.le_refl _) (h₂.located (Nat.le_refl _) hloc)
    have hnodup := Program.nodup_fieldRefs hsound.hierarchy.acyclic
    refine h₃.finishes ((h₃.holds.writesPlace hnodup hs₃ hloc hstore hvalue).finishes (Nat.le_refl _)
      fun vars' W₄ σ₄ m₄ h₄ ⟨hs₄, hnames⟩ => ?_)
    exact .leaves rfl (.refl h₄.holds) hs₄ (congrArg (Names.mk _) hnames)
  | expr hcomment hvalue =>
    refine .commented hcomment ?_
    rintro vars rfl W σ m hm hs
    simp only [execStmt]
    refine (hvalue.evaluates hS hsound hinvoke W σ m hm hs).finishes (Nat.le_refl _)
      fun value W₁ σ₁ m₁ h₁ _ => ?_
    exact (Call.Leads.refl (n := 0) h₁.holds).finishes (h₁.scoped hs.older hs)
  | ifThen hcomment hcond hbranch hyes hno hjoin hbody hleaves hjump hle =>
    refine .commented hcomment ?_
    rintro vars rfl W σ m hm hs
    simp only [execStmt]
    rw [← Run.bind_assoc]
    refine (hcond.evaluates hS hsound hinvoke).truth.chooses hbranch hyes hno (Nat.le_refl _) hm hs
      fun b W₁ σ₁ m₁ h₁ hs₁ => ?_
    have hbound := Nat.le_trans hs₁.older hle
    cases b with
    | true =>
      have hyes := hbody.executes hS hsound hinvoke hvars vars rfl W₁ σ₁ m₁ h₁.holds hs₁
      exact ((hyes.joins hleaves hjoin hle hbound).leave hbody.suffix).after h₁
    | false =>
      have hskip := h₁.at_temps (Nat.le_trans h₁.temps hle)
      obtain ⟨m₂, h₂, -⟩ := hskip.holds.jumps grant hjump hjoin
      exact (hskip.trans h₂.leads (Nat.le_trans h₁.temps hle)).finishes
        (h₂.leads.scoped hbound (hs₁.at_temps hbound))
  | ifElse hcomment hcond hbranch hfirst hsecond hjoin hyes hleaves hle hno hleaves' hle' =>
    refine .commented hcomment ?_
    rintro vars rfl W σ m hm hs
    simp only [execStmt]
    rw [← Run.bind_assoc]
    refine (hcond.evaluates hS hsound hinvoke).truth.chooses hbranch hfirst hsecond (Nat.le_refl _)
      hm hs fun b W₁ σ₁ m₁ h₁ hs₁ => ?_
    have hbound := Nat.le_trans hs₁.older hle
    have hbound' := Nat.le_trans hs₁.older hle'
    cases b with
    | true =>
      have hyes' := hyes.executes hS hsound hinvoke
        (fun _ h => hvars (List.mem_append_left _ h)) vars rfl W₁ σ₁ m₁ h₁.holds hs₁
      exact ((hyes'.joins hleaves hjoin hle' hbound').leave hyes.suffix).after h₁
    | false =>
      -- The second branch was lowered after the first, so its temporaries are later ones.
      have hskip := h₁.at_temps (Nat.le_trans h₁.temps hle)
      have hno' := hno.executes hS hsound hinvoke
        (fun _ h => hvars (List.mem_append_right _ h)) vars rfl W₁ σ₁ m₁ hskip.holds
        (hs₁.at_temps hbound)
      exact ((hno'.after hskip).joins hleaves' hjoin (Nat.le_trans h₁.temps hle') hbound').leave
        hno.suffix
  | loop hcomment hjump hhead hinside hexit hcond hbranch hbody hleaves hle =>
    refine .commented hcomment fun vars hnames W σ m hm hs => ?_
    simp only [execStmt]
    obtain ⟨m₁, h₁, hmoves⟩ := hm.jumps grant hjump hhead
    refine .moved h₁.leads hmoves (Holds.loops (fun vars' hnames' => ?_) hbranch
      (hbody.executes hS hsound hinvoke hvars) hbody.suffix hleaves hhead hinside hexit hle
      (Nat.le_succ n) vars hnames W σ m₁ h₁.holds (h₁.leads.scoped hs.older hs))
    subst hnames'
    exact (hcond.evaluates hS hsound hinvoke).truth
  | ret hcomment hvalue hfits hcast hret =>
    refine .commented hcomment ?_
    rintro vars rfl W σ m hm hs
    simp only [execStmt]
    refine (hvalue.evaluates hS hsound hinvoke W σ m hm hs).finishes (Nat.le_refl _)
      fun value W₁ σ₁ m₁ h₁ hvalue => ?_
    obtain ⟨m₂, h₂, hvalue⟩ := h₁.holds.castsGiven grant hcast hfits hvalue
    obtain ⟨x, hx, hmatch⟩ := hvalue.written
    obtain ⟨pt', m₃, h₃, hreturn⟩ := h₂.holds.returns grant hret hx
    exact .returns ((h₂.trans h₃).leads.weaken (Nat.zero_le _)) hreturn hmatch

/-- **The code of statements in turn** does what they say, one after the other. -/
theorem StmtsCode.executes (hS : S.Complete p printName a) (hsound : p.SoundClasses)
    (hinvoke : Invokes p S grant origin n invoke) {names : Names} {line : Nat}
    {stmts : List Stmt} {pt : Point} {out : Option Point}
    (h : StmtsCode p printName a S c.body slots ret names line stmts pt out)
    (hvars : Source.listVarDecls stmts ⊆ declared) :
    ∃ behind : Names, names.vars <:+ behind.vars ∧
      c.Executes p grant origin (n + 1) slots declared bound this? ret pt names behind out
        (fun vars => execStmts p printName grant invoke n this? line vars stmts) := by
  cases h with
  | nil =>
    refine ⟨names, List.suffix_rfl, ?_⟩
    rintro vars rfl W σ m hm hs
    simp only [execStmts]
    exact (Call.Leads.refl (n := 0) hm).finishes hs
  | cons hstmt hrest =>
    obtain ⟨behind, hsuffix, hrest⟩ := hrest.executes hS hsound hinvoke
      (fun _ h => hvars (List.mem_append_right _ h))
    refine ⟨behind, hstmt.suffix.trans hsuffix, ?_⟩
    rintro vars rfl W σ m hm hs
    simp only [execStmts]
    have hfirst := hstmt.executes hS hsound hinvoke (fun _ h => hvars (List.mem_append_left _ h)) vars
      rfl W σ m hm hs
    refine hfirst.then_ (fun inner pt₁ W₁ σ₁ m₁ hout h₁ hs₁ hnames => ?_) fun value inner σ₁ => ⟨_, rfl⟩
    obtain rfl := Option.some.inj hout
    exact (hrest inner hnames W₁ σ₁ m₁ h₁.holds hs₁).after h₁
  | dead hstmt =>
    refine ⟨names, List.suffix_rfl, ?_⟩
    rintro vars rfl W σ m hm hs
    simp only [execStmts]
    have hfirst := hstmt.executes hS hsound hinvoke (fun _ h => hvars (List.mem_append_left _ h)) vars
      rfl W σ m hm hs
    -- No code was made for the rest, and none of it is reached: the statement returns.
    exact hfirst.then_ (fun inner pt₁ W₁ σ₁ m₁ hout => by cases hout) fun value inner σ₁ => ⟨_, rfl⟩

end

end Statements

end ClassLang.Lowering
