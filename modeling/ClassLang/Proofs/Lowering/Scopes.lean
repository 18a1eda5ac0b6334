import ClassLang.Proofs.Lowering.Pieces
/-!
# Lowering — names and places in memory

`Scoped` says that a slot of its own has the value of every variable in
scope, and that the first argument is the receiver. `Given` says that an
operand has a value that the source computed, `Located` that it has the
address of a place. What is computed stays while code runs on; places are
read and written where their addresses are (`Holds.readsPlace`,
`Holds.writesPlace`).
-/


namespace ClassLang.Lowering

open Source (NodeId TypeExpr Program VarDecl)
open Semantics (Scope Vars Loc readLoc writeLoc asRef Fault)
open Typing (ExprTy)
open Ir (Operand Point Proc TempId)

/-! ## Variables -/

section Vars

variable {vars : Vars} {name : String}

/-- The variable that a name means has a value. -/
theorem Vars.value?_of_var? {this? : Option (String × Semantics.Value)} {var : VarDecl}
    (h : (Scope.mk this? vars).names.var? name = some var) :
    ∃ value, (var, value) ∈ vars ∧ vars.value? name = some value ∧ var.name = name := by
  have hfind : (vars.map (·.1)).find? (·.name == name) = some var := h
  rw [List.find?_map, Option.map_eq_some_iff] at hfind
  obtain ⟨⟨var', value⟩, hfound, rfl⟩ := hfind
  refine ⟨value, List.mem_of_find?_eq_some hfound, ?_, by simpa using List.find?_some hfound⟩
  rw [Vars.value?, show vars.find? (·.1.name == name) = some (var', value) from hfound, Option.map_some]

theorem Vars.value?_eq_none {this? : Option (String × Semantics.Value)}
    (h : (Scope.mk this? vars).names.var? name = none) : vars.value? name = none := by
  have hfind : (vars.map (·.1)).find? (·.name == name) = none := h
  rw [List.find?_map, Option.map_eq_none_iff] at hfind
  rw [Vars.value?, show vars.find? (·.1.name == name) = none from hfind, Option.map_none]

/-- A variable has the value that it was given, the others keep theirs. -/
theorem Vars.mem_assign (hnames : ((vars.map (·.1)).map (·.name)).Nodup) {value : Semantics.Value}
    {e : VarDecl × Semantics.Value} (h : e ∈ vars.assign name value) :
    (e.1.name = name ∧ e.2 = value ∧ ∃ old, (e.1, old) ∈ vars) ∨ (e.1.name ≠ name ∧ e ∈ vars) := by
  induction vars with
  | nil => cases h
  | cons first rest ih =>
    obtain ⟨var, old⟩ := first
    rw [List.map_cons, List.map_cons, List.nodup_cons] at hnames
    rw [Vars.assign] at h
    split at h
    next heq =>
      rcases List.mem_cons.1 h with rfl | hmem
      · exact .inl ⟨heq, rfl, old, List.mem_cons_self⟩
      · refine .inr ⟨fun hname => hnames.1 ?_, List.mem_cons_of_mem _ hmem⟩
        exact List.mem_map.2 ⟨e.1, List.mem_map_of_mem hmem, hname.trans heq.symm⟩
    next hne =>
      rcases List.mem_cons.1 h with rfl | hmem
      · exact .inr ⟨hne, List.mem_cons_self⟩
      · rcases ih hnames.2 hmem with ⟨hname, hvalue, prior, hprior⟩ | ⟨hother, hold⟩
        · exact .inl ⟨hname, hvalue, prior, List.mem_cons_of_mem _ hprior⟩
        · exact .inr ⟨hother, List.mem_cons_of_mem _ hold⟩

theorem Vars.map_fst_assign (vars : Vars) (name : String) (value : Semantics.Value) :
    (vars.assign name value).map (·.1) = vars.map (·.1) := by
  induction vars with
  | nil => rfl
  | cons first rest ih =>
    rw [Vars.assign]
    split
    · rfl
    · rw [List.map_cons, List.map_cons, ih]

end Vars

namespace Call

variable {p : Program} {ir : Ir.Program} {grant : Nat → Bool} {origin : World} {c : Call ir}
variable {slots : Table NodeId Operand} {declared : List VarDecl} {bound : Nat}
variable {n fuel : Nat} {scope : Scope}
variable {pt pt' pt₁ : Point} {W W₁ : World} {σ σ₁ : Semantics.State} {m m₁ : Ir.State}
variable {v w : Operand} {ty : TypeExpr} {message : String}

variable (p slots declared bound c) in
/-- **The names in scope are in memory.** The declared variables have slots of
their own, which are older than the temporaries of the body. -/
structure Scoped (scope : Scope) (pt : Point) (W : World) (m : Ir.State) : Prop where
  older : bound ≤ pt.temps
  slot : ∀ var ∈ declared, ∃ d < bound, slots.get? var.id = some (.temp d) ∧
    c.body.SlotBefore pt d
  own : ∀ var ∈ declared, ∀ var' ∈ declared, slots.get? var.id = slots.get? var'.id → var = var'
  names : (scope.names.vars.map (·.name)).Nodup
  known : ∀ var ∈ scope.names.vars, var ∈ declared
  values : ∀ e ∈ scope.vars, ∃ d x, slots.get? e.1.id = some (.temp d) ∧ c.Stored pt m d x ∧
    Matches p W e.1.ty e.2 x
  this : ∀ class_ value, scope.this? = some (class_, value) → ∃ addr o, value = .ref addr ∧
    c.args[0]? = some (.ptr ⟨o, []⟩) ∧ Matches p W (.class_ class_) value (.ptr ⟨o, []⟩)

theorem Leads.scoped (h : c.Leads p grant origin n pt W m pt₁ W₁ σ₁ m₁) (hn : bound ≤ n)
    (hs : c.Scoped p slots declared bound scope pt W m) :
    c.Scoped p slots declared bound scope pt₁ W₁ m₁ := by
  refine ⟨Nat.le_trans hs.older h.temps, fun var hvar => ?_, hs.own, hs.names, hs.known,
    fun e he => ?_, fun class_ value hthis => ?_⟩
  · obtain ⟨d, hd, hslot, hbefore⟩ := hs.slot var hvar
    exact ⟨d, hd, hslot, h.slots d hbefore⟩
  · obtain ⟨d, x, hslot, hstored, hmatch⟩ := hs.values e he
    obtain ⟨d', hd', hslot', -⟩ := hs.slot e.1 (hs.known _ (List.mem_map_of_mem he))
    obtain rfl := Operand.temp.inj (Option.some.inj (hslot.symm.trans hslot'))
    exact ⟨d, x, hslot, h.stored (Nat.lt_of_lt_of_le hd' hn) hstored, hmatch.mono h.grows⟩
  · obtain ⟨addr, o, haddr, harg, hmatch⟩ := hs.this class_ value hthis
    exact ⟨addr, o, haddr, harg, hmatch.mono h.grows⟩

/-- How many temporaries there are before the point does not matter. -/
theorem Scoped.at_temps (hs : c.Scoped p slots declared bound scope pt W m) {t : Nat}
    (hle : bound ≤ t) :
    c.Scoped p slots declared bound scope ⟨t, pt.block, pt.index⟩ W m :=
  ⟨hle, hs.slot, hs.own, hs.names, hs.known, hs.values, hs.this⟩

/-- Fewer names are in scope. -/
theorem Scoped.sub (hs : c.Scoped p slots declared bound scope pt W m) {vars : Vars}
    (hvars : vars.Sublist scope.vars) :
    c.Scoped p slots declared bound ⟨scope.this?, vars⟩ pt W m :=
  ⟨hs.older, hs.slot, hs.own, ((hvars.map _).map _).nodup hs.names,
    fun var hvar => hs.known var ((hvars.map _).subset hvar),
    fun e he => hs.values e (hvars.subset he), hs.this⟩

/-- The variable that a name means has its value in its slot. -/
theorem Scoped.var (hs : c.Scoped p slots declared bound scope pt W m) {name : String}
    {var : VarDecl} (hvar : scope.names.var? name = some var) :
    ∃ value d x, scope.vars.value? name = some value ∧ slots.get? var.id = some (.temp d) ∧
      d < bound ∧ c.Stored pt m d x ∧ Matches p W var.ty value x := by
  obtain ⟨value, hmem, hvalue, -⟩ := Vars.value?_of_var? hvar
  obtain ⟨d, x, hslot, hstored, hmatch⟩ := hs.values _ hmem
  obtain ⟨d', hd', hslot', -⟩ := hs.slot var (hs.known _ (List.mem_map_of_mem hmem))
  obtain rfl := Operand.temp.inj (Option.some.inj (hslot.symm.trans hslot'))
  exact ⟨value, d, x, hvalue, hslot, hd', hstored, hmatch⟩

/-! ## Values -/

variable (p ir) in
/-- **The operand has the value** of a type that the source computed. -/
def Given (pt : Point) (v : Operand) (τ : ExprTy) (value : Semantics.Value) (W : World)
    (m : Ir.State) : Prop :=
  ∃ x, Has ir pt m v x ∧ MatchesExpr p W τ value x

section Given

variable {τ : ExprTy} {value : Semantics.Value}

theorem Leads.given (h : c.Leads p grant origin n pt W m pt₁ W₁ σ₁ m₁) (hn : pt.temps ≤ n)
    (hv : Given p ir pt v τ value W m) : Given p ir pt₁ v τ value W₁ m₁ := by
  obtain ⟨x, hx, hmatch⟩ := hv
  exact ⟨x, h.has hn hx, hmatch.mono h.grows⟩

theorem Given.written (h : Given p ir pt v (.written ty) value W m) :
    ∃ x, Has ir pt m v x ∧ Matches p W ty value x := by
  obtain ⟨x, hx, hmatch⟩ := h
  exact ⟨x, hx, hmatch.of_written⟩

theorem Given.int (h : Given p ir pt v (.written .int) value W m) :
    ∃ i, value = .int i ∧ Has ir pt m v (.int i) := by
  obtain ⟨x, hx, hmatch⟩ := h.written
  obtain ⟨i, rfl, rfl⟩ := hmatch.int_inv
  exact ⟨i, rfl, hx⟩

theorem Given.bool (h : Given p ir pt v (.written .bool) value W m) :
    ∃ b, value = .bool b ∧ Has ir pt m v (.bool b) := by
  obtain ⟨x, hx, hmatch⟩ := h.written
  obtain ⟨b, rfl, rfl⟩ := hmatch.bool_inv
  exact ⟨b, rfl, hx⟩

/-- An integer that was computed. -/
theorem Computes.int {i : Int32} (h : c.Computes p grant origin pt W σ m pt' v (.int i) m₁) :
    c.Outcome p grant origin pt.temps fuel pt W m pt' (Given p ir pt' v (.written .int))
      (.ok (.int i) σ) :=
  ⟨W, m₁, h.leads, .int i, h.toHas, .written (.int i)⟩

/-- A boolean that was computed. -/
theorem Computes.bool {b : Bool} (h : c.Computes p grant origin pt W σ m pt' v (.bool b) m₁) :
    c.Outcome p grant origin pt.temps fuel pt W m pt' (Given p ir pt' v (.written .bool))
      (.ok (.bool b) σ) :=
  ⟨W, m₁, h.leads, .bool b, h.toHas, .written (.bool b)⟩

variable (grant) in
/-- What is read as another type is what it was. -/
theorem Holds.castsGiven (h : c.Holds p origin pt W σ m) (hcast : c.body.Casts w pt v pt')
    (hfits : Typing.Fits p τ (.written ty)) (hw : Given p ir pt w τ value W m) :
    ∃ m', c.Quiet p grant origin pt W σ m pt' m' ∧ Given p ir pt' v (.written ty) value W m' := by
  obtain ⟨x, hx, hmatch⟩ := hw
  obtain ⟨m', h'⟩ := h.casts grant hcast hx
  exact ⟨m', h'.toQuiet, x, h'.toHas, .written (hmatch.fits hfits)⟩

/-- **The check for null.** -/
theorem Holds.checksNull (h : c.Holds p origin pt W σ m) {line : Nat}
    (hcheck : c.body.HaltsIfNull v (Fault.nullPointer line).message pt pt')
    (hty : (∃ name, ty = .class_ name) ∨ ∃ elem, ty = .array elem)
    (hv : Given p ir pt v (.written ty) value W m) :
    c.Outcome p grant origin pt.temps fuel pt W m pt' (fun addr W' m' => ∃ o,
      Has ir pt' m' v (.ptr ⟨o, []⟩) ∧ Matches p W' ty (.ref addr) (.ptr ⟨o, []⟩))
      (asRef line value σ) := by
  obtain ⟨x, hx, hmatch⟩ := hv.written
  obtain ⟨hnull, hnonnull⟩ := h.nullCheck grant hcheck hx
  cases hmatch with
  | int | bool => rcases hty with ⟨name, heq⟩ | ⟨elem, heq⟩ <;> cases heq
  | nullClass | nullArray => exact hnull rfl
  | object hid hinherits hlink =>
    obtain ⟨m', h'⟩ := hnonnull nofun
    exact ⟨W, m', h'.leads, _, h'.has hx, .object hid hinherits hlink⟩
  | array hlink =>
    obtain ⟨m', h'⟩ := hnonnull nofun
    exact ⟨W, m', h'.leads, _, h'.has hx, .array hlink⟩

end Given

/-! ## Places -/

variable (p ir slots scope) in
/-- **The operand has the address of the place** that the source computed. -/
inductive Located (pt : Point) (v : Operand) : TypeExpr → Loc → World → Ir.State → Prop
  | variable_ {name var d W m} : scope.names.var? name = some var →
      slots.get? var.id = some (.temp d) → v = .temp d → Located pt v var.ty (.var name) W m
  | field {addr ref field o sub i W m} : W addr = some ⟨o, .object sub⟩ →
      (p.fieldRefs sub)[i]? = some ref → fieldDecl? p ref = some field →
      Has ir pt m v (.ptr ⟨o, [i + 1]⟩) → Located pt v field.ty (.field addr ref) W m
  | elem {addr elem length o i W m} : W addr = some ⟨o, .array elem length⟩ → i < length →
      Has ir pt m v (.ptr ⟨o, [1, i]⟩) → Located pt v elem (.elem addr i) W m

theorem Leads.located (h : c.Leads p grant origin n pt W m pt₁ W₁ σ₁ m₁) (hn : pt.temps ≤ n)
    {loc : Loc} (hloc : Located p ir slots scope pt v ty loc W m) :
    Located p ir slots scope pt₁ v ty loc W₁ m₁ := by
  cases hloc with
  | variable_ hvar hslot hv => exact .variable_ hvar hslot hv
  | field hlink hi hfield hv => exact .field (h.grows _ _ hlink) hi hfield (h.has hn hv)
  | elem hlink hi hv => exact .elem (h.grows _ _ hlink) hi (h.has hn hv)

namespace Holds

/-- **A place is read.** -/
theorem readsPlace (h : c.Holds p origin pt W σ m)
    (hs : c.Scoped p slots declared bound scope pt W m) {loc : Loc}
    (hloc : Located p ir slots scope pt v ty loc W m)
    (hload : c.body.Defines (.load · v) pt w pt') :
    c.Outcome p grant origin pt.temps fuel pt W m pt' (Given p ir pt' w (.written ty))
      (readLoc scope.vars loc σ) := by
  cases hloc with
  | variable_ hvar hslot hv =>
    obtain ⟨value, d, x, hvalue, hslot', hd, hstored, hmatch⟩ := hs.var hvar
    obtain rfl := Operand.temp.inj (Option.some.inj (hslot.symm.trans hslot'))
    obtain rfl := hv
    obtain ⟨m', h'⟩ := h.reads grant hload (Nat.lt_of_lt_of_le hd hs.older) hstored
    rw [readLoc, Semantics.Run.ofOption_of_eq hvalue]
    exact ⟨W, m', h'.leads, x, h'.toHas, .written hmatch⟩
  | field hlink hi hfield hv =>
    obtain ⟨cell, cell', hcell, hcell', hmatch⟩ := h.cell hlink
    cases hmatch with
    | object _ hfields =>
      obtain ⟨decl, value, x, hdecl, hvalue, hx, hmatch⟩ := hfields _ _ hi
      obtain rfl := Option.some.inj (hfield.symm.trans hdecl)
      obtain ⟨m', h'⟩ := h.loads grant hload hv hcell' hx
      rw [readLoc, Semantics.Run.bind_of_ok (Semantics.Run.cell_of_eq hcell)]
      show c.Outcome p grant origin _ _ _ _ _ _ _ (Semantics.Run.ofOption _ σ)
      rw [Semantics.Run.ofOption_of_eq hvalue]
      exact ⟨W, m', h'.leads, x, h'.toHas, .written hmatch⟩
  | elem hlink hi hv =>
    obtain ⟨cell, cell', hcell, hcell', hmatch⟩ := h.cell hlink
    cases hmatch with
    | @array _ _ elems _ hcount _ _ helems =>
      have hvalue := List.getElem?_eq_getElem (hcount.symm ▸ hi)
      obtain ⟨x, hx, hmatch⟩ := helems _ _ hvalue
      obtain ⟨m', h'⟩ := h.loads grant hload hv hcell' hx
      rw [readLoc, Semantics.Run.bind_of_ok (Semantics.Run.cell_of_eq hcell)]
      show c.Outcome p grant origin _ _ _ _ _ _ _ (Semantics.Run.ofOption _ σ)
      rw [Semantics.Run.ofOption_of_eq hvalue]
      exact ⟨W, m', h'.leads, x, h'.toHas, .written hmatch⟩

variable (p slots declared bound c) in
/-- The variables have other values, and no other names. -/
def Assigned (scope : Scope) (pt : Point) (vars : Vars) (W : World) (m : Ir.State) : Prop :=
  c.Scoped p slots declared bound ⟨scope.this?, vars⟩ pt W m ∧
    vars.map (·.1) = scope.vars.map (·.1)

/-- **A place is written.** -/
theorem writesPlace (hnodup : ∀ id, (p.fieldRefs id).Nodup) (h : c.Holds p origin pt W σ m)
    (hs : c.Scoped p slots declared bound scope pt W m) {loc : Loc}
    (hloc : Located p ir slots scope pt v ty loc W m) (hstore : c.body.Stores v w pt pt')
    {value : Semantics.Value} (hw : Given p ir pt w (.written ty) value W m) :
    c.Outcome p grant origin 0 fuel pt W m pt' (Assigned p c slots declared bound scope pt')
      (writeLoc scope.vars value loc σ) := by
  obtain ⟨x, hx, hmatch⟩ := hw.written
  cases hloc with
  | @variable_ name var d _ _ hvar hslot hv =>
    obtain ⟨_, d', _, -, hslot', hd, ⟨hbefore, o, ho, -⟩, -⟩ := hs.var hvar
    obtain rfl := Operand.temp.inj (Option.some.inj (hslot.symm.trans hslot'))
    obtain rfl := hv
    obtain ⟨_, hmem, -, hname⟩ := Vars.value?_of_var? hvar
    -- A variable: slots are distinct, so all other variables keep what they have.
    obtain ⟨hlead, hstored, hothers⟩ := h.storesSlot grant hstore hbefore ho hx
    have hknown {e : VarDecl × Semantics.Value} (he : e ∈ scope.vars) : e.1 ∈ declared :=
      hs.known _ (List.mem_map_of_mem he)
    have hsame : (Scope.mk scope.this? (scope.vars.assign name value)).names.vars =
        scope.names.vars := Vars.map_fst_assign _ _ _
    refine ⟨W, _, hlead.weaken (Nat.zero_le d), ⟨Nat.le_trans hs.older hlead.temps, fun u hu => ?_,
      hs.own, hsame ▸ hs.names, hsame ▸ hs.known, fun e he => ?_, hs.this⟩, hsame⟩
    · obtain ⟨t, ht, hslot, hbefore⟩ := hs.slot u hu
      exact ⟨t, ht, hslot, hlead.slots t hbefore⟩
    · rcases Vars.mem_assign hs.names he with ⟨hsame, hvalue, old, hold⟩ | ⟨hother, hold⟩
      · have heq : e.1 = var := List.inj_on_of_nodup_map hs.names (List.mem_map_of_mem hold)
          (List.mem_map_of_mem hmem) (hsame.trans hname.symm)
        rw [heq, hvalue]
        exact ⟨d, x, hslot, hstored, hmatch⟩
      · obtain ⟨t, y, hslotE, hstoredE, hmatchE⟩ := hs.values e hold
        refine ⟨t, y, hslotE, hothers t y (fun heq => hother ?_) hstoredE, hmatchE⟩
        subst heq
        rw [hs.own e.1 (hknown hold) var (hknown hmem) (hslotE.trans hslot.symm), hname]
  | @field addr ref field o sub i _ _ hlink hi hfield hv =>
    obtain ⟨cell, cell', hcell, hcell', hcells⟩ := h.cell hlink
    cases hcells with
    | @object _ fields _ hheader hfields =>
      -- A field: the cell that stands for the object changes as the object does.
      have hnew := (CellMatches.object hheader hfields).setField hnodup hi hfield hmatch
      have hlead := h.storesCell (n := pt.temps) grant hstore hlink hv hx hcell' hnew
      rw [writeLoc, Semantics.Run.bind_of_ok (Semantics.Run.cell_of_eq hcell)]
      exact ⟨W, _, hlead.weaken (Nat.zero_le _), hlead.scoped hs.older hs, rfl⟩
  | @elem addr elem length o i _ _ hlink hi hv =>
    obtain ⟨cell, cell', hcell, hcell', hcells⟩ := h.cell hlink
    cases hcells with
    | array hcount hlength hsmall helems =>
      have hnew := (CellMatches.array hcount hlength hsmall helems).setElem (i := i) hmatch
      have hlead := h.storesCell (n := pt.temps) grant hstore hlink hv hx hcell' hnew
      rw [writeLoc, Semantics.Run.bind_of_ok (Semantics.Run.cell_of_eq hcell)]
      exact ⟨W, _, hlead.weaken (Nat.zero_le _), hlead.scoped hs.older hs, rfl⟩

end Holds

end Call

end ClassLang.Lowering
