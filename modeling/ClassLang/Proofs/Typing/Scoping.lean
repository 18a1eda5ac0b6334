import ClassLang.Proofs.Source.Regions
import ClassLang.Proofs.Typing.Statements
/-!
# Typing — names in scope and regions

The rules pass the names in scope from statement to statement; `scopedParts`
lists the expressions and places of a statement with the names that are in
scope there. These are the declarations that can be seen there, by the regions
they stand in (`scoped_of_sights`): what was declared before in a region around.
-/


namespace ClassLang.Typing

open Source (Part Sight Occurrence Stmt VarDecl FunctionDecl partsAt stmtSights)

mutual

/-- The expressions and places in a statement, with the names in scope there. -/
def scopedParts (names : Names) : Stmt → List (Names × Part)
  | .block _ (.mk stmts _) => scopedPartsIn names stmts
  | .decl _ _ => []
  | .assign _ target value => (target.parts ++ value.parts).map (names, ·)
  | .expr _ value | .ret _ value => value.parts.map (names, ·)
  | .ifThen _ cond body | .loop _ cond body => cond.parts.map (names, ·) ++ scopedParts names body
  | .ifElse _ cond yes no =>
    cond.parts.map (names, ·) ++ (scopedParts names yes ++ scopedParts names no)

/-- The expressions and places in statements, with the names in scope there. -/
def scopedPartsIn (names : Names) : List Stmt → List (Names × Part)
  | [] => []
  | s :: rest => scopedParts names s ++ scopedPartsIn (names.behind s) rest

end

/-- The variables in scope are those declared before in a region around. -/
def Tracks (before : List Occurrence) (region : List Nat) (names : Names) : Prop :=
  ∀ var, var ∈ names.vars ↔ ∃ around, around <+: region ∧ ⟨around, .decl var⟩ ∈ before

/-- Nothing stands in the region yet. -/
def Unentered (before : List Occurrence) (region : List Nat) : Prop :=
  ∀ o ∈ before, ¬ region <+: o.region

section Tracks

variable {before more : List Occurrence} {region inner : List Nat} {names : Names} {k : Nat}

theorem not_concat_prefix (region : List Nat) (k : Nat) : ¬ region ++ [k] <+: region := fun h => by
  have := h.length_le
  rw [List.length_append, List.length_singleton] at this
  omega

theorem Unentered.inside (h : Unentered before region) (hle : region <+: inner) :
    Unentered before inner := fun o ho hin => h o ho (hle.trans hin)

theorem Unentered.append (h : Unentered before region) (h' : Unentered more region) :
    Unentered (before ++ more) region := fun o ho =>
  (List.mem_append.1 ho).elim (h o) (h' o)

/-- What stands in a region stands in none of its inner ones. -/
theorem unentered_partsAt (region : List Nat) (k : Nat) (parts : List Part) :
    Unentered (partsAt region parts) (region ++ [k]) := fun _ ho hin =>
  not_concat_prefix region k ((Source.region_partsAt ho).1 ▸ hin)

/-- **Entering a region** brings nothing into scope. -/
theorem Tracks.enter (h : Tracks before region names) (hfree : Unentered before (region ++ [k]))
    (hinner : region ++ [k] <+: inner) : Tracks before inner names := by
  intro var
  rw [h var]
  constructor
  · rintro ⟨around, hle, hmem⟩
    exact ⟨around, hle.trans ((List.prefix_append _ _).trans hinner), hmem⟩
  · rintro ⟨around, hle, hmem⟩
    refine ⟨around, ?_, hmem⟩
    rcases List.prefix_or_prefix_of_prefix hle hinner with hout | hin
    · rcases List.prefix_concat_iff.1 hout with heq | hout
      · exact absurd (heq ▸ List.prefix_rfl) (hfree _ hmem)
      · exact hout
    · exact absurd hin (hfree _ hmem)

/-- What stands in other regions declares nothing that is in scope. -/
theorem Tracks.append (h : Tracks before region names)
    (hmore : ∀ o ∈ more, (∃ part, o.sight = .part part) ∨ ¬ o.region <+: region) :
    Tracks (before ++ more) region names := by
  intro var
  rw [h var]
  refine exists_congr fun around => and_congr_right fun hle => ?_
  rw [List.mem_append]
  refine ⟨.inl, fun hmem => hmem.resolve_right fun hmem => ?_⟩
  rcases hmore _ hmem with ⟨part, hpart⟩ | hnot
  · cases hpart
  · exact hnot hle

theorem Tracks.parts (h : Tracks before region names) {other : List Nat} {parts : List Part} :
    Tracks (before ++ partsAt other parts) region names :=
  h.append fun _ ho => .inl (Source.region_partsAt ho).2

/-- **Behind a statement** the variable that it declares is in scope, and
nothing that is declared inside of it. -/
theorem Tracks.behind (h : Tracks before region names) (k : Nat) (s : Stmt) :
    Tracks (before ++ s.sights region k) region (names.behind s) := by
  by_cases hdecl : ∃ pos var, s = .decl pos var
  · obtain ⟨pos, var, rfl⟩ := hdecl
    intro other
    simp only [Names.behind, Names.declare, Stmt.sights, List.mem_cons, List.mem_append,
      List.not_mem_nil, or_false, h other, Occurrence.mk.injEq, Sight.decl.injEq]
    constructor
    · rintro (rfl | ⟨around, hle, hmem⟩)
      · exact ⟨region, List.prefix_rfl, .inr ⟨rfl, rfl⟩⟩
      · exact ⟨around, hle, .inl hmem⟩
    · rintro ⟨around, hle, hmem | ⟨-, rfl⟩⟩
      · exact .inr ⟨around, hle, hmem⟩
      · exact .inl rfl
  · have hbehind : names.behind s = names := by
      cases s with
      | decl pos var => exact absurd ⟨pos, var, rfl⟩ hdecl
      | _ => rfl
    rw [hbehind]
    refine h.append fun o ho => ?_
    rcases s.region_sights region k o ho with ⟨-, hpart | ⟨pos, var, hs, -⟩⟩ | hin
    · exact .inl hpart
    · exact absurd ⟨pos, var, hs⟩ hdecl
    · exact .inr fun hle => not_concat_prefix region k (hin.trans hle)

/-- The regions inside later statements are not entered by a statement. -/
theorem unentered_sights (region : List Nat) (k : Nat) (s : Stmt) {j : Nat} (hj : k < j) :
    Unentered (s.sights region k) (region ++ [j]) := by
  intro o ho hin
  rcases s.region_sights region k o ho with ⟨heq, -⟩ | hle
  · exact not_concat_prefix region j (heq ▸ hin)
  · have heq := (List.prefix_of_prefix_length_le hle hin (by simp)).eq_of_length (by simp)
    simp at heq
    omega

end Tracks

/-! ## What is in scope where a part stands -/

/-- An element of an append stands in the first list or in the second. -/
theorem split_append {α : Type} {xs ys before after : List α} {x : α}
    (h : xs ++ ys = before ++ x :: after) :
    (∃ rest, xs = before ++ x :: rest) ∨ ∃ mid, before = xs ++ mid ∧ ys = mid ++ x :: after := by
  rcases List.append_eq_append_iff.1 h with ⟨mid, hbefore, hys⟩ | ⟨rest, hxs, hrest⟩
  · exact .inr ⟨mid, hbefore, hys⟩
  · rcases List.cons_eq_append_iff.1 hrest with ⟨rfl, hys⟩ | ⟨rest', rfl, -⟩
    · exact .inr ⟨[], by simpa using hxs.symm, hys⟩
    · exact .inl ⟨rest', hxs⟩

section Scoped

variable {before₀ : List Occurrence} {region r : List Nat} {names : Names} {part : Part}

/-- A part that stands in a region directly. -/
theorem scoped_partsAt {parts : List Part} {before after : List Occurrence}
    (h : Tracks before₀ region names)
    (heq : partsAt region parts = before ++ ⟨r, .part part⟩ :: after) :
    ∃ ns, (ns, part) ∈ parts.map (names, ·) ∧ Tracks (before₀ ++ before) r ns := by
  have hmem : ⟨r, .part part⟩ ∈ partsAt region parts := by simp [heq]
  obtain ⟨found, hfound, hsame⟩ := List.mem_map.1 hmem
  obtain ⟨rfl, hsight⟩ := Occurrence.mk.inj hsame
  obtain rfl := Sight.part.inj hsight
  refine ⟨names, List.mem_map_of_mem hfound, h.append fun o ho => .inl ?_⟩
  exact (Source.region_partsAt (heq ▸ List.mem_append_left _ ho)).2

mutual

/-- **What is in scope where a part of a statement stands** are the
declarations before it in the regions around it. -/
theorem scoped_of_sights {before₀ : List Occurrence} {region : List Nat} {names : Names} (k : Nat) :
    (s : Stmt) → Tracks before₀ region names →
    (∀ j, k ≤ j → Unentered before₀ (region ++ [j])) → ∀ {before after},
    s.sights region k = before ++ ⟨r, .part part⟩ :: after →
    ∃ ns, (ns, part) ∈ scopedParts names s ∧ Tracks (before₀ ++ before) r ns
  | .block _ (.mk stmts _), h, hfree, _, _, heq => by
    have hfree := hfree k (Nat.le_refl k)
    exact scopedIn_of_sights 0 stmts (h.enter hfree List.prefix_rfl)
      (fun j _ => hfree.inside (List.prefix_append _ _)) heq
  | .decl _ var, _, _, before, after, heq => by
    have hmem : ⟨r, .part part⟩ ∈ [(⟨region, .decl var⟩ : Occurrence)] := by
      rw [show [(⟨region, .decl var⟩ : Occurrence)] = _ from heq]
      simp
    cases List.mem_singleton.1 hmem
  | .assign _ target value, h, _, _, _, heq => scoped_partsAt h heq
  | .expr _ value, h, _, _, _, heq | .ret _ value, h, _, _, _, heq => scoped_partsAt h heq
  | .ifThen _ cond body, h, hfree, before, after, heq
  | .loop _ cond body, h, hfree, before, after, heq => by
    have hfree := hfree k (Nat.le_refl k)
    -- The part stands in the condition, or in the body behind all parts of the condition.
    rcases split_append heq with ⟨rest, hcond⟩ | ⟨mid, rfl, hbody⟩
    · obtain ⟨ns, hmem, htracks⟩ := scoped_partsAt h hcond
      exact ⟨ns, List.mem_append_left _ hmem, htracks⟩
    · have hinner := hfree.append (unentered_partsAt region k cond.parts)
      obtain ⟨ns, hmem, htracks⟩ := scoped_of_sights 0 body
        (h.parts.enter hinner List.prefix_rfl)
        (fun j _ => hinner.inside (List.prefix_append _ _)) hbody
      rw [List.append_assoc] at htracks
      exact ⟨ns, List.mem_append_right _ hmem, htracks⟩
  | .ifElse _ cond yes no, h, hfree, before, after, heq => by
    have hfree := hfree k (Nat.le_refl k)
    have hinner := hfree.append (unentered_partsAt region k cond.parts)
    have hbranch (i : Nat) : region ++ [k] <+: region ++ [k, i] := ⟨[i], by simp⟩
    rcases split_append heq with ⟨rest, hcond⟩ | ⟨mid, rfl, hbranches⟩
    · obtain ⟨ns, hmem, htracks⟩ := scoped_partsAt h hcond
      exact ⟨ns, List.mem_append_left _ hmem, htracks⟩
    rcases split_append hbranches with ⟨rest, hyes⟩ | ⟨mid', rfl, hno⟩
    · obtain ⟨ns, hmem, htracks⟩ := scoped_of_sights 0 yes (h.parts.enter hinner (hbranch 0))
        (fun j _ => hinner.inside ((hbranch 0).trans (List.prefix_append _ _))) hyes
      rw [List.append_assoc] at htracks
      exact ⟨ns, List.mem_append_right _ (List.mem_append_left _ hmem), htracks⟩
    · -- What stands in the first branch stands in no region around the second.
      have hapart : ∀ o ∈ yes.sights (region ++ [k, 0]) 0, ¬ region ++ [k, 1] <+: o.region ∧
          ¬ o.region <+: region ++ [k, 1] := by
        intro o ho
        have hin : region ++ [k, 0] <+: o.region := by
          rcases yes.region_sights _ 0 o ho with ⟨heq, -⟩ | hle
          · exact heq ▸ List.prefix_rfl
          · exact (List.prefix_append _ _).trans hle
        have hne : ¬ region ++ [k, 0] <+: region ++ [k, 1] := by
          rw [List.prefix_append_right_inj]
          simp
        exact ⟨fun hle => hne ((List.prefix_of_prefix_length_le hin hle (by simp))),
          fun hle => hne (hin.trans hle)⟩
      have hsecond : Unentered ((before₀ ++ partsAt region cond.parts) ++
          yes.sights (region ++ [k, 0]) 0) (region ++ [k, 1]) :=
        (hinner.inside (hbranch 1)).append fun o ho => (hapart o ho).1
      obtain ⟨ns, hmem, htracks⟩ := scoped_of_sights 0 no
        ((h.parts.enter hinner (hbranch 1)).append fun o ho => .inr (hapart o ho).2)
        (fun j _ => hsecond.inside (List.prefix_append _ _)) hno
      rw [List.append_assoc, List.append_assoc] at htracks
      exact ⟨ns, List.mem_append_right _ (List.mem_append_right _ hmem), htracks⟩

theorem scopedIn_of_sights {before₀ : List Occurrence} {region : List Nat} {names : Names}
    (k : Nat) : (stmts : List Stmt) → Tracks before₀ region names →
    (∀ j, k ≤ j → Unentered before₀ (region ++ [j])) → ∀ {before after},
    stmtSights region k stmts = before ++ ⟨r, .part part⟩ :: after →
    ∃ ns, (ns, part) ∈ scopedPartsIn names stmts ∧ Tracks (before₀ ++ before) r ns
  | [], _, _, before, after, heq => by simp [stmtSights] at heq
  | s :: rest, h, hfree, before, after, heq => by
    rcases split_append heq with ⟨rest', hs⟩ | ⟨mid, rfl, hrest⟩
    · obtain ⟨ns, hmem, htracks⟩ := scoped_of_sights k s h hfree hs
      exact ⟨ns, List.mem_append_left _ hmem, htracks⟩
    · obtain ⟨ns, hmem, htracks⟩ := scopedIn_of_sights (k + 1) rest (h.behind k s)
        (fun j hj => (hfree j (by omega)).append (unentered_sights region k s hj)) hrest
      rw [List.append_assoc] at htracks
      exact ⟨ns, List.mem_append_right _ hmem, htracks⟩

end

end Scoped

/-- **What is in scope where a part of a function stands** are the
declarations that can be seen there. -/
theorem scoped_of_functionSights {g : FunctionDecl} (this? : Option String) {r : List Nat}
    {part : Part} {before after : List Occurrence}
    (heq : g.sights = before ++ ⟨r, .part part⟩ :: after) :
    ∃ ns, (ns, part) ∈ scopedPartsIn ⟨this?, g.params.reverse⟩ g.body.stmts ∧
      Tracks before r ns := by
  have hparams : Tracks (g.params.map fun param => ⟨[], .decl param⟩) [] ⟨this?, g.params.reverse⟩ := by
    intro var
    simp
  rcases split_append heq with ⟨rest, hin⟩ | ⟨mid, rfl, hbody⟩
  · have hmem : (⟨r, .part part⟩ : Occurrence) ∈
        g.params.map fun param => (⟨[], .decl param⟩ : Occurrence) := by simp [hin]
    simp at hmem
  · refine scopedIn_of_sights 0 _ hparams (fun j _ o ho hin => ?_) hbody
    obtain ⟨param, -, rfl⟩ := List.mem_map.1 ho
    simp at hin

end ClassLang.Typing
