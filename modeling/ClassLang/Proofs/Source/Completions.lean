import ClassLang.Proofs.Source.LocalReading
import ClassLang.Proofs.Source.Printed
/-!
# Source — what an error leaves open

A routine that fails has taken tokens that are the beginning of a phrase: others
make them a whole one (`StopsAt`). So no token was taken that should have been an
error. Where a name is missing behind a type and a bracket stands there instead, the
beginning may go on with a bracket pair, too.
-/


namespace ClassLang.Source

open Token (Kind)

/-! ## Completable tokens -/

/-- Tokens that are the beginning of one of these lists, with tokens behind them that
can be spelled. -/
def Completable (C : List Kind → Prop) (w : List Kind) : Prop := ∃ v, Spellable v ∧ C (w ++ v)

variable {C C₁ : List Kind → Prop} {w : List Kind}

theorem Completable.here (h : C w) : Completable C w :=
  ⟨[], spellable_nil, by rwa [List.append_nil]⟩

theorem Completable.trans {q : List Kind} (h : Completable C₁ w)
    (hC : ∀ w, C₁ w → Completable C (q ++ w)) : Completable C (q ++ w) := by
  obtain ⟨v, hv, hw⟩ := h
  obtain ⟨v', hv', hw'⟩ := hC _ hw
  exact ⟨v ++ v', spellable_append.2 ⟨hv, hv'⟩, by simpa using hw'⟩

/-- An error that something was expected names the token that stands there. -/
theorem Cursor.kind_of_expected (c : Cursor) {what what' : Expected} {k : Kind}
    (h : (c.expected what).cause = .expected what' k) : k = c.kind := by
  obtain ⟨_ | ⟨⟨⟨kind, span⟩, pos⟩, l⟩, next⟩ := c
  · cases h
    rfl
  · cases kind with
    | invalid fault => cases h
    | _ =>
      cases h
      rfl

theorem isName_x : IsName "x" := isName_of_all rfl (by decide) rfl (by decide)

/-! ## Routines that fail -/

/-- A bracket pair. -/
def pair : List Kind := [.symbol .lbracket, .symbol .rbracket]

/-- An error that stops reading behind tokens, in front of others: they are the
beginning of one of these lists, and so they are with a bracket pair if the error
stands where there might be one. -/
structure StopsBehind (e : ParseError) (w : List Kind) (x : List Located) (C : List Kind → Prop) :
    Prop where
  fails : ∃ m cause, e = Cursor.fail ⟨x, m⟩ cause
  begun : Completable C w
  paired : e.Midway w → Completable C (w ++ pair)
  /-- A name is missing where there is something else, and not at the start. -/
  unnamed : ∀ k, e.cause = .expected .identifier k → w ≠ [] ∧ k = Cursor.kind ⟨x, 0⟩

/-- Where an error stops reading, in tokens behind others that were taken. -/
def StopsAt (e : ParseError) (q : List Kind) (ts : List Located) (C : List Kind → Prop) : Prop :=
  ∃ u x, ts = u ++ x ∧ StopsBehind e (q ++ u.map (·.kind)) x C

/-- If a routine fails, it stops in tokens that are the beginning of a phrase. -/
def Stops {α : Type} (q : List Kind) (ts : List Located) (C : List Kind → Prop) (o : Outcome α) :
    Prop := ∀ e, o = .error e → StopsAt e q ts C

/-- Some tokens were taken. -/
theorem StopsAt.behind {e : ParseError} {q : List Kind} {u ts : List Located}
    (h : StopsAt e (q ++ u.map (·.kind)) ts C) : StopsAt e q (u ++ ts) C := by
  obtain ⟨v, x, rfl, h⟩ := h
  refine ⟨u ++ v, x, (List.append_assoc _ _ _).symm, ?_⟩
  rwa [List.map_append, ← List.append_assoc]

/-- What completes a part of a phrase is followed by what completes the phrase. -/
theorem StopsAt.lift {e : ParseError} {q : List Kind} {ts : List Located} (h : StopsAt e [] ts C₁)
    (hC : ∀ w, C₁ w → Completable C (q ++ w)) : StopsAt e q ts C := by
  obtain ⟨u, x, hts, h⟩ := h
  rw [List.nil_append] at h
  refine ⟨u, x, hts, h.fails, h.begun.trans hC, fun hm => ?_, fun k hk => ?_⟩
  · have hne := (h.unnamed _ hm.cause).1
    rw [List.append_assoc]
    exact (h.paired ⟨hm.cause, hm.behind.of_append hne⟩).trans hC
  · exact ⟨List.append_ne_nil_of_right_ne_nil _ (h.unnamed k hk).1, (h.unnamed k hk).2⟩

namespace Stops

variable {α β : Type} {q : List Kind} {ts : List Located} {c : Cursor} {r : α × Cursor}

theorem ok : Stops q ts C (.ok r) := fun _ h => nomatch h

theorem lift {o : Outcome α} (h : Stops [] ts C₁ o) (hC : ∀ w, C₁ w → Completable C (q ++ w)) :
    Stops q ts C o := fun e he => (h e he).lift hC

theorem mono {C' : List Kind → Prop} {o : Outcome α} (h : Stops q ts C o) (hC : ∀ w, C w → C' w) :
    Stops q ts C' o := by
  intro e he
  obtain ⟨u, x, hts, h⟩ := h e he
  have hmono {w : List Kind} : Completable C w → Completable C' w :=
    fun ⟨v, hv, hw⟩ => ⟨v, hv, hC _ hw⟩
  exact ⟨u, x, hts, h.fails, hmono h.begun, fun hm => hmono (h.paired hm), h.unnamed⟩

/-- What is made of a value when all is read. -/
theorem map {o : Outcome α} {g : α → Cursor → β × Cursor} (h : Stops q ts C o) :
    Stops q ts C (Outcome.andThen o fun a c₁ => .ok (g a c₁)) := by
  cases o with
  | error e =>
    rintro e' ⟨⟩
    exact h e rfl
  | ok s => exact .ok

/-- A routine that fails at the first token. -/
theorem fail {cause : ParseCause} (hcause : ∀ k, cause ≠ .expected .identifier k)
    (h : Completable C q) : Stops q c.tokens C (.error (c.fail cause) : Outcome α) := by
  rintro e ⟨⟩
  have hne (k : Kind) : (c.fail cause).cause ≠ .expected .identifier k := by
    unfold Cursor.fail
    split
    · nofun
    · exact hcause k
    · exact hcause k
  refine ⟨[], c.tokens, rfl, ⟨c.next, cause, rfl⟩, ?_, fun hm => absurd hm.cause (hne _),
    fun k hk => absurd hk (hne k)⟩
  simpa using h

/-- **Reading in turn**: an error of the first routine leaves its phrase open, and one
of the next leaves open what follows the phrase of the first. -/
theorem andThen {k₁ : Look} {f : Cursor → Outcome α} {g : α → Cursor → Outcome β}
    {R : α → Cursor → List Kind → Prop} (hlocal : LocalAt k₁ f c) (hf : Stops [] c.tokens C₁ (f c))
    (hC : ∀ w, C₁ w → Completable C (q ++ w))
    (htook : ∀ a c₁, f c = .ok (a, c₁) → ∃ w, c.Took w c₁ ∧ R a c₁ w)
    (hg : ∀ a c₁ w, f c = .ok (a, c₁) → R a c₁ w → Stops (q ++ w) c₁.tokens C (g a c₁)) :
    Stops q c.tokens C (Outcome.andThen (f c) g) := by
  cases hfc : f c with
  | error e =>
    rintro e' ⟨⟩
    exact (hf e hfc).lift hC
  | ok s =>
    obtain ⟨a, c₁⟩ := s
    obtain ⟨u, hu, -⟩ := hlocal.ok a c₁ hfc
    obtain ⟨w, hw, hR⟩ := htook a c₁ hfc
    obtain rfl := kinds_of_took hw hu
    intro e he
    rw [hu]
    exact (hg a c₁ _ hfc hR e he).behind

/-- A routine that takes a token. -/
theorem take {k : Kind} {f : Cursor → Outcome α} {g : Located → Cursor → Outcome α}
    (hk : c.kind = k) (heof : k ≠ .eof) (h : ∀ t l n, t.kind = k → f ⟨t :: l, n⟩ = g t ⟨l, n⟩)
    (hg : ∀ t l, Cursor.left ⟨l, c.next⟩ < c.left → Stops (q ++ [k]) l C (g t ⟨l, c.next⟩)) :
    Stops q c.tokens C (f c) := by
  obtain ⟨_ | ⟨t, l⟩, next⟩ := c
  · exact absurd hk.symm heof
  · intro e he
    rw [h t l next hk] at he
    have hstops := hg t l (Nat.lt_succ_self _) e he
    rw [← hk] at hstops
    exact StopsAt.behind (u := [t]) hstops

/-- An optional token. -/
theorem opt {k : Kind} {yes : Pos → Cursor → Outcome α} {no : Cursor → Outcome α} (heof : k ≠ .eof)
    (hyes : ∀ pos l, Cursor.left ⟨l, c.next⟩ < c.left →
      Stops (q ++ [k]) l C (yes pos ⟨l, c.next⟩))
    (hno : c.kind ≠ k → Stops q c.tokens C (no c)) : Stops q c.tokens C (c.opt k yes no) := by
  by_cases hc : c.kind = k
  · exact take (f := Cursor.opt k yes no) (g := fun t => yes t.pos) hc heof
      (fun t l n ht => opt_cons ht) fun t l hlt => hyes t.pos l hlt
  · rw [opt_of_ne hc]
    exact hno hc

/-- A symbol that has to follow. -/
theorem expect {s : Symbol} {g : Pos → Cursor → Outcome α} (hC : Completable C (q ++ [.symbol s]))
    (hg : ∀ pos l, Cursor.left ⟨l, c.next⟩ < c.left →
      Stops (q ++ [.symbol s]) l C (g pos ⟨l, c.next⟩)) :
    Stops q c.tokens C (Outcome.andThen (c.expect (.symbol s)).outcome g) := by
  by_cases hc : c.kind = .symbol s
  · refine take (f := fun c => Outcome.andThen (c.expect (.symbol s)).outcome g)
      (g := fun t => g t.pos) hc nofun (fun t l n ht => ?_) fun t l hlt => hg t.pos l hlt
    rw [outcome_expect_cons ht]
    rfl
  · rw [outcome_expect_of_ne hc]
    obtain ⟨v, hv, hw⟩ := hC
    exact fail nofun ⟨.symbol s :: v, spellable_cons.2 ⟨trivial, hv⟩, by simpa using hw⟩

/-- A name that has to follow, where no type ends. -/
theorem ident {g : String × Pos → Cursor → Outcome α} (hne : q ≠ []) (hq : ¬ BehindType q)
    (hC : ∀ name, Completable C (q ++ [.ident name]))
    (hg : ∀ name pos l, Cursor.left ⟨l, c.next⟩ < c.left →
      Stops (q ++ [.ident name]) l C (g (name, pos) ⟨l, c.next⟩)) :
    Stops q c.tokens C (Outcome.andThen c.ident.outcome g) := by
  by_cases hc : ∃ name, c.kind = .ident name
  · obtain ⟨name, hc⟩ := hc
    refine take (f := fun c => Outcome.andThen c.ident.outcome g)
      (g := fun t => g (name, t.pos)) hc (by simp) (fun t l n ht => ?_) fun t l hlt => hg name t.pos l hlt
    rw [outcome_ident_cons ht]
    rfl
  · rw [outcome_ident_of_ne fun name h => hc ⟨name, h⟩]
    rintro e ⟨⟩
    obtain ⟨v, hv, hw⟩ := hC "x"
    refine ⟨[], c.tokens, rfl, ⟨c.next, _, rfl⟩, ?_, fun hm => ?_, fun k hk => ?_⟩
    · exact ⟨.ident "x" :: v, spellable_cons.2 ⟨isName_x, hv⟩, by simpa using hw⟩
    · exact absurd (by simpa using hm.behind) hq
    · exact ⟨by simpa using hne, c.kind_of_expected hk⟩

end Stops

/-- What a routine takes is told of its outcome. -/
theorem Reads.Takes.outcome {α : Type} {n : Nat} {r : Reads α n} {c : Cursor}
    {R : List Kind → α → Prop} (h : r.Takes c R) (a : α) (c₁ : Cursor) (hr : r.outcome = .ok (a, c₁)) :
    ∃ w, c.Took w c₁ ∧ R w a :=
  all_of_outcome (P := fun a c₁ => ∃ w, c.Took w c₁ ∧ R w a) h hr

/-! ## Types and variables -/

section

variable {q : List Kind} {c : Cursor}

theorem stops_parseBaseType (c : Cursor) : Stops [] c.tokens
    (fun w => ∃ ty : TypeExpr, w = [ty.base] ∧ ty.pairs = []) (parseBaseType c).outcome := by
  cases hc : TypeExpr.ofKind? c.kind with
  | some ty =>
    obtain ⟨_ | ⟨t, l⟩, next⟩ := c
    · cases hc
    · rw [outcome_parseBaseType_cons hc]
      exact .ok
  | none =>
    rw [outcome_parseBaseType_of_none hc]
    exact .fail nofun ⟨[.keyword .int], by simp, .int, rfl, rfl⟩

theorem took_outcome_parseBaseType (c : Cursor) (ty : TypeExpr) (c₁ : Cursor)
    (h : (parseBaseType c).outcome = .ok (ty, c₁)) :
    ∃ w, c.Took w c₁ ∧ w = [ty.base] ∧ ty.pairs = [] := by
  obtain ⟨htook, hpairs⟩ := all_of_outcome (P := fun ty c' => c.Took [ty.base] c' ∧ ty.pairs = [])
    (took_parseBaseType c) h
  exact ⟨_, htook, rfl, hpairs⟩

theorem stops_parseType (c : Cursor) : Stops [] c.tokens
    (fun w => ∃ ty : TypeExpr, w = ty.kinds) (parseType c).outcome := by
  rw [outcome_parseType]
  refine ((stops_parseBaseType c).mono ?_).map
  rintro w ⟨ty, rfl, hty⟩
  exact ⟨ty, by rw [TypeExpr.kinds, hty]⟩

/-- A bracket pair behind a type makes another one. -/
theorem TypeExpr.kinds_append_pair (ty : TypeExpr) : ty.kinds ++ pair = (TypeExpr.array ty).kinds := by
  obtain ⟨n, elem, hpairs, rfl⟩ := ty.exists_arrays
  have hbrackets (n : Nat) : brackets n ++ pair = brackets (n + 1) := by
    induction n with
    | zero => rfl
    | succ n ih =>
      rw [brackets, List.cons_append, List.cons_append, ih]
      rfl
  rw [← arrays, kinds, kinds, base_arrays, base_arrays, pairs_arrays, pairs_arrays, hpairs,
    List.append_nil, List.append_nil, List.cons_append, hbrackets]

theorem stops_parseVarDecl (c : Cursor) : Stops [] c.tokens
    (fun w => ∃ var : VarDecl, w = var.kinds) (parseVarDecl c).outcome := by
  have hvar (ty : TypeExpr) : Completable (fun w => ∃ var : VarDecl, w = var.kinds) ty.kinds :=
    ⟨[.ident "x"], by simp [isName_x], ⟨0, ty, "x", none⟩, rfl⟩
  rw [outcome_parseVarDecl]
  refine .andThen (R := fun ty _ w => w = ty.kinds) (local_parseType c) (stops_parseType c)
    (fun w ⟨ty, hty⟩ => hty ▸ hvar ty) (fun ty c₁ h => ⟨_, all_of_outcome
      (P := fun ty c' => c.Took ty.kinds c') (took_parseType c) h, rfl⟩) fun ty c₁ w _ hw => ?_
  by_cases hc₁ : ∃ name, c₁.kind = .ident name
  · obtain ⟨name, hc₁⟩ := hc₁
    obtain ⟨_ | ⟨t, l⟩, next⟩ := c₁
    · cases hc₁
    · rw [outcome_ident_cons hc₁]
      exact .ok
  · rw [outcome_ident_of_ne (c := ⟨c₁.tokens, c₁.next + 1⟩) fun name h => hc₁ ⟨name, h⟩]
    rintro e ⟨⟩
    refine ⟨[], c₁.tokens, rfl, ⟨c₁.next + 1, _, rfl⟩, ?_, fun _ => ?_, fun k hk => ?_⟩
    · simpa [hw] using hvar ty
    · simpa [hw, TypeExpr.kinds_append_pair] using hvar (.array ty)
    · exact ⟨by simp [hw, TypeExpr.kinds], Cursor.kind_of_expected ⟨c₁.tokens, c₁.next + 1⟩ hk⟩

theorem took_outcome_parseVarDecl (c : Cursor) (var : VarDecl) (c₁ : Cursor)
    (h : (parseVarDecl c).outcome = .ok (var, c₁)) : ∃ w, c.Took w c₁ ∧ w = var.kinds :=
  ⟨_, all_of_outcome (P := fun var c' => c.Took var.kinds c') (took_parseVarDecl c) h, rfl⟩

end

/-! ## Expressions -/

theorem null_phrase (level : Nat) : BinaryPhrase level [.keyword .null] (.null .blank) :=
  .unary (.suffixed (.atom .null))

/-- An expression up to a symbol is completed by an expression that is and the
symbol. -/
theorem stops_closed {c : Cursor} (h : Stops [] c.tokens (fun w => ∃ e, BinaryPhrase 0 w e)
    (parseBinary 0 c).outcome) (s : Symbol) : Stops [] c.tokens
    (fun w => ∃ e u, BinaryPhrase 0 u e ∧ w = u ++ [.symbol s]) (parseClosed (.symbol s) c).outcome := by
  rw [outcome_parseClosed]
  refine .andThen (local_parseBinary 0 c) h (fun w ⟨e, he⟩ => ⟨[.symbol s], by simp, e, w, he, rfl⟩)
    (fun e c₁ he => (took_parseExpr c).outcome e c₁ he) fun e c₁ w _ he => ?_
  exact .expect (.here ⟨e, w, he, rfl⟩) fun _ _ _ => .ok

theorem took_outcome_parseBinary (level : Nat) (c : Cursor) (e : Expr) (c₁ : Cursor)
    (h : (parseBinary level c).outcome = .ok (e, c₁)) : ∃ w, c.Took w c₁ ∧
      BinaryPhrase level w e ∧ BinaryOp.ofKind? level c₁.kind = none :=
  all_of_outcome (P := fun e c' => ∃ w, c.Took w c' ∧ BinaryPhrase level w e ∧
    BinaryOp.ofKind? level c'.kind = none) (took_parseBinary level c) h

/-- A new array, behind the type of its elements without brackets. -/
theorem stops_arrayRest {base : TypeExpr} (hbase : base.pairs = []) {c : Cursor} (pos : Pos)
    (h : ∀ c' : Cursor, c'.left < c.left →
      Stops [] c'.tokens (fun w => ∃ e, BinaryPhrase 0 w e) (parseBinary 0 c').outcome) :
    Stops [.keyword .new, base.base] c.tokens (fun w => ∃ e, AtomPhrase w e)
      (arrayRest base pos c) := by
  have harray {u : List Kind} {size : Expr} (hu : BinaryPhrase 0 u size) :
      AtomPhrase ([.keyword .new, base.base] ++ [.symbol .lbracket] ++ (u ++ [.symbol .rbracket]))
        (.newArray .blank base size) := by
    simpa [hbase] using AtomPhrase.newArray (m := .blank) base hu
  have hnull : AtomPhrase ([.keyword .new, base.base] ++ [.symbol .lbracket] ++
      [.keyword .null, .symbol .rbracket]) (.newArray .blank base (.null .blank)) :=
    harray (null_phrase 0)
  refine .expect ⟨[.keyword .null, .symbol .rbracket], by simp, _, hnull⟩ fun _ l hlt => ?_
  refine ((stops_closed (h ⟨l, c.next⟩ hlt) .rbracket).lift ?_).map
  rintro w ⟨e, u, he, rfl⟩
  exact .here ⟨_, harray he⟩

mutual

theorem stops_parseBinary (level : Nat) (c : Cursor) : Stops [] c.tokens
    (fun w => ∃ e, BinaryPhrase level w e) (parseBinary level c).outcome := by
  rw [outcome_parseBinary]
  refine .andThen (local_parseUnary c) (stops_parseUnary c) (fun w ⟨e, he⟩ => .here ⟨e, .unary he⟩)
    (took_parseUnary c).outcome fun lhs c₁ u hlhs hu => ?_
  have hlt : c₁.left < c.left := lt_of_outcome hlhs
  exact stops_parseOperators level fun _ _ => .unary hu
termination_by (c.left, 2)

/-- The left operand has to bind as tightly as the operator that follows. -/
theorem stops_parseOperators (level : Nat) {lhs : Expr} {c : Cursor} {u : List Kind}
    (hop : ∀ op, BinaryOp.ofKind? level c.kind = some op → BinaryPhrase op.level u lhs) :
    Stops u c.tokens (fun w => ∃ e, BinaryPhrase level w e) (parseOperators level lhs c).outcome := by
  cases hc : BinaryOp.ofKind? level c.kind with
  | none =>
    rw [outcome_parseOperators_of_none hc]
    exact .ok
  | some op =>
    have hleft := hop op hc
    obtain ⟨hkind, hlevel⟩ := kind_of_ofKind? hc
    have hbinary {level' : Nat} {v : List Kind} {m : Mark} {rhs : Expr} (hle : level' ≤ op.level)
        (hv : BinaryPhrase (op.level + 1) v rhs) :
        BinaryPhrase level' (u ++ [.symbol op.symbol] ++ v) (.binary m op lhs rhs) := by
      simpa using BinaryPhrase.binary op hle hleft hv
    refine .take (f := fun c => (parseOperators level lhs c).outcome)
      (g := fun t => operatorRest level lhs op t.pos) hkind nofun
      (fun t l n ht => outcome_parseOperators_cons (by rw [ht, ← hkind, hc])) fun t l hlt => ?_
    refine .andThen (local_parseBinary (op.level + 1) ⟨l, c.next⟩)
      (stops_parseBinary (op.level + 1) ⟨l, c.next⟩)
      (fun w ⟨e, he⟩ => .here ⟨_, hbinary (m := .blank) hlevel he⟩)
      (took_outcome_parseBinary _ _) fun rhs c₁ v hrhs hv => ?_
    obtain ⟨hright, hstop⟩ := hv
    have hlt₁ : c₁.left < Cursor.left ⟨l, c.next⟩ := lt_of_outcome hrhs
    have hlt₂ : Cursor.left ⟨c₁.tokens, c₁.next + 1⟩ < c.left := Nat.lt_trans hlt₁ hlt
    refine stops_parseOperators level fun op' hop' =>
      hbinary (Nat.le_of_not_lt fun hlt' => ?_) hright
    -- An operator that binds more tightly would have been read with the right operand.
    obtain ⟨hkind', -⟩ := kind_of_ofKind? hop'
    have hkind' : c₁.kind = .symbol op'.symbol := hkind'
    rw [hkind', ofKind?_symbol (by omega)] at hstop
    cases hstop
termination_by (c.left, 2)

theorem stops_parseUnary (c : Cursor) : Stops [] c.tokens
    (fun w => ∃ e, UnaryPhrase w e) (parseUnary c).outcome := by
  cases hop : UnaryOp.ofKind? c.kind with
  | some op =>
    have hkind := unary_kind_of_ofKind? hop
    refine .take (f := fun c => (parseUnary c).outcome) (g := fun t => unaryRest op t.pos) hkind nofun
      (fun t l n ht => outcome_parseUnary_cons (by rw [ht, ← hkind, hop])) fun t l hlt => ?_
    by_cases hleast : op = .minus ∧ Cursor.kind ⟨l, c.next⟩ = .integer leastMagnitude
    · rw [unaryRest, if_pos hleast]
      obtain ⟨rfl, hkind'⟩ := hleast
      obtain _ | ⟨t', l⟩ := l
      · cases hkind'
      · rw [outcome_expect_cons hkind']
        exact .ok
    · rw [unaryRest, if_neg hleast]
      exact ((stops_parseBinary UnaryOp.level ⟨l, c.next⟩).lift
        fun w ⟨e, he⟩ => .here ⟨_, .unary (m := .blank) op he.toUnary⟩).map
  | none =>
    rw [outcome_parseUnary_of_none hop]
    refine .andThen (local_parseAtom c) (stops_parseAtom c)
      (fun w ⟨e, he⟩ => .here ⟨e, .suffixed (.atom he)⟩) (took_parseAtom c).outcome
      fun e c₁ u he hu => ?_
    have hlt : c₁.left < c.left := lt_of_outcome he
    exact (stops_parsePostfix (.atom hu)).mono fun w ⟨e, he⟩ => ⟨e, .suffixed he⟩
termination_by (c.left, 1)

theorem stops_parseAtom (c : Cursor) : Stops [] c.tokens
    (fun w => ∃ e, AtomPhrase w e) (parseAtom c).outcome := by
  rcases atom_cases c.kind with ⟨e, he⟩ | ⟨name, hname⟩ | hparens | hnew | ⟨digits, hdigits, hrange⟩ |
    ⟨hnone, hint⟩
  · obtain ⟨_ | ⟨t, l⟩, next⟩ := c
    · cases he
    · rw [outcome_parseAtom_leaf he]
      exact .ok
  · refine .take (f := fun c => (parseAtom c).outcome) (g := fun t => nameRest name t.pos) hname nofun
      (fun t l n ht => outcome_parseAtom_name ht) fun t l hlt => ?_
    unfold nameRest
    split
    · exact ((stops_parseArgs ⟨l, c.next⟩).lift
        fun w ⟨args, hargs⟩ => .here ⟨_, .call (m := .blank) hargs⟩).map
    · exact .ok
  · refine .take (f := fun c => (parseAtom c).outcome)
      (g := fun _ c => (parseClosed (.symbol .rparen) c).outcome) hparens nofun
      (fun t l n ht => outcome_parseAtom_parens ht) fun t l hlt => ?_
    refine (stops_closed (stops_parseBinary 0 ⟨l, c.next⟩) _).lift ?_
    rintro w ⟨e, u, he, rfl⟩
    exact .here ⟨e, .parens he⟩
  · refine .take (f := fun c => (parseAtom c).outcome) (g := fun t => newRest t.pos) hnew nofun
      (fun t l n ht => outcome_parseAtom_new ht) fun t l hlt => ?_
    refine .andThen (local_parseBaseType ⟨l, c.next⟩) (stops_parseBaseType ⟨l, c.next⟩) ?_
      (took_outcome_parseBaseType _) fun base c₁ w hw hbase => ?_
    · rintro w ⟨ty, rfl, hty⟩
      refine ⟨[.symbol .lbracket, .keyword .null, .symbol .rbracket], by simp,
        .newArray .blank ty (.null .blank), ?_⟩
      simpa [hty] using AtomPhrase.newArray (m := .blank) ty (null_phrase 0)
    obtain ⟨rfl, hpairs⟩ := hbase
    have hlt₁ : c₁.left < Cursor.left ⟨l, c.next⟩ := lt_of_outcome hw
    -- Behind `new` and a class name, parentheses make an object; all else is to be an array.
    have harray : Stops [.keyword .new, base.base] c₁.tokens (fun w => ∃ e, AtomPhrase w e)
        (arrayRest base t.pos c₁) := by
      refine stops_arrayRest hpairs t.pos fun c' hlt' => ?_
      have hlt₂ : c'.left < c.left := Nat.lt_trans hlt' (Nat.lt_trans hlt₁ hlt)
      exact stops_parseBinary 0 c'
    cases base with
    | class_ name =>
      unfold newBody
      refine .opt nofun (fun _ l _ => ?_) fun _ => harray
      exact .expect (.here ⟨_, .newObject (m := .blank)⟩) fun _ _ _ => .ok
    | _ => exact harray
  · rw [outcome_parseAtom_range hdigits hrange]
    exact .fail nofun ⟨[.keyword .null], by simp, _, .null (m := .blank)⟩
  · rw [outcome_parseAtom_of_none hnone hint]
    exact .fail nofun ⟨[.keyword .null], by simp, _, .null (m := .blank)⟩
termination_by (c.left, 0)

theorem stops_parsePostfix {lhs : Expr} {c : Cursor} {u : List Kind} (hlhs : PostfixPhrase u lhs) :
    Stops u c.tokens (fun w => ∃ e, PostfixPhrase w e) (parsePostfix lhs c).outcome := by
  by_cases hdot : c.kind = .symbol .dot
  · have hfield {name : String} {m m' : Mark} (hname : name ≠ "length") : PostfixPhrase
        (u ++ [.symbol .dot] ++ [.ident name]) (.read m (.field m' lhs name)) := by
      rw [List.append_assoc]
      exact .field hlhs hname
    have hlength {m : Mark} : PostfixPhrase (u ++ [.symbol .dot] ++ [.ident "length"])
        (.arrayLength m lhs) := by
      rw [List.append_assoc]
      exact .length hlhs
    refine .take (f := fun c => (parsePostfix lhs c).outcome) (g := fun _ => dotRest lhs) hdot nofun
      (fun t l n ht => outcome_parsePostfix_dot ht) fun t l hlt => ?_
    -- Behind a dot any name will do: it is read as a field, or as the length.
    refine .ident (by simp) ?_ (fun name => ?_) fun name pos l' hlt' => ?_
    · rintro ⟨k, hk, hends⟩
      rw [List.getLast?_concat] at hk
      cases hk
      cases hends
    · by_cases hname : name = "length"
      · exact .here ⟨_, hname ▸ hlength (m := .blank)⟩
      · exact .here ⟨.read .blank (.field .blank lhs name), hfield hname⟩
    have hlt₁ : Cursor.left ⟨l', c.next⟩ < c.left := Nat.lt_trans hlt' hlt
    have hcall {w : List Kind} {args : List Expr} {m : Mark} (hargs : ArgsPhrase w args) :
        PostfixPhrase (u ++ [.symbol .dot] ++ [.ident name] ++ w) (.methodCall m lhs name args) := by
      simpa using PostfixPhrase.call (m := m) hlhs hargs
    unfold memberRest
    split
    · refine .andThen (local_parseArgs ⟨l', c.next⟩) (stops_parseArgs ⟨l', c.next⟩)
        (fun w ⟨args, hargs⟩ => .here ⟨_, hcall (m := .blank) hargs⟩) (took_parseArgs _).outcome
        fun args c₁ w hargs hw => ?_
      have hlt₂ : c₁.left < Cursor.left ⟨l', c.next⟩ := lt_of_outcome hargs
      have hlt₃ : Cursor.left ⟨c₁.tokens, c₁.next + 1⟩ < c.left := Nat.lt_trans hlt₂ hlt₁
      exact stops_parsePostfix (c := ⟨c₁.tokens, c₁.next + 1⟩) (hcall hw)
    · split
      next hname =>
        have hlt₂ : Cursor.left ⟨l', c.next + 1⟩ < c.left := hlt₁
        have hname : name = "length" := hname
        exact stops_parsePostfix (c := ⟨l', c.next + 1⟩) (by rw [hname]; exact hlength)
      next hname =>
        have hlt₂ : Cursor.left ⟨l', c.next + 2⟩ < c.left := hlt₁
        exact stops_parsePostfix (c := ⟨l', c.next + 2⟩) (hfield hname)
  by_cases hbracket : c.kind = .symbol .lbracket
  · have hindex {w v : List Kind} {i : Expr} {m m' : Mark} (hi : BinaryPhrase 0 v i)
        (hw : w = v ++ [.symbol .rbracket]) : PostfixPhrase (u ++ [.symbol .lbracket] ++ w)
          (.read m (.index m' lhs i)) := by
      rw [hw, List.append_assoc]
      exact .index hlhs hi
    refine .take (f := fun c => (parsePostfix lhs c).outcome) (g := fun t => indexRest lhs t.pos)
      hbracket nofun (fun t l n ht => outcome_parsePostfix_index ht) fun t l hlt => ?_
    refine .andThen (local_parseClosed .rbracket ⟨l, c.next⟩)
      (stops_closed (stops_parseBinary 0 ⟨l, c.next⟩) .rbracket)
      (fun w ⟨e, v, he, hw⟩ => .here ⟨.read .blank (.index .blank lhs e), hindex he hw⟩)
      (took_parseClosed (.symbol .rbracket) _).outcome fun index c₁ w hclosed ⟨v, hv, hw⟩ => ?_
    have hlt₁ : c₁.left < Cursor.left ⟨l, c.next⟩ := lt_of_outcome hclosed
    have hlt₂ : Cursor.left ⟨c₁.tokens, c₁.next + 2⟩ < c.left := Nat.lt_trans hlt₁ hlt
    exact stops_parsePostfix (c := ⟨c₁.tokens, c₁.next + 2⟩) (hindex hv hw)
  · rw [outcome_parsePostfix_of_ne hdot hbracket]
    exact .ok
termination_by (c.left, 2)

theorem stops_parseArgs (c : Cursor) : Stops [] c.tokens
    (fun w => ∃ args, ArgsPhrase w args) (parseArgs c).outcome := by
  rw [outcome_parseArgs]
  refine .expect ⟨[.symbol .rparen], by simp, _, .nil⟩ fun _ l hlt => ?_
  refine .opt nofun (fun _ _ _ => .ok) fun _ => ?_
  exact (stops_parseArgList ⟨l, c.next⟩).lift fun w ⟨args, hargs⟩ => .here ⟨args, .list hargs⟩
termination_by (c.left, 3)

theorem stops_parseArgList (c : Cursor) : Stops [] c.tokens
    (fun w => ∃ args, ArgListPhrase w args) (parseArgList c).outcome := by
  rw [outcome_parseArgList]
  refine .andThen (local_parseBinary 0 c) (stops_parseBinary 0 c)
    (fun w ⟨e, he⟩ => ⟨[.symbol .rparen], by simp, _, .one he⟩) (took_parseExpr c).outcome
    fun e c₁ u he hu => ?_
  have hlt : c₁.left < c.left := lt_of_outcome he
  refine .opt nofun (fun _ l hlt' => ?_) fun _ => ?_
  · exact ((stops_parseArgList ⟨l, c₁.next⟩).lift
      fun w ⟨args, hargs⟩ => .here ⟨_, by simpa using ArgListPhrase.cons hu hargs⟩).map
  · exact .expect (.here ⟨_, .one hu⟩) fun _ _ _ => .ok
termination_by (c.left, 3)

end

theorem stops_parseClosed (s : Symbol) (c : Cursor) : Stops [] c.tokens
    (fun w => ∃ e u, BinaryPhrase 0 u e ∧ w = u ++ [.symbol s]) (parseClosed (.symbol s) c).outcome :=
  stops_closed (stops_parseBinary 0 c) s

/-! ## Statements -/

theorem stops_parseCondition (c : Cursor) : Stops [] c.tokens
    (fun w => ∃ e u, BinaryPhrase 0 u e ∧ w = .symbol .lparen :: (u ++ [.symbol .rparen]))
    (parseCondition c).outcome := by
  rw [outcome_parseCondition]
  refine .expect ⟨[.keyword .null, .symbol .rparen], by simp, _, _, null_phrase 0, rfl⟩ fun _ l _ => ?_
  refine (stops_parseClosed .rparen ⟨l, c.next⟩).lift ?_
  rintro w ⟨e, u, he, rfl⟩
  exact .here ⟨e, u, he, rfl⟩

theorem stops_declStmt (c : Cursor) :
    Stops [] c.tokens (fun w => ∃ s, StmtPhrase w s) (declStmt c) := by
  have hdecl (var : VarDecl) : StmtPhrase (var.kinds ++ [.symbol .semicolon]) (.decl none var) :=
    .decl var
  refine .andThen (local_parseVarDecl c) (stops_parseVarDecl c) ?_ (took_outcome_parseVarDecl c) ?_
  · rintro w ⟨var, rfl⟩
    exact ⟨[.symbol .semicolon], by simp, _, hdecl var⟩
  · rintro var c₁ w - rfl
    exact .expect (.here ⟨_, hdecl var⟩) fun _ _ _ => .ok

theorem stops_assignRest {lhs : Expr} {u : List Kind} (hlhs : BinaryPhrase 0 u lhs) (c : Cursor) :
    Stops u c.tokens (fun w => ∃ s, StmtPhrase w s) (assignRest lhs c) := by
  have hexpr : StmtPhrase (u ++ [.symbol .semicolon]) (.expr none lhs) := .expr hlhs
  have hend : Stops u c.tokens (fun w => ∃ s, StmtPhrase w s) (exprEnd lhs c) :=
    .expect (.here ⟨_, hexpr⟩) fun _ _ _ => .ok
  by_cases hplace : ∃ m target, lhs = .read m target
  · obtain ⟨m, target, rfl⟩ := hplace
    unfold assignRest
    refine .opt nofun (fun _ l _ => ?_) fun _ => hend
    refine ((stops_parseClosed .semicolon ⟨l, c.next⟩).lift ?_).map
    rintro w ⟨e, v, he, rfl⟩
    exact .here ⟨.assign none target e, by simpa using StmtPhrase.assign hlhs he⟩
  · rw [assignRest_of_ne fun m target h => hplace ⟨m, target, h⟩]
    split
    · exact .fail nofun ⟨[.symbol .semicolon], by simp, _, hexpr⟩
    · exact hend

theorem stops_exprStmt (c : Cursor) :
    Stops [] c.tokens (fun w => ∃ s, StmtPhrase w s) (exprStmt c) :=
  .andThen (local_parseBinary 0 c) (stops_parseBinary 0 c)
    (fun w ⟨e, he⟩ => ⟨[.symbol .semicolon], by simp, .expr none e, .expr he⟩)
    (took_parseExpr c).outcome fun lhs c₁ u _ hu => stops_assignRest hu c₁

theorem stops_parseSimple (c : Cursor) : Stops [] c.tokens
    (fun w => ∃ s, StmtPhrase w s) (parseSimple c).outcome := by
  by_cases hdecl : c.startsDecl = true
  · rw [outcome_parseSimple_decl hdecl]
    exact (stops_declStmt c).map
  · rw [outcome_parseSimple_expr hdecl]
    exact (stops_exprStmt c).map

/-- A block without a statement. -/
theorem empty_block : StmtPhrase [.symbol .lbrace, .symbol .rbrace] (.block none (.mk [] none)) :=
  .block (.mk .nil)

theorem took_outcome_parseStmt (c : Cursor) (s : Stmt) (c₁ : Cursor)
    (h : (parseStmt c).outcome = .ok (s, c₁)) : ∃ w, c.Took w c₁ ∧
      StmtPhrase w s ∧ (s.openEnd = true → c₁.kind ≠ .keyword .else_) :=
  all_of_outcome (P := fun s c' => ∃ w, c.Took w c' ∧ StmtPhrase w s ∧
    (s.openEnd = true → c'.kind ≠ .keyword .else_)) (took_parseStmt c) h

mutual

theorem stops_parseStmt (c : Cursor) : Stops [] c.tokens
    (fun w => ∃ s, StmtPhrase w s) (parseStmt c).outcome := by
  -- The first token says which statement it is to be. Where reading stops, what was taken
  -- can be gone on with: a block for a body, `null` for an expression.
  rcases stmt_cases c.kind with hblock | hif | hwhile | hreturn | hsimple
  · refine .take (f := fun c => (parseStmt c).outcome)
      (g := fun t c => Outcome.andThen (parseStmts c).outcome fun stmts c₁ =>
        .ok (.block t.pos (.mk stmts t.pos), c₁)) hblock nofun
      (fun t l n ht => outcome_parseStmt_block ht) fun t l hlt => ?_
    refine ((stops_parseStmts ⟨l, c.next⟩).lift ?_).map
    rintro w ⟨stmts, v, hv, rfl⟩
    exact .here ⟨.block none (.mk stmts none), .block (.mk hv)⟩
  · refine .take (f := fun c => (parseStmt c).outcome)
      (g := fun t c => Outcome.andThen (parseCondition c).outcome fun cond c₁ =>
        Outcome.andThen (parseStmt c₁).outcome fun yes c₂ => elseRest t.pos cond yes c₂) hif nofun
      (fun t l n ht => outcome_parseStmt_if ht) fun t l hlt => ?_
    have hthen {u v : List Kind} {e : Expr} {s : Stmt} (he : BinaryPhrase 0 u e)
        (hs : StmtPhrase v s) : StmtPhrase ([.keyword .if_] ++ .symbol .lparen ::
          (u ++ [.symbol .rparen]) ++ v) (.ifThen none e s) := by
      simpa using StmtPhrase.ifThen he hs
    refine .andThen (local_parseCondition ⟨l, c.next⟩) (stops_parseCondition ⟨l, c.next⟩) ?_
      (took_parseCondition _).outcome fun cond c₁ w hcond ⟨u, hu, hw⟩ => ?_
    · rintro w ⟨e, u, he, rfl⟩
      exact ⟨[.symbol .lbrace, .symbol .rbrace], by simp, _, hthen he empty_block⟩
    subst hw
    have hlt₁ : c₁.left < c.left := Nat.lt_trans (lt_of_outcome hcond) hlt
    refine .andThen (local_parseStmt c₁) (stops_parseStmt c₁) (fun v ⟨s, hs⟩ => .here ⟨_, hthen hu hs⟩)
      (took_outcome_parseStmt c₁) fun yes c₂ v hyes ⟨hv, hend⟩ => ?_
    have hlt₂ : c₂.left < c.left := Nat.lt_trans (lt_of_outcome hyes) hlt₁
    -- An `else` is looked for in any case, but behind an open end there is none.
    cases hopen : yes.openEnd with
    | true =>
      rw [elseRest, opt_of_ne (hend hopen)]
      exact .ok
    | false =>
      refine .opt nofun (fun _ l hlt₃ => ?_) fun _ => .ok
      have hlt₄ : Cursor.left ⟨l, c₂.next⟩ < c.left := Nat.lt_trans hlt₃ hlt₂
      refine ((stops_parseStmt ⟨l, c₂.next⟩).lift ?_).map
      rintro w ⟨no, hno⟩
      exact .here ⟨.ifElse none cond yes no, by simpa using StmtPhrase.ifElse hu hv hopen hno⟩
  · refine .take (f := fun c => (parseStmt c).outcome)
      (g := fun t c => Outcome.andThen (parseCondition c).outcome fun cond c₁ =>
        Outcome.andThen (parseStmt c₁).outcome fun body c₂ => .ok (.loop t.pos cond body, c₂)) hwhile
      nofun (fun t l n ht => outcome_parseStmt_while ht) fun t l hlt => ?_
    have hloop {u v : List Kind} {e : Expr} {s : Stmt} (he : BinaryPhrase 0 u e)
        (hs : StmtPhrase v s) : StmtPhrase ([.keyword .while_] ++ .symbol .lparen ::
          (u ++ [.symbol .rparen]) ++ v) (.loop none e s) := by
      simpa using StmtPhrase.loop he hs
    refine .andThen (local_parseCondition ⟨l, c.next⟩) (stops_parseCondition ⟨l, c.next⟩) ?_
      (took_parseCondition _).outcome fun cond c₁ w hcond ⟨u, hu, hw⟩ => ?_
    · rintro w ⟨e, u, he, rfl⟩
      exact ⟨[.symbol .lbrace, .symbol .rbrace], by simp, _, hloop he empty_block⟩
    subst hw
    have hlt₁ : c₁.left < c.left := Nat.lt_trans (lt_of_outcome hcond) hlt
    exact ((stops_parseStmt c₁).lift fun v ⟨s, hs⟩ => .here ⟨_, hloop hu hs⟩).map
  · refine .take (f := fun c => (parseStmt c).outcome)
      (g := fun t c => Outcome.andThen (parseTerminated c).outcome
        fun value c₁ => .ok (.ret t.pos value, c₁)) hreturn nofun
      (fun t l n ht => outcome_parseStmt_return ht) fun t l hlt => ?_
    refine ((stops_parseClosed .semicolon ⟨l, c.next⟩).lift ?_).map
    rintro w ⟨e, u, he, rfl⟩
    exact .here ⟨.ret none e, .ret he⟩
  · rw [outcome_parseStmt_simple hsimple]
    exact stops_parseSimple c
termination_by (c.left, 1)

theorem stops_parseStmts (c : Cursor) : Stops [] c.tokens
    (fun w => ∃ stmts u, StmtsPhrase u stmts ∧ w = u ++ [.symbol .rbrace]) (parseStmts c).outcome := by
  by_cases hrbrace : c.kind = .symbol .rbrace
  · obtain ⟨_ | ⟨t, l⟩, next⟩ := c
    · cases hrbrace
    · rw [outcome_parseStmts_rbrace hrbrace]
      exact .ok
  by_cases heof : c.kind = .eof
  · rw [outcome_parseStmts_eof heof]
    exact .fail nofun ⟨[.symbol .rbrace], by simp, [], [], .nil, rfl⟩
  · rw [outcome_parseStmts hrbrace heof]
    refine .andThen (local_parseStmt c) (stops_parseStmt c)
      (fun w ⟨s, hs⟩ => ⟨[.symbol .rbrace], by simp, [s], w, by simpa using StmtsPhrase.cons hs .nil, rfl⟩)
      (took_outcome_parseStmt c) fun s c₁ u hs hu => ?_
    have hlt : c₁.left < c.left := lt_of_outcome hs
    refine ((stops_parseStmts c₁).lift ?_).map
    rintro w ⟨stmts, v, hv, rfl⟩
    exact .here ⟨s :: stmts, u ++ v, .cons hu.1 hv, by simp⟩
termination_by (c.left, 2)

end

theorem stops_parseBlock (c : Cursor) : Stops [] c.tokens
    (fun w => ∃ b, BlockPhrase w b) (parseBlock c).outcome := by
  rw [outcome_parseBlock]
  refine .expect ⟨[.symbol .rbrace], by simp, .mk [] none, .mk .nil⟩ fun _ l _ => ?_
  refine ((stops_parseStmts ⟨l, c.next⟩).lift ?_).map
  rintro w ⟨stmts, u, hu, rfl⟩
  exact .here ⟨.mk stmts none, .mk hu⟩

/-! ## Declarations -/

theorem stops_parseParamList (c : Cursor) : Stops [] c.tokens
    (fun w => ∃ params, params ≠ [] ∧ w = paramKinds params ++ [.symbol .rparen])
    (parseParamList c).outcome := by
  rw [outcome_parseParamList]
  refine .andThen (local_parseVarDecl c) (stops_parseVarDecl c) ?_ (took_outcome_parseVarDecl c)
    fun param c₁ w hparam hw => ?_
  · rintro w ⟨param, rfl⟩
    exact ⟨[.symbol .rparen], by simp, [param], by simp, rfl⟩
  subst hw
  have hlt : c₁.left < c.left := lt_of_outcome hparam
  refine .opt nofun (fun _ l hlt' => ?_) fun _ => ?_
  · refine ((stops_parseParamList ⟨l, c₁.next⟩).lift ?_).map
    rintro w ⟨_ | ⟨p, rest⟩, hne, rfl⟩
    · exact absurd rfl hne
    · exact .here ⟨param :: p :: rest, by simp, by simp [paramKinds]⟩
  · exact .expect (.here ⟨[param], by simp, rfl⟩) fun _ _ _ => .ok
termination_by c.left

/-- The tokens of parameters between parentheses. -/
def paramsKinds (params : List VarDecl) : List Kind :=
  .symbol .lparen :: (paramKinds params ++ [.symbol .rparen])

theorem stops_parseParams (c : Cursor) : Stops [] c.tokens
    (fun w => ∃ params, w = paramsKinds params) (parseParams c).outcome := by
  rw [outcome_parseParams]
  refine .expect ⟨[.symbol .rparen], by simp, [], rfl⟩ fun _ l _ => ?_
  refine .opt nofun (fun _ _ _ => .ok) fun _ => ?_
  refine (stops_parseParamList ⟨l, c.next⟩).lift ?_
  rintro w ⟨params, -, rfl⟩
  exact .here ⟨params, rfl⟩

theorem stops_parseFunctionRest (heading : VarDecl) (c : Cursor) : Stops heading.kinds c.tokens
    (fun w => ∃ f, FunctionPhrase w f) (parseFunctionRest heading c).outcome := by
  have hfunction {params : List VarDecl} {u : List Kind} {b : Block} (hu : BlockPhrase u b) :
      FunctionPhrase (heading.kinds ++ paramsKinds params ++ u)
        ⟨0, heading.ty, heading.name, params, b, none⟩ := by
    simpa [VarDecl.kinds, paramsKinds] using
      FunctionPhrase.mk (f := ⟨0, heading.ty, heading.name, params, b, none⟩) hu
  rw [outcome_parseFunctionRest]
  refine .andThen (R := fun params _ w => w = paramsKinds params) (local_parseParams c)
    (stops_parseParams c) ?_ (fun params c₁ h => ⟨_, all_of_outcome
      (P := fun params c' => c.Took (paramsKinds params) c') (took_parseParams c) h, rfl⟩)
    fun params c₁ w _ hw => ?_
  · rintro w ⟨params, rfl⟩
    exact ⟨[.symbol .lbrace, .symbol .rbrace], by simp, _, hfunction (b := .mk [] none) (.mk .nil)⟩
  subst hw
  refine ((stops_parseBlock c₁).lift ?_).map
  rintro w ⟨b, hb⟩
  exact .here ⟨_, hfunction hb⟩

theorem stops_parseFunction (c : Cursor) : Stops [] c.tokens
    (fun w => ∃ f, FunctionPhrase w f) (parseFunction c).outcome := by
  rw [outcome_parseFunction]
  refine .andThen (local_parseVarDecl c) (stops_parseVarDecl c) ?_ (took_outcome_parseVarDecl c)
    fun heading c₁ w _ hw => ?_
  · rintro w ⟨heading, rfl⟩
    refine ⟨paramsKinds [] ++ [.symbol .lbrace, .symbol .rbrace], by simp [paramsKinds, paramKinds],
      ⟨0, heading.ty, heading.name, [], .mk [] none, none⟩, ?_⟩
    simpa [VarDecl.kinds, paramsKinds, paramKinds] using FunctionPhrase.mk
      (f := ⟨0, heading.ty, heading.name, [], .mk [] none, none⟩) (.mk .nil)
  · exact hw ▸ stops_parseFunctionRest heading c₁

theorem stops_parseMember (c : Cursor) : Stops [] c.tokens
    (fun w => ∃ m, MemberPhrase w m) (parseMember c).outcome := by
  rw [outcome_parseMember]
  refine .andThen (local_parseVarDecl c) (stops_parseVarDecl c) ?_ (took_outcome_parseVarDecl c)
    fun heading c₁ w _ hw => ?_
  · rintro w ⟨heading, rfl⟩
    exact ⟨[.symbol .semicolon], by simp, _, .field heading⟩
  subst hw
  unfold classMemberRest
  split
  · exact ((stops_parseFunctionRest heading c₁).mono fun w ⟨f, hf⟩ => ⟨_, .method hf⟩).map
  · exact .expect (.here ⟨_, .field heading⟩) fun _ _ _ => .ok

theorem stops_parseMembers (c : Cursor) : Stops [] c.tokens
    (fun w => ∃ ms u, Phrases MemberPhrase u ms ∧ w = u ++ [.symbol .rbrace])
    (parseMembers c).outcome := by
  by_cases hrbrace : c.kind = .symbol .rbrace
  · obtain ⟨_ | ⟨t, l⟩, next⟩ := c
    · cases hrbrace
    · rw [outcome_parseMembers_rbrace hrbrace]
      exact .ok
  by_cases heof : c.kind = .eof
  · rw [outcome_parseMembers_eof heof]
    exact .fail nofun ⟨[.symbol .rbrace], by simp, [], [], .nil, rfl⟩
  · rw [outcome_parseMembers hrbrace heof]
    refine .andThen (local_parseMember c) (stops_parseMember c)
      (fun w ⟨m, hm⟩ => ⟨[.symbol .rbrace], by simp, [m], w, by simpa using Phrases.cons hm .nil, rfl⟩)
      (took_parseMember c).outcome fun m c₁ u hm hu => ?_
    have hlt : c₁.left < c.left := lt_of_outcome hm
    refine ((stops_parseMembers c₁).lift ?_).map
    rintro w ⟨ms, v, hv, rfl⟩
    exact .here ⟨m :: ms, u ++ v, .cons hu hv, by simp⟩
termination_by c.left

theorem stops_parseExtends (c : Cursor) : Stops [] c.tokens
    (fun w => ∃ super?, w = extendsKinds super?) (parseExtends c).outcome := by
  rw [outcome_parseExtends]
  refine .opt nofun (fun _ l _ => ?_) fun _ => .ok
  refine .ident (by simp) ?_ (fun name => .here ⟨some name, rfl⟩) fun _ _ _ _ => .ok
  rintro ⟨k, hk, hends⟩
  cases hk
  cases hends

theorem stops_classRest (id : NodeId) (name : String) (pos : Pos) (c : Cursor) :
    Stops [.keyword .class_, .ident name] c.tokens (fun w => ∃ d, ClassPhrase w d)
      (classRest id name pos c) := by
  have hclass {super? : Option String} {u : List Kind} {ms : List Member}
      (hu : Phrases MemberPhrase u ms) : ClassPhrase ([.keyword .class_, .ident name] ++
        extendsKinds super? ++ [.symbol .lbrace] ++ (u ++ [.symbol .rbrace]))
        ⟨id, name, super?, ms.filterMap Member.field?, ms.filterMap Member.method?, pos⟩ := by
    simpa using ClassPhrase.mk (c := ⟨id, name, super?, ms.filterMap Member.field?,
      ms.filterMap Member.method?, pos⟩) hu rfl rfl
  have hempty (super? : Option String) : ClassPhrase ([.keyword .class_, .ident name] ++
      extendsKinds super? ++ [.symbol .lbrace] ++ [.symbol .rbrace]) ⟨id, name, super?, [], [], pos⟩ :=
    hclass .nil
  refine .andThen (R := fun super? _ w => w = extendsKinds super?) (local_parseExtends c)
    (stops_parseExtends c) ?_ (fun super? c₁ h => ⟨_, all_of_outcome
      (P := fun super? c' => c.Took (extendsKinds super?) c') (took_parseExtends c) h, rfl⟩)
    fun super? c₁ w _ hw => ?_
  · rintro w ⟨super?, rfl⟩
    exact ⟨[.symbol .lbrace, .symbol .rbrace], by simp, _, by simpa using hempty super?⟩
  subst hw
  refine .expect ⟨[.symbol .rbrace], by simp, _, hempty super?⟩ fun _ l _ => ?_
  refine ((stops_parseMembers ⟨l, c₁.next⟩).lift ?_).map
  rintro w ⟨ms, u, hu, rfl⟩
  exact .here ⟨_, hclass hu⟩

theorem stops_parseClass {c : Cursor} (hc : c.kind = .keyword .class_) : Stops [] c.tokens
    (fun w => ∃ d, ClassPhrase w d) (parseClass c).outcome := by
  refine .take (f := fun c => (parseClass c).outcome) (g := fun _ c =>
      Outcome.andThen (Cursor.ident ⟨c.tokens, c.next + 1⟩).outcome fun r c₂ =>
        classRest c.next r.1 r.2 c₂) hc nofun (fun t l n ht => ?_) fun _ l _ => ?_
  · rw [outcome_parseClass, outcome_expect_cons ht]
    rfl
  refine .ident (c := ⟨l, c.next + 1⟩) (by simp) ?_ (fun name => ?_)
    fun name pos l' _ => stops_classRest c.next name pos ⟨l', c.next + 1⟩
  · rintro ⟨k, hk, hends⟩
    cases hk
    cases hends
  · refine ⟨[.symbol .lbrace, .symbol .rbrace], by simp, ⟨0, name, none, [], [], none⟩, ?_⟩
    exact ClassPhrase.mk (c := ⟨0, name, none, [], [], none⟩) .nil rfl rfl

theorem stops_parseItem (c : Cursor) : Stops [] c.tokens
    (fun w => ∃ item, ItemPhrase w item) (parseItem c).outcome := by
  by_cases hclass : c.kind = .keyword .class_
  · rw [outcome_parseItem_class hclass]
    exact ((stops_parseClass hclass).mono fun w ⟨d, hd⟩ => ⟨_, .class_ hd⟩).map
  · rw [outcome_parseItem_function hclass]
    exact ((stops_parseFunction c).mono fun w ⟨f, hf⟩ => ⟨_, .function hf⟩).map

/-- **Where a program has an error**, the tokens in front are the beginning of
declarations. -/
theorem stops_parseItems (c : Cursor) {e : ParseError} (h : (parseItems c).2 = some e) :
    StopsAt e [] c.tokens fun w => ∃ items, Phrases ItemPhrase w items := by
  by_cases heof : c.kind = .eof
  · rw [parseItems_eof heof] at h
    cases h
  cases hitem : (parseItem c).outcome with
  | error e' =>
    rw [parseItems_of_error heof hitem] at h
    cases h
    exact ((stops_parseItem c).lift fun w ⟨item, hw⟩ => .here
      ⟨[item], by simpa using Phrases.cons hw .nil⟩) e hitem
  | ok s =>
    obtain ⟨item, c₁⟩ := s
    rw [parseItems_of_ok heof hitem] at h
    obtain ⟨u, hu, -⟩ := (local_parseItem c).ok item c₁ hitem
    obtain ⟨w, hw, hphrase⟩ := (took_parseItem c).outcome item c₁ hitem
    obtain rfl := kinds_of_took hw hu
    have hlt : c₁.left < c.left := lt_of_outcome hitem
    rw [hu]
    refine .behind ((stops_parseItems c₁ h).lift ?_)
    rintro w ⟨items, hw⟩
    exact .here ⟨item :: items, .cons hphrase hw⟩
termination_by c.left

end ClassLang.Source
