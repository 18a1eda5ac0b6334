import ClassLang.Proofs.Source.Outcomes
/-!
# Source — how far reading looks

A routine decides by the tokens that it takes and by few behind them. `LocalAt`
says of a routine, at a cursor, that its outcome there is its outcome wherever the
same tokens stand in front of others that look alike: a value is the same value
with the same identity, and an error is an error. What closes with a token of its
own does not look further (`Look.closed`); an expression and a statement look at
the kind of the token behind them (`Look.head`), and brackets behind a type also
at the one after that (`Look.pair`).
-/


namespace ClassLang.Source

open Token (Kind)

/-! ## Tokens that look alike -/

/-- The tokens start with the same kind. -/
def SameHead (x y : List Located) : Prop := Cursor.kind ⟨x, 0⟩ = Cursor.kind ⟨y, 0⟩

/-- The tokens start with the same kind and both or neither with a bracket pair. -/
structure SamePair (x y : List Located) : Prop where
  head : SameHead x y
  pair : Cursor.kind ⟨x, 0⟩ = .symbol .lbracket →
    (Cursor.kind₁ ⟨x, 0⟩ = .symbol .rbracket ↔ Cursor.kind₁ ⟨y, 0⟩ = .symbol .rbracket)

theorem SameHead.append {x y : List Located} (h : SameHead x y) (u : List Located) :
    SameHead (u ++ x) (u ++ y) := by
  cases u with
  | nil => exact h
  | cons t u => rfl

theorem sameHead_of_ne_nil {u : List Located} (h : u ≠ []) (x y : List Located) :
    SameHead (u ++ x) (u ++ y) := by
  cases u with
  | nil => exact absurd rfl h
  | cons t u => rfl

theorem SameHead.samePair {x y : List Located} (h : SameHead x y)
    (hx : Cursor.kind ⟨x, 0⟩ ≠ .symbol .lbracket) : SamePair x y := ⟨h, fun hk => absurd hk hx⟩

/-- One token in front of tokens that start with the same kind. -/
theorem SameHead.cons {x y : List Located} (h : SameHead x y) (t : Located) :
    SamePair (t :: x) (t :: y) := by
  refine ⟨rfl, fun _ => ?_⟩
  show Cursor.kind ⟨x, 0⟩ = _ ↔ Cursor.kind ⟨y, 0⟩ = _
  rw [show Cursor.kind ⟨x, 0⟩ = Cursor.kind ⟨y, 0⟩ from h]

theorem SameHead.samePair_append {x y u : List Located} (h : SameHead x y) (hu : u ≠ []) :
    SamePair (u ++ x) (u ++ y) := by
  cases u with
  | nil => exact absurd rfl hu
  | cons t u => exact (h.append u).cons t

/-- How far a routine looks behind what it took. -/
inductive Look
  /-- It takes a token at least and looks at none behind. -/
  | closed
  /-- It looks at the kind of the token behind. -/
  | head
  /-- It looks whether a bracket pair stands behind. -/
  | pair
deriving DecidableEq

/-- What a routine sees of the tokens behind is the same. -/
def Look.Agree : Look → List Located → List Located → Prop
  | closed => fun _ _ => True
  | head => SameHead
  | pair => SamePair

/-- A type may end with a token of the kind. -/
def endsType : Kind → Bool
  | .keyword .int | .keyword .boolean | .ident _ | .symbol .rbracket => true
  | _ => false

/-- A type may end here. -/
def BehindType (w : List Kind) : Prop := ∃ k, w.getLast? = some k ∧ endsType k = true

/-- A name is missing behind a type, where a bracket is that might be one of a
pair. -/
structure ParseError.Midway (e : ParseError) (w : List Kind) : Prop where
  cause : e.cause = .expected .identifier (.symbol .lbracket)
  behind : BehindType w

/-- What an error is due to is the same in other tokens. -/
structure ParseError.Sees (e : ParseError) (w : List Kind) (x y : List Located) : Prop where
  head : SameHead x y
  pair : e.Midway w → SamePair x y

theorem not_behindType_nil : ¬ BehindType [] := by
  rintro ⟨k, hk, -⟩
  cases hk

theorem BehindType.append {w : List Kind} (h : BehindType w) (v : List Kind) : BehindType (v ++ w) := by
  obtain ⟨k, hk, hends⟩ := h
  exact ⟨k, by rw [List.getLast?_append, hk]; rfl, hends⟩

theorem BehindType.of_append {v w : List Kind} (h : BehindType (v ++ w)) (hw : w ≠ []) :
    BehindType w := by
  obtain ⟨k, hk, hends⟩ := h
  rw [List.getLast?_append, List.getLast?_eq_some_getLast hw] at hk
  exact ⟨k, (List.getLast?_eq_some_getLast hw).trans hk, hends⟩

theorem ParseError.Sees.right {e : ParseError} {v w : List Kind} {x y : List Located}
    (h : e.Sees (v ++ w) x y) : e.Sees w x y :=
  ⟨h.head, fun hmid => h.pair ⟨hmid.cause, hmid.behind.append v⟩⟩

/-! ## Local routines -/

section

variable {α β : Type} {k k₁ : Look} {f g p : Cursor → Outcome α} {q : α → Cursor → Outcome β}
variable {c : Cursor} {t : Located} {l : List Located} {n : NodeId}

/-- What a routine comes to at a cursor, it comes to in front of all tokens that
it sees as the same. -/
structure LocalAt (k : Look) (f : Cursor → Outcome α) (c : Cursor) : Prop where
  ok : ∀ a c', f c = .ok (a, c') → ∃ u, c.tokens = u ++ c'.tokens ∧ (k = .closed → u ≠ []) ∧
    (∀ t ∈ u, t.kind ≠ .eof) ∧
    ∀ y, k.Agree c'.tokens y → f ⟨u ++ y, c.next⟩ = .ok (a, ⟨y, c'.next⟩)
  error : ∀ e, f c = .error e → ∃ u x m cause, c.tokens = u ++ x ∧ (∀ t ∈ u, t.kind ≠ .eof) ∧
    e = Cursor.fail ⟨x, m⟩ cause ∧
    ∀ y, e.Sees (u.map (·.kind)) x y → ∃ e', f ⟨u ++ y, c.next⟩ = .error e'

namespace LocalAt

/-- A token that is taken, and what is read behind it. -/
theorem cons (h : ∀ l, f ⟨t :: l, n⟩ = g ⟨l, n⟩) (ht : t.kind ≠ .eof) (hg : LocalAt k g ⟨l, n⟩) :
    LocalAt k f ⟨t :: l, n⟩ where
  ok := fun a c' hok => by
    obtain ⟨u, hu, -, heof, hrerun⟩ := hg.ok a c' (h l ▸ hok)
    refine ⟨t :: u, congrArg (t :: ·) hu, fun _ => List.cons_ne_nil _ _,
      List.forall_mem_cons.2 ⟨ht, heof⟩, fun y hy => ?_⟩
    exact (h (u ++ y)).trans (hrerun y hy)
  error := fun e herr => by
    obtain ⟨u, x, m, cause, hu, heof, he, hrerun⟩ := hg.error e (h l ▸ herr)
    refine ⟨t :: u, x, m, cause, congrArg (t :: ·) hu, List.forall_mem_cons.2 ⟨ht, heof⟩, he,
      fun y hy => ?_⟩
    obtain ⟨e', he'⟩ := hrerun y (ParseError.Sees.right (v := [t.kind]) hy)
    exact ⟨e', (h (u ++ y)).trans he'⟩

/-- A token that is all that is taken. -/
theorem token {a : α} {m : NodeId} (h : ∀ l, f ⟨t :: l, n⟩ = .ok (a, ⟨l, m⟩)) (ht : t.kind ≠ .eof) :
    LocalAt .closed f ⟨t :: l, n⟩ where
  ok := fun b c' hok => by
    obtain ⟨rfl, rfl⟩ := Prod.mk.inj (Except.ok.inj ((h l).symm.trans hok))
    exact ⟨[t], rfl, fun _ => List.cons_ne_nil _ _, List.forall_mem_singleton.2 ht, fun y _ => h y⟩
  error := fun e herr => nomatch (h l).symm.trans herr

/-- The kind of the first token of other tokens that are seen as the same. -/
theorem kind_append {u x y : List Located} (hc : c.tokens = u ++ x) (h : u ≠ [] ∨ SameHead x y) :
    Cursor.kind ⟨u ++ y, c.next⟩ = c.kind := by
  obtain ⟨tokens, next⟩ := c
  obtain rfl : tokens = u ++ x := hc
  cases u with
  | nil => exact (h.resolve_left (absurd rfl)).symm
  | cons t u => rfl

theorem Agree.front {u x y : List Located} (hclosed : k = .closed → u ≠ []) (h : k.Agree x y) :
    u ≠ [] ∨ SameHead x y := by
  cases k with
  | closed => exact .inl (hclosed rfl)
  | head => exact .inr h
  | pair => exact .inr (SamePair.head h)

/-- **A routine that goes by the kind of the first token** is local if the way that
it goes is. -/
theorem congr (h : ∀ c', c'.kind = c.kind → f c' = g c') (hg : LocalAt k g c) : LocalAt k f c where
  ok := fun a c' hok => by
    obtain ⟨u, hu, hclosed, heof, hrerun⟩ := hg.ok a c' (h c rfl ▸ hok)
    refine ⟨u, hu, hclosed, heof, fun y hy => ?_⟩
    rw [h _ (kind_append hu (Agree.front hclosed hy))]
    exact hrerun y hy
  error := fun e herr => by
    obtain ⟨u, x, m, cause, hu, heof, he, hrerun⟩ := hg.error e (h c rfl ▸ herr)
    refine ⟨u, x, m, cause, hu, heof, he, fun y hy => ?_⟩
    rw [h _ (kind_append hu (.inr hy.head))]
    exact hrerun y hy

/-- A routine that takes nothing. -/
theorem done (hk : k ≠ .closed) (g : NodeId → α) (h : NodeId → NodeId) (c : Cursor) :
    LocalAt k (fun c => .ok (g c.next, ⟨c.tokens, h c.next⟩)) c where
  ok := fun a c' hok => by
    cases hok
    exact ⟨[], rfl, fun h => absurd h hk, List.forall_mem_nil _, fun y _ => rfl⟩
  error := fun e herr => nomatch herr

/-- A routine that fails at the first token. -/
theorem fail {cause : ParseCause} (h : f c = .error (c.fail cause))
    (h' : ∀ c', c'.kind = c.kind → ∃ e, f c' = .error e) : LocalAt k f c where
  ok := fun a c' hok => nomatch h.symm.trans hok
  error := fun e herr => by
    obtain rfl := Except.error.inj (h.symm.trans herr)
    refine ⟨[], c.tokens, c.next, cause, rfl, List.forall_mem_nil _, rfl, fun y hy => ?_⟩
    exact h' _ (kind_append (u := []) rfl (.inr hy.head))

/-- **Reading in turn**: in front of what is read next, the first routine has to
see the same. -/
theorem andThen_of (hp : LocalAt k₁ p c)
    (hq : ∀ a c₁, p c = .ok (a, c₁) → LocalAt k (q a) c₁)
    (hok : ∀ a c₁ b c' u y, p c = .ok (a, c₁) → q a c₁ = .ok (b, c') → c₁.tokens = u ++ c'.tokens →
      (k = .closed → u ≠ []) → k.Agree c'.tokens y → k₁.Agree c₁.tokens (u ++ y))
    (herror : ∀ a c₁ e v u x y, p c = .ok (a, c₁) → c.tokens = v ++ c₁.tokens → q a c₁ = .error e →
      c₁.tokens = u ++ x → (∀ y, e.Sees (u.map (·.kind)) x y → ∃ e', q a ⟨u ++ y, c₁.next⟩ = .error e') →
      e.Sees ((v ++ u).map (·.kind)) x y → k₁.Agree c₁.tokens (u ++ y)) :
    LocalAt k (fun c => Outcome.andThen (p c) q) c := by
  cases hpc : p c with
  | error e =>
    refine ⟨fun a c' hok => ?_, fun e' herr => ?_⟩
    · rw [hpc] at hok
      cases hok
    · rw [hpc] at herr
      cases herr
      obtain ⟨u, x, m, cause, hu, heof, he, hrerun⟩ := hp.error e hpc
      refine ⟨u, x, m, cause, hu, heof, he, fun y hy => ?_⟩
      obtain ⟨e', he'⟩ := hrerun y hy
      exact ⟨e', by rw [he']; rfl⟩
  | ok r =>
    obtain ⟨a, c₁⟩ := r
    obtain ⟨v, hv, -, heof₁, hrerun₁⟩ := hp.ok a c₁ hpc
    have hqa := hq a c₁ hpc
    refine ⟨fun b c' hqc => ?_, fun e hqc => ?_⟩
    · rw [hpc] at hqc
      obtain ⟨u, hu, hclosed, heof₂, hrerun₂⟩ := hqa.ok b c' hqc
      refine ⟨v ++ u, by rw [hv, hu, List.append_assoc], fun h => ?_,
        List.forall_mem_append.2 ⟨heof₁, heof₂⟩, fun y hy => ?_⟩
      · exact List.append_ne_nil_of_right_ne_nil _ (hclosed h)
      · rw [List.append_assoc, hrerun₁ (u ++ y) (hok a c₁ b c' u y hpc hqc hu hclosed hy)]
        exact hrerun₂ y hy
    · rw [hpc] at hqc
      obtain ⟨u, x, m, cause, hu, heof₂, he, hrerun₂⟩ := hqa.error e hqc
      refine ⟨v ++ u, x, m, cause, by rw [hv, hu, List.append_assoc],
        List.forall_mem_append.2 ⟨heof₁, heof₂⟩, he, fun y hy => ?_⟩
      rw [List.append_assoc, hrerun₁ (u ++ y) (herror a c₁ e v u x y hpc hv hqc hu hrerun₂ hy)]
      rw [List.map_append] at hy
      exact hrerun₂ y hy.right

/-- A routine that does not look further than one token, and the next one. -/
theorem andThen (hk₁ : k₁ ≠ .pair) (hp : LocalAt k₁ p c)
    (hq : ∀ a c₁, p c = .ok (a, c₁) → LocalAt k (q a) c₁) :
    LocalAt k (fun c => Outcome.andThen (p c) q) c := by
  have hagree {u x y : List Located} (h : u ≠ [] ∨ SameHead x y) : k₁.Agree (u ++ x) (u ++ y) := by
    cases k₁ with
    | closed => trivial
    | head => exact h.elim (fun hu => sameHead_of_ne_nil hu x y) fun hxy => hxy.append u
    | pair => exact absurd rfl hk₁
  refine hp.andThen_of hq (fun a c₁ b c' u y _ _ hu hclosed hy => ?_)
    fun a c₁ e v u x y _ _ _ hu _ hy => ?_
  · exact hu ▸ hagree (Agree.front hclosed hy)
  · exact hu ▸ hagree (.inr hy.head)

/-- What is made of a value when all is read. -/
theorem map (hp : LocalAt k p c) (g : α → NodeId → β) (h : NodeId → NodeId) :
    LocalAt k (fun c => Outcome.andThen (p c) fun a c₁ => .ok (g a c₁.next, ⟨c₁.tokens, h c₁.next⟩)) c where
  ok := fun b c' hok => by
    cases hpc : p c with
    | error e =>
      rw [hpc] at hok
      cases hok
    | ok r =>
      obtain ⟨a, c₁⟩ := r
      rw [hpc] at hok
      cases hok
      obtain ⟨u, hu, hclosed, heof, hrerun⟩ := hp.ok a c₁ hpc
      refine ⟨u, hu, hclosed, heof, fun y hy => ?_⟩
      rw [hrerun y hy]
      rfl
  error := fun e herr => by
    cases hpc : p c with
    | error e' =>
      rw [hpc] at herr
      cases herr
      obtain ⟨u, x, m, cause, hu, heof, he, hrerun⟩ := hp.error e hpc
      refine ⟨u, x, m, cause, hu, heof, he, fun y hy => ?_⟩
      obtain ⟨e', he'⟩ := hrerun y hy
      exact ⟨e', by rw [he']; rfl⟩
    | ok r =>
      rw [hpc] at herr
      cases herr

theorem value (hp : LocalAt k p c) (g : α → β) :
    LocalAt k (fun c => Outcome.andThen (p c) fun a c₁ => .ok (g a, c₁)) c :=
  hp.map (fun a _ => g a) id

/-- Identities that are taken before reading goes on. -/
theorem fresh {g : NodeId → Cursor → Outcome α} {h : NodeId → NodeId}
    (hg : LocalAt k (g c.next) ⟨c.tokens, h c.next⟩) :
    LocalAt k (fun c => g c.next ⟨c.tokens, h c.next⟩) c :=
  ⟨hg.ok, hg.error⟩

theorem toHead (h : LocalAt .closed f c) : LocalAt .head f c where
  ok := fun a c' hok => by
    obtain ⟨u, hu, -, heof, hrerun⟩ := h.ok a c' hok
    exact ⟨u, hu, nofun, heof, fun y _ => hrerun y trivial⟩
  error := h.error

theorem toPair (h : LocalAt .head f c) : LocalAt .pair f c where
  ok := fun a c' hok => by
    obtain ⟨u, hu, -, heof, hrerun⟩ := h.ok a c' hok
    exact ⟨u, hu, nofun, heof, fun y hy => hrerun y (SamePair.head hy)⟩
  error := h.error

/-- **A routine that takes a token** goes on as its kind says. -/
theorem take {g : Located → Cursor → Outcome α} (heof : c.kind ≠ .eof)
    (h : ∀ t l n, t.kind = c.kind → f ⟨t :: l, n⟩ = g t ⟨l, n⟩)
    (hg : ∀ t l, t.kind = c.kind → Cursor.left ⟨l, c.next⟩ < c.left →
      LocalAt k (g t) ⟨l, c.next⟩) : LocalAt k f c := by
  obtain ⟨_ | ⟨t, l⟩, next⟩ := c
  · exact absurd rfl heof
  · exact cons (fun l => h t l next rfl) heof (hg t l rfl (Nat.lt_succ_self _))

/-- An optional token. -/
theorem opt {kind : Kind} {yes : Pos → Cursor → Outcome α} {no : Cursor → Outcome α}
    (hkind : kind ≠ .eof)
    (hyes : ∀ pos l, Cursor.left ⟨l, c.next⟩ < c.left → LocalAt k (yes pos) ⟨l, c.next⟩)
    (hno : c.kind ≠ kind → LocalAt k no c) : LocalAt k (Cursor.opt kind yes no) c := by
  by_cases hc : c.kind = kind
  · exact take (g := fun t c => yes t.pos c) (hc ▸ hkind) (fun t l n ht => opt_cons (ht.trans hc))
      fun t l _ hlt => hyes t.pos l hlt
  · exact congr (fun c' hc' => opt_of_ne (hc' ▸ hc)) (hno hc)

/-- A token that closes, or something else. -/
theorem opt_closed {kind : Kind} {a : α} {no : Cursor → Outcome α} (hkind : kind ≠ .eof)
    (hno : c.kind ≠ kind → LocalAt .closed no c) :
    LocalAt .closed (Cursor.opt kind (fun _ c => .ok (a, c)) no) c := by
  by_cases hc : c.kind = kind
  · obtain ⟨_ | ⟨t, l⟩, next⟩ := c
    · exact absurd hc.symm hkind
    · have ht : t.kind = kind := hc
      exact token (fun l => opt_cons ht) (ht ▸ hkind)
  · exact congr (fun c' hc' => opt_of_ne (hc' ▸ hc)) (hno hc)

/-- The position of the first token, which is taken. -/
theorem placed {f : Cursor → Outcome (Pos → α)} (h : LocalAt .closed f c) :
    LocalAt .closed (placed f) c where
  ok := fun b c' hok => by
    unfold Source.placed at hok
    cases hfc : f c with
    | error e =>
      rw [hfc] at hok
      cases hok
    | ok r =>
      obtain ⟨a, c₁⟩ := r
      rw [hfc] at hok
      obtain ⟨rfl, rfl⟩ := Prod.mk.inj (Except.ok.inj hok)
      obtain ⟨u, hu, hclosed, heof, hrerun⟩ := h.ok a c₁ hfc
      refine ⟨u, hu, hclosed, heof, fun y hy => ?_⟩
      have hpos : Cursor.pos ⟨u ++ y, c.next⟩ = c.pos := by
        obtain ⟨tokens, next⟩ := c
        obtain rfl : tokens = _ := hu
        cases u with
        | nil => exact absurd rfl (hclosed rfl)
        | cons t u => rfl
      unfold Source.placed
      rw [hrerun y hy]
      exact congrArg (fun p => Except.ok (a p, Cursor.mk y c₁.next)) hpos
  error := fun e herr => by
    unfold Source.placed at herr
    cases hfc : f c with
    | error e' =>
      rw [hfc] at herr
      cases herr
      obtain ⟨u, x, m, cause, hu, heof, he, hrerun⟩ := h.error e hfc
      refine ⟨u, x, m, cause, hu, heof, he, fun y hy => ?_⟩
      obtain ⟨e', he'⟩ := hrerun y hy
      exact ⟨e', by rw [Source.placed, he']; rfl⟩
    | ok r =>
      rw [hfc] at herr
      cases herr

end LocalAt

end

/-! ## Tokens and types -/

section

variable {c : Cursor}

theorem local_expect (kind : Kind) (hkind : kind ≠ .eof) (c : Cursor) :
    LocalAt .closed (fun c => (c.expect kind).outcome) c := by
  by_cases hc : c.kind = kind
  · obtain ⟨_ | ⟨t, l⟩, next⟩ := c
    · exact absurd hc.symm hkind
    · have ht : t.kind = kind := hc
      exact .token (fun l => outcome_expect_cons ht) (ht ▸ hkind)
  · exact .fail (outcome_expect_of_ne hc) fun c' hc' => ⟨_, outcome_expect_of_ne (hc' ▸ hc)⟩

theorem local_symbol (s : Symbol) (c : Cursor) :
    LocalAt .closed (fun c => (c.expect (.symbol s)).outcome) c :=
  local_expect (.symbol s) nofun c

theorem local_ident (c : Cursor) : LocalAt .closed (fun c => c.ident.outcome) c := by
  by_cases hc : ∃ name, c.kind = .ident name
  · obtain ⟨name, hc⟩ := hc
    obtain ⟨_ | ⟨t, l⟩, next⟩ := c
    · cases hc
    · have ht : t.kind = .ident name := hc
      exact .token (fun l => outcome_ident_cons ht) (by rw [ht]; nofun)
  · have hc : ∀ name, c.kind ≠ .ident name := fun name h => hc ⟨name, h⟩
    exact .fail (outcome_ident_of_ne hc) fun c' hc' => ⟨_, outcome_ident_of_ne (hc' ▸ hc)⟩

theorem local_parseBaseType (c : Cursor) : LocalAt .closed (fun c => (parseBaseType c).outcome) c := by
  cases hc : TypeExpr.ofKind? c.kind with
  | some ty =>
    obtain ⟨_ | ⟨t, l⟩, next⟩ := c
    · cases hc
    · have ht : TypeExpr.ofKind? t.kind = some ty := hc
      exact .token (fun l => outcome_parseBaseType_cons ht) fun heof => by rw [heof] at ht; cases ht
  | none =>
    exact .fail (outcome_parseBaseType_of_none hc) fun c' hc' =>
      ⟨_, outcome_parseBaseType_of_none (hc' ▸ hc)⟩

theorem bracketPairs_eq_self {ts : List Located} (ty : TypeExpr)
    (h : Cursor.kind ⟨ts, 0⟩ = .symbol .lbracket → Cursor.kind₁ ⟨ts, 0⟩ ≠ .symbol .rbracket) :
    bracketPairs ty ts = (ty, ts) := by
  unfold bracketPairs
  split
  next t v rest => exact if_neg fun hpair => h hpair.1 hpair.2
  next => rfl

/-- No bracket pair stands where one looks alike that is none. -/
theorem SamePair.not_pair {x y : List Located} (h : SamePair x y)
    (hx : Cursor.kind ⟨x, 0⟩ = .symbol .lbracket → Cursor.kind₁ ⟨x, 0⟩ ≠ .symbol .rbracket)
    (hy : Cursor.kind ⟨y, 0⟩ = .symbol .lbracket) : Cursor.kind₁ ⟨y, 0⟩ ≠ .symbol .rbracket :=
  have hhead : Cursor.kind ⟨x, 0⟩ = .symbol .lbracket := h.head.trans hy
  fun hpair => hx hhead ((h.pair hhead).2 hpair)

/-- Bracket pairs end where no pair stands. -/
theorem bracketPairs_append (ty : TypeExpr) (ts : List Located) : ∃ u,
    ts = u ++ (bracketPairs ty ts).2 ∧ (∀ t ∈ u, t.kind ≠ .eof) ∧
    ∀ y, SamePair (bracketPairs ty ts).2 y →
      bracketPairs ty (u ++ y) = ((bracketPairs ty ts).1, y) := by
  fun_induction bracketPairs ty ts with
  | case1 ty t v rest h ih =>
    obtain ⟨u, hu, heof, hrerun⟩ := ih
    refine ⟨t :: v :: u, ?_, ?_, fun y hy => ?_⟩
    · exact congrArg (fun l => t :: v :: l) hu
    · exact List.forall_mem_cons.2
        ⟨by simp [h.1], List.forall_mem_cons.2 ⟨by simp [h.2], heof⟩⟩
    · rw [List.cons_append, List.cons_append, bracketPairs, if_pos h]
      exact hrerun y hy
  | case2 ty t v rest h =>
    refine ⟨[], rfl, List.forall_mem_nil _, fun y hy => bracketPairs_eq_self ty (hy.not_pair ?_)⟩
    exact fun ht hv => h ⟨ht, hv⟩
  | case3 ty ts hts =>
    refine ⟨[], rfl, List.forall_mem_nil _, fun y hy => bracketPairs_eq_self ty (hy.not_pair ?_)⟩
    rcases ts with _ | ⟨t, _ | ⟨v, rest⟩⟩
    · intro h
      cases h
    · intro _ h
      cases h
    · exact absurd rfl (hts t v rest)

theorem local_brackets (ty : TypeExpr) (c : Cursor) : LocalAt .pair
    (fun c => .ok ((parseBrackets ty c).value, (parseBrackets ty c).cursor)) c where
  ok := fun a c' hok => by
    obtain ⟨rfl, rfl⟩ := Prod.mk.inj (Except.ok.inj hok)
    obtain ⟨u, hu, heof, hrerun⟩ := bracketPairs_append ty c.tokens
    refine ⟨u, hu, nofun, heof, fun y hy => ?_⟩
    have hpairs := hrerun y hy
    show Except.ok ((bracketPairs ty (u ++ y)).1, Cursor.mk (bracketPairs ty (u ++ y)).2 c.next) = _
    rw [hpairs]
    rfl
  error := fun e herr => nomatch herr

theorem local_parseType (c : Cursor) : LocalAt .pair (fun c => (parseType c).outcome) c :=
  .congr (fun c _ => outcome_parseType c)
    (.andThen (by decide) (local_parseBaseType c) fun ty c₁ _ => local_brackets ty c₁)

theorem endsType_base (ty : TypeExpr) : endsType ty.base = true := by
  induction ty with
  | array elem ih => exact ih
  | _ => rfl

/-- A type ends behind its tokens. -/
theorem TypeExpr.behindType (ty : TypeExpr) : BehindType ty.kinds := by
  obtain ⟨n, elem, hpairs, rfl⟩ := ty.exists_arrays
  cases n with
  | zero =>
    have hbase : (arrays 0 elem).kinds = [elem.base] := by rw [arrays, kinds, hpairs]
    exact ⟨elem.base, by rw [hbase]; rfl, endsType_base elem⟩
  | succ n =>
    refine ⟨.symbol .rbracket, ?_, rfl⟩
    have hlast : ∀ n, (brackets (n + 1)).getLast? = some (.symbol .rbracket) := by
      intro n
      induction n with
      | zero => rfl
      | succ n ih => rw [brackets, List.getLast?_cons_cons, List.getLast?_cons, ih]; rfl
    rw [kinds, pairs_arrays, hpairs, List.append_nil, List.getLast?_cons, hlast]
    rfl

theorem kind_eq_of_tokens {c : Cursor} {ts : List Located} (h : c.tokens = ts) :
    c.kind = Cursor.kind ⟨ts, 0⟩ := by
  obtain ⟨tokens, next⟩ := c
  obtain rfl := h
  rfl

/-- A name behind an identity that is taken for it. -/
theorem local_ident_fresh {α : Type} (g : NodeId → String × Pos → α) (c : Cursor) :
    LocalAt .closed (fun c => Outcome.andThen (Cursor.ident ⟨c.tokens, c.next + 1⟩).outcome
      fun r c₁ => .ok (g c.next r, c₁)) c :=
  .fresh (g := fun id c => Outcome.andThen c.ident.outcome fun r c₁ => .ok (g id r, c₁))
    (h := (· + 1)) ((local_ident _).value _)

theorem cause_fail {c : Cursor} (h : ∀ fault, c.kind ≠ .invalid fault) (cause : ParseCause) :
    (c.fail cause).cause = cause := by
  obtain ⟨_ | ⟨⟨⟨kind, span⟩, pos⟩, rest⟩, next⟩ := c
  · rfl
  · cases kind with
    | invalid fault => exact absurd rfl (h fault)
    | _ => rfl

/-- The tokens that were taken for a phrase. -/
theorem kinds_of_took {c c' : Cursor} {u : List Located} {w : List Kind} (h : c.Took w c')
    (hu : c.tokens = u ++ c'.tokens) : u.map (·.kind) = w := by
  unfold Cursor.Took Cursor.kinds at h
  rw [hu, List.map_append] at h
  exact List.append_cancel_right h

/-- **A declared variable** is closed by its name: only where a bracket stands
instead it matters what follows. -/
theorem local_parseVarDecl (c : Cursor) : LocalAt .closed (fun c => (parseVarDecl c).outcome) c := by
  refine .congr (fun c _ => outcome_parseVarDecl c) ((local_parseType c).andThen_of
    (fun ty c₁ _ => local_ident_fresh (fun id r => (⟨id, ty, r.1, some r.2⟩ : VarDecl)) c₁)
    (fun ty c₁ var c' u y _ hname hu hclosed _ => ?_)
    fun ty c₁ e v u x y htype hv hname hu _ hy => ?_)
  · have hne : c₁.kind ≠ .symbol .lbracket := by
      intro hc₁
      rw [outcome_ident_of_ne (c := ⟨c₁.tokens, c₁.next + 1⟩) fun name h => nomatch hc₁.symm.trans h]
        at hname
      cases hname
    have hhead : SameHead c₁.tokens (u ++ y) := hu ▸ sameHead_of_ne_nil (hclosed rfl) _ _
    exact hhead.samePair hne
  · have hhead : SameHead c₁.tokens (u ++ y) := hu ▸ hy.head.append u
    by_cases hc₁ : c₁.kind = .symbol .lbracket
    · cases u with
      | cons t u => exact hu ▸ hy.head.samePair_append (List.cons_ne_nil _ _)
      | nil =>
        -- The bracket stands where the name is missing, behind the type.
        rw [outcome_ident_of_ne (c := ⟨c₁.tokens, c₁.next + 1⟩) fun name h => nomatch hc₁.symm.trans h]
          at hname
        obtain rfl := Except.error.inj hname
        rw [List.append_nil] at hy
        have hcause : (Cursor.expected ⟨c₁.tokens, c₁.next + 1⟩ .identifier).cause =
            .expected .identifier (.symbol .lbracket) := by
          rw [Cursor.expected,
            cause_fail (c := ⟨c₁.tokens, c₁.next + 1⟩) fun fault h => nomatch hc₁.symm.trans h]
          exact congrArg _ hc₁
        have htook : c.Took ty.kinds c₁ :=
          all_of_outcome (P := fun ty c' => c.Took ty.kinds c') (took_parseType c) htype
        have hbehind : BehindType (v.map (·.kind)) := kinds_of_took htook hv ▸ ty.behindType
        rw [show c₁.tokens = x from hu]
        exact hy.pair ⟨hcause, hbehind⟩
    · exact hhead.samePair hc₁

end

end ClassLang.Source
