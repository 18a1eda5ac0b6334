import ClassLang.Proofs.Source.Rounds
/-!
# Source — what attempts come to

In front of tokens that end with their only end of file, `Attempt.Comes` says what an
attempt comes to and that it has moved over tokens, never over the end of the file;
there is one rule for each way that attempts are put together. A round (`Attempt.Turns`)
has moved on if another one follows it, so that a loop ends within as many rounds as
there are tokens left (`Attempt.Comes.loop`).
-/


namespace ClassLang.Source

open Token (Kind)

namespace Cursor

/-- The last token is the end of the file, and no other one is. -/
def Ending (c : Cursor) : Prop :=
  ∃ front last, c.tokens = front ++ [last] ∧ last.kind = .eof ∧ ∀ t ∈ front, t.kind ≠ .eof

/-- The cursor gets to the other one over tokens none of which is the end of the
file. -/
def Reaches (c c' : Cursor) : Prop :=
  ∃ u, c.tokens = u ++ c'.tokens ∧ ∀ t ∈ u, t.kind ≠ .eof

variable {c c₁ c₂ : Cursor} {t : Located} {l : List Located} {n : NodeId}

theorem Reaches.refl (c : Cursor) : c.Reaches c := ⟨[], rfl, List.forall_mem_nil _⟩

theorem Reaches.trans (h : c.Reaches c₁) (h' : c₁.Reaches c₂) : c.Reaches c₂ := by
  obtain ⟨u, hu, heof⟩ := h
  obtain ⟨v, hv, heof'⟩ := h'
  exact ⟨u ++ v, by rw [hu, hv, List.append_assoc], List.forall_mem_append.2 ⟨heof, heof'⟩⟩

theorem Reaches.left_le (h : c.Reaches c₁) : c₁.left ≤ c.left := by
  obtain ⟨u, hu, -⟩ := h
  rw [left, left, hu, List.length_append]
  omega

/-- What counts are the tokens. -/
theorem Reaches.of_tokens {c' : Cursor} (h : c.Reaches c₁) (hc : c'.tokens = c₁.tokens) :
    c.Reaches c' := by
  obtain ⟨u, hu, heof⟩ := h
  exact ⟨u, by rw [hu, hc], heof⟩

/-- The end of the file is not left behind. -/
theorem Ending.of_reaches (h : c.Ending) (hr : c.Reaches c₁) : c₁.Ending := by
  obtain ⟨front, last, hfront, hlast, heof⟩ := h
  obtain ⟨u, hu, hnone⟩ := hr
  rcases List.append_eq_append_iff.1 (hu.symm.trans hfront) with ⟨v, hv, htokens⟩ | ⟨v, hv, hrest⟩
  · exact ⟨v, last, htokens, hlast, fun t ht => heof t (hv ▸ List.mem_append_right u ht)⟩
  · cases v with
    | nil => exact ⟨[], last, hrest.symm, hlast, List.forall_mem_nil _⟩
    | cons t v =>
      -- The end of the file would be among the tokens on the way.
      have ht : last = t := by
        simpa using congrArg List.head? hrest
      exact absurd hlast (hnone last (hv ▸ by simp [ht]))

theorem Ending.left_pos (h : c.Ending) : 0 < c.left := by
  obtain ⟨front, last, hfront, -⟩ := h
  rw [left, hfront, List.length_append, List.length_singleton]
  omega

/-- A token of a kind other than the end of the file is there. -/
theorem exists_cons {k : Kind} (h : c.kind = k) (hk : k ≠ .eof) :
    ∃ t l n, c = ⟨t :: l, n⟩ ∧ t.kind = k ∧ t.kind ≠ .eof := by
  obtain ⟨_ | ⟨t, l⟩, n⟩ := c
  · exact absurd h.symm hk
  · exact ⟨t, l, n, rfl, h, fun heof => hk (h.symm.trans heof)⟩

/-- A token that is not the end of the file has another one behind it. -/
theorem Ending.tail (h : Ending ⟨t :: l, n⟩) (ht : t.kind ≠ .eof) : Ending ⟨l, n⟩ :=
  h.of_reaches ⟨[t], rfl, List.forall_mem_singleton.2 ht⟩

/-- **A move** gets behind a token that is not the end of the file. -/
theorem bump_cons (h : Ending ⟨t :: l, n⟩) (ht : t.kind ≠ .eof) : bump ⟨t :: l, n⟩ = ⟨l, n⟩ := by
  cases l with
  | nil => exact absurd (h.tail ht).left_pos (Nat.lt_irrefl 0)
  | cons u l => rfl

/-- At the end of the file a move does nothing. -/
theorem bump_eof (h : c.Ending) (heof : c.kind = .eof) : c.bump = c := by
  obtain ⟨front, last, hfront, -, hnone⟩ := h
  obtain ⟨tokens, next⟩ := c
  obtain rfl : tokens = front ++ [last] := hfront
  cases front with
  | nil => rfl
  | cons t front => exact absurd heof (hnone t (List.mem_cons_self ..))

/-- The tokens end with their only end of file, and so many of them are left at most. -/
structure Within (c : Cursor) (most : Nat) : Prop where
  ending : c.Ending
  left_le : c.left ≤ most

theorem Within.of_reaches {most : Nat} (h : c.Within most) (hr : c.Reaches c₁) : c₁.Within most :=
  ⟨h.ending.of_reaches hr, Nat.le_trans hr.left_le h.left_le⟩

/-- Behind a token there is one token less. -/
theorem Within.behind {most : Nat} (h : c.Within (most + 1)) (hr : c.Reaches c₁)
    (hlt : c₁.left < c.left) : c₁.Within most :=
  ⟨h.ending.of_reaches hr, Nat.le_of_lt_succ (Nat.lt_of_lt_of_le hlt h.left_le)⟩

theorem Within.tail {most : Nat} (h : Within ⟨t :: l, n⟩ (most + 1)) (ht : t.kind ≠ .eof) :
    Within ⟨l, n⟩ most := ⟨h.ending.tail ht, Nat.le_of_succ_le_succ h.left_le⟩

theorem Within.succ {most : Nat} (h : c.Within most) : c.Within (most + 1) :=
  ⟨h.ending, Nat.le_succ_of_le h.left_le⟩

/-- A move goes on, and never behind the end of the file. -/
theorem reaches_bump (h : c.Ending) : c.Reaches c.bump := by
  obtain ⟨_ | ⟨t, l⟩, n⟩ := c
  · exact .refl _
  · by_cases ht : t.kind = .eof
    · rw [bump_eof h ht]
      exact .refl _
    · rw [bump_cons h ht]
      exact ⟨[t], rfl, List.forall_mem_singleton.2 ht⟩

end Cursor

/-- Nothing is done behind the value. -/
theorem Outcome.andThen_ok {α : Type} (o : Outcome α) :
    Outcome.andThen o (fun a c => .ok (a, c)) = o := by
  cases o with
  | error e => rfl
  | ok r => rfl

/-! ## What attempts come to -/

namespace Attempt

section

variable {α β σ : Type} {x : Attempt α} {f : α → Attempt β} {c c₁ : Cursor} {a : α}
variable {o : Outcome α} {o' : Outcome β} {t : Located} {l : List Located} {n : NodeId}

theorem outcome?_bind_ok (h : x.outcome? c = some (.ok (a, c₁))) :
    (x >>= f).outcome? c = (f a).outcome? c₁ := by
  unfold outcome? at h ⊢
  rw [StateT.run_bind, ExceptT.run_bind, h]
  rfl

theorem outcome?_bind_error {e : ParseError} (h : x.outcome? c = some (.error e)) :
    (x >>= f).outcome? c = some (.error e) := by
  unfold outcome? at h ⊢
  rw [StateT.run_bind, ExceptT.run_bind, h]
  rfl

/-- The attempt comes to the outcome. Where it succeeds it has moved on, and where it
fails the error is at a token that it has got to. -/
structure Comes (x : Attempt α) (c : Cursor) (o : Outcome α) : Prop where
  outcome : x.outcome? c = some o
  ahead : ∀ a c', o = .ok (a, c') → c.Reaches c'
  fails : ∀ e, o = .error e → ∃ c' cause, c.Reaches c' ∧ e = c'.fail cause

namespace Comes

theorem congr (h : Comes x c o) {o₁ : Outcome α} (heq : o = o₁) : Comes x c o₁ := heq ▸ h

/-- What comes behind tokens that were moved over. -/
theorem moved {y : Attempt α} (h : Comes x c₁ o) (hr : c.Reaches c₁)
    (hy : y.outcome? c = x.outcome? c₁) : Comes y c o where
  outcome := hy.trans h.outcome
  ahead := fun a c' heq => hr.trans (h.ahead a c' heq)
  fails := fun e heq => by
    obtain ⟨c', cause, hr', he⟩ := h.fails e heq
    exact ⟨c', cause, hr.trans hr', he⟩

theorem pure (a : α) (c : Cursor) : Comes (Pure.pure a) c (.ok (a, c)) where
  outcome := rfl
  ahead := fun b c' heq => by
    obtain ⟨-, rfl⟩ := Prod.mk.inj (Except.ok.inj heq)
    exact .refl c
  fails := fun e heq => by cases heq

theorem fail (c : Cursor) (cause : ParseCause) :
    Comes (throw (c.fail cause) : Attempt α) c (.error (c.fail cause)) where
  outcome := rfl
  ahead := fun b c' heq => by cases heq
  fails := fun e heq => ⟨c, cause, .refl c, (Except.error.inj heq).symm⟩

/-- **Attempts in turn** come to the outcomes in turn. -/
theorem bind {k : α → Cursor → Outcome β} (hx : Comes x c o)
    (hf : ∀ a c₁, o = .ok (a, c₁) → c.Reaches c₁ → Comes (f a) c₁ (k a c₁)) :
    Comes (x >>= f) c (Outcome.andThen o k) := by
  cases o with
  | error e =>
    refine ⟨outcome?_bind_error hx.outcome, fun a c' heq => (by cases heq), fun e' heq => ?_⟩
    obtain rfl : e = e' := Except.error.inj heq
    exact hx.fails e rfl
  | ok r =>
    obtain ⟨a, c₁⟩ := r
    have hr := hx.ahead a c₁ rfl
    exact (hf a c₁ rfl hr).moved hr (outcome?_bind_ok hx.outcome)

/-- What an observer of an attempt comes to: the outcome as a value. After an error
nothing has moved. -/
def observed (o : Outcome α) (c : Cursor) : Except ParseError α × Cursor :=
  match o with
  | .ok (a, c') => (.ok a, c')
  | .error e => (.error e, c)

theorem observe (hx : Comes x c o) : Comes (Attempt.observe x) c (.ok (observed o c)) where
  outcome := by
    unfold Attempt.observe
    show Option.map _ (x.outcome? c) = _
    rw [hx.outcome]
    cases o with
    | error e => rfl
    | ok r => rfl
  ahead := fun a c' heq => by
    cases o with
    | error e =>
      obtain ⟨-, rfl⟩ := Prod.mk.inj (Except.ok.inj heq)
      exact .refl c
    | ok r =>
      obtain ⟨-, rfl⟩ := Prod.mk.inj (Except.ok.inj heq)
      exact hx.ahead r.1 r.2 rfl
  fails := fun e heq => by cases heq

/-- A value that is made of what an attempt comes to. -/
theorem map {g : α → β} (hx : Comes x c o) :
    Comes (do let a ← x; return g a) c (Outcome.andThen o fun a c₁ => .ok (g a, c₁)) :=
  hx.bind fun a c₁ _ _ => .pure (g a) c₁

theorem get {f : Cursor → Attempt β} (h : Comes (f c) c o') :
    Comes (MonadState.get >>= f) c o' := h.moved (.refl c) rfl

/-- A token that is moved over. -/
theorem bump {f : Pos → Attempt β} (hc : Cursor.Ending ⟨t :: l, n⟩) (ht : t.kind ≠ .eof)
    (h : Comes (f t.pos) ⟨l, n⟩ o') : Comes (Attempt.bump >>= f) ⟨t :: l, n⟩ o' := by
  refine h.moved ⟨[t], rfl, List.forall_mem_singleton.2 ht⟩ (outcome?_bind_ok ?_)
  rw [← Cursor.bump_cons hc ht]
  rfl

/-- An identity that is given. -/
theorem node {γ : Type} {g : NodeId → γ} {f : γ → Attempt β}
    (h : Comes (f (g c.next)) ⟨c.tokens, c.next + 1⟩ o') : Comes (Attempt.node g >>= f) c o' :=
  h.moved ⟨[], rfl, List.forall_mem_nil _⟩ rfl

theorem node_last (g : NodeId → α) (c : Cursor) :
    Comes (Attempt.node g) c (.ok (g c.next, ⟨c.tokens, c.next + 1⟩)) where
  outcome := rfl
  ahead := fun a c' heq => by
    obtain ⟨-, rfl⟩ := Prod.mk.inj (Except.ok.inj heq)
    exact ⟨[], rfl, List.forall_mem_nil _⟩
  fails := fun e heq => by cases heq

theorem bump_last (hc : Cursor.Ending ⟨t :: l, n⟩) (ht : t.kind ≠ .eof) :
    Comes Attempt.bump ⟨t :: l, n⟩ (.ok (t.pos, ⟨l, n⟩)) := by
  have h := bump (f := Pure.pure) hc ht (.pure t.pos ⟨l, n⟩)
  rwa [bind_pure] at h

/-- What follows an attempt that succeeds. -/
theorem behind (hx : Comes x c (.ok (a, c₁))) (h : c.Reaches c₁ → Comes (f a) c₁ o') :
    Comes (x >>= f) c o' := by
  have hr := hx.ahead a c₁ rfl
  exact (h hr).moved hr (outcome?_bind_ok hx.outcome)

/-- One of two attempts, by a test. -/
theorem ite {P : Prop} [Decidable P] {y : Attempt α} {o₁ : Outcome α} (hx : P → Comes x c o)
    (hy : ¬P → Comes y c o₁) : Comes (if P then x else y) c (if P then o else o₁) := by
  by_cases h : P
  · rw [if_pos h, if_pos h]
    exact hx h
  · rw [if_neg h, if_neg h]
    exact hy h

/-- A token that is moved over if it is of the kind. -/
theorem eat {kind : Kind} {f : Bool → Attempt β} {yes : Pos → Cursor → Outcome β}
    {no : Cursor → Outcome β} (hc : c.Ending) (hkind : kind ≠ .eof)
    (hyes : ∀ t l, c = ⟨t :: l, c.next⟩ → t.kind ≠ .eof →
      Comes (f true) ⟨l, c.next⟩ (yes t.pos ⟨l, c.next⟩))
    (hno : Comes (f false) c (no c)) :
    Comes (Attempt.eat kind >>= f) c (c.opt kind yes no) := by
  by_cases h : c.kind = kind
  · obtain ⟨t, l, n, rfl, ht, hne⟩ := Cursor.exists_cons h hkind
    rw [opt_cons ht]
    have heat : Comes (Attempt.eat kind) ⟨t :: l, n⟩ (.ok (true, ⟨l, n⟩)) := by
      refine .get ?_
      rw [if_pos h]
      exact .bump hc hne (.pure true ⟨l, n⟩)
    exact heat.behind fun _ => hyes t l rfl hne
  · rw [opt_of_ne h]
    have heat : Comes (Attempt.eat kind) c (.ok (false, c)) := by
      refine .get ?_
      rw [if_neg h]
      exact .pure false c
    exact heat.behind fun _ => hno

end Comes

/-! ## Rounds and loops -/

/-- What is read behind a round: from the state of the next round, or from the value
that the loop is left with. -/
def Round.behind (next : σ → Cursor → Outcome β) (last : α → Cursor → Outcome β) :
    Round σ α → Cursor → Outcome β
  | .again state => next state
  | .leave a => last a

/-- **A round comes to the outcome**, and where another one follows it has moved on. -/
structure Turns (x : Attempt (Round σ α)) (c : Cursor) (o : Outcome (Round σ α)) : Prop
    extends Comes x c o where
  moves : ∀ state c', o = .ok (.again state, c') → c'.left < c.left

namespace Turns

theorem leave (a : α) (c : Cursor) :
    Turns (Pure.pure (Round.leave a) : Attempt (Round σ α)) c (.ok (.leave a, c)) :=
  ⟨.pure _ c, fun state c' heq => by cases heq⟩

theorem fail (c : Cursor) (cause : ParseCause) :
    Turns (throw (c.fail cause) : Attempt (Round σ α)) c (.error (c.fail cause)) :=
  ⟨.fail c cause, fun state c' heq => by cases heq⟩

theorem get {f : Cursor → Attempt (Round σ α)} {o : Outcome (Round σ α)} (h : Turns (f c) c o) :
    Turns (MonadState.get >>= f) c o := ⟨.get h.toComes, h.moves⟩

/-- One of two rounds, by a test. -/
theorem ite {P : Prop} [Decidable P] {x y : Attempt (Round σ α)} {o o₁ : Outcome (Round σ α)}
    (hx : P → Turns x c o) (hy : ¬P → Turns y c o₁) :
    Turns (if P then x else y) c (if P then o else o₁) := by
  by_cases h : P
  · rw [if_pos h, if_pos h]
    exact hx h
  · rw [if_neg h, if_neg h]
    exact hy h

/-- A round that moves over a token. -/
theorem bump {f : Pos → Attempt (Round σ α)} {o : Outcome (Round σ α)}
    (hc : Cursor.Ending ⟨t :: l, n⟩) (ht : t.kind ≠ .eof) (h : Comes (f t.pos) ⟨l, n⟩ o) :
    Turns (Attempt.bump >>= f) ⟨t :: l, n⟩ o :=
  ⟨.bump hc ht h, fun _ c' heq => Nat.lt_succ_of_le (h.ahead _ c' heq).left_le⟩

/-- A round that starts with an attempt that moves on. -/
theorem bind {f : α → Attempt (Round σ β)} {k : α → Cursor → Outcome (Round σ β)}
    (hx : Comes x c o) (hlt : ∀ a c₁, o = .ok (a, c₁) → c₁.left < c.left)
    (hf : ∀ a c₁, o = .ok (a, c₁) → c.Reaches c₁ → Comes (f a) c₁ (k a c₁)) :
    Turns (x >>= f) c (Outcome.andThen o k) := by
  refine ⟨hx.bind hf, fun state c' heq => ?_⟩
  obtain ⟨a, c₁, ho, hk⟩ := Outcome.andThen_eq_ok heq
  have hlt₁ := hlt a c₁ ho
  have hle := ((hf a c₁ ho (hx.ahead a c₁ ho)).ahead _ c' hk).left_le
  omega

end Turns

/-- **A loop ends** within as many rounds as there are tokens left, because every round
but the last one moves on. -/
theorem Comes.loop {round : σ → Attempt (Round σ α)} {k : α → Attempt β} {most : Nat}
    (next : σ → Cursor → Outcome β) (last : α → Cursor → Outcome β)
    (hround : ∀ state c, c.Within most → ∃ o, Turns (round state) c o ∧
      next state c = Outcome.andThen o (Round.behind next last))
    (hlast : ∀ a c, c.Within most → Comes (k a) c (last a c))
    {bound : Nat} {state : σ} {c : Cursor} (hc : c.Within most) (hbound : c.left ≤ bound) :
    Comes (Attempt.loop round bound state >>= k) c (next state c) := by
  induction bound generalizing state c with
  | zero => exact absurd hc.ending.left_pos (Nat.not_lt.2 hbound)
  | succ bound ih =>
    obtain ⟨o, hturns, heq⟩ := hround state c hc
    rw [Attempt.loop, bind_assoc]
    refine (hturns.toComes.bind fun r c₁ ho hr => ?_).congr heq.symm
    cases r with
    | again state =>
      have hlt := hturns.moves state c₁ ho
      exact ih (hc.of_reaches hr) (by omega)
    | leave a =>
      rw [pure_bind]
      exact hlast a c₁ (hc.of_reaches hr)

/-- A loop that nothing follows. -/
theorem Comes.loop_last {round : σ → Attempt (Round σ α)} {next : σ → Cursor → Outcome α}
    {most : Nat} (hround : ∀ state c, c.Within most → ∃ o, Turns (round state) c o ∧
      next state c = Outcome.andThen o (Round.behind next fun a c => .ok (a, c)))
    {bound : Nat} (state : σ) {c : Cursor} (hc : c.Within most) (hbound : c.left ≤ bound) :
    Comes (Attempt.loop round bound state) c (next state c) := by
  rw [← bind_pure (Attempt.loop round bound state)]
  exact .loop next (fun a c => .ok (a, c)) hround (fun a c _ => .pure a c) hc hbound

/-! ## Tokens -/

theorem comes_bump (hc : c.Ending) : Comes bump c (.ok (c.pos, c.bump)) where
  outcome := rfl
  ahead := fun a c' heq => by
    obtain ⟨-, rfl⟩ := Prod.mk.inj (Except.ok.inj heq)
    exact Cursor.reaches_bump hc
  fails := fun e heq => by cases heq

theorem comes_expect {kind : Kind} (hc : c.Ending) (hkind : kind ≠ .eof) :
    Comes (expect kind) c (c.expect kind).outcome := by
  refine .get ?_
  by_cases h : c.kind = kind
  · rw [if_pos h]
    obtain ⟨t, l, n, rfl, ht, hne⟩ := Cursor.exists_cons h hkind
    rw [outcome_expect_cons ht]
    exact .bump_last hc hne
  · rw [if_neg h, outcome_expect_of_ne h]
    exact .fail c _

theorem comes_ident (hc : c.Ending) : Comes ident c c.ident.outcome := by
  refine .get ?_
  split
  next name h =>
    obtain ⟨t, l, n, rfl, ht, hne⟩ := Cursor.exists_cons h (by simp)
    rw [outcome_ident_cons ht]
    exact .bump hc hne (.pure (name, t.pos) ⟨l, n⟩)
  next h =>
    rw [outcome_ident_of_ne h]
    exact .fail c _

/-! ## Lists -/

/-- The attempt comes to what is read, at cursors with so many tokens left at most, and
what is read takes a token at least. -/
structure Follows (x : Attempt α) (p : Cursor → Outcome α) (most : Nat) : Prop where
  comes : ∀ c, c.Within most → Comes x c (p c)
  lt : ∀ c a c', p c = .ok (a, c') → c'.left < c.left

theorem Follows.mono {p : Cursor → Outcome α} {most n : Nat} (h : Follows x p most)
    (hn : n ≤ most) : Follows x p n :=
  ⟨fun c hc => h.comes c ⟨hc.ending, Nat.le_trans hc.left_le hn⟩, h.lt⟩

section

variable {p : Cursor → Outcome α} {list : Cursor → Outcome (List α)} {most bound : Nat}

/-- The list is what is read behind the elements that were read. -/
def listBehind (list : Cursor → Outcome (List α)) (xs : List α) (c : Cursor) :
    Outcome (List α) :=
  Outcome.andThen (list c) fun rest c' => .ok (xs ++ rest, c')

theorem listBehind_nil (list : Cursor → Outcome (List α)) (c : Cursor) :
    listBehind list [] c = list c := Outcome.andThen_ok (list c)

theorem andThen_listBehind (xs : List α) (a : α) (c : Cursor) :
    Outcome.andThen (Outcome.andThen (list c) fun rest c' => .ok (a :: rest, c'))
      (fun rest c' => .ok (xs ++ rest, c')) = listBehind list (xs ++ [a]) c := by
  unfold listBehind
  rw [Outcome.andThen_assoc]
  simp only [Outcome.andThen, List.append_assoc, List.singleton_append]

theorem opt_andThen {kind : Kind} {yes : Pos → Cursor → Outcome α} {no : Cursor → Outcome α}
    (k : α → Cursor → Outcome β) (c : Cursor) : Outcome.andThen (c.opt kind yes no) k =
      c.opt kind (fun pos c => Outcome.andThen (yes pos c) k) fun c => Outcome.andThen (no c) k := by
  unfold Cursor.opt
  split <;> rfl

theorem turns_commaRound (hx : Follows x p most) (xs : List α) (hc : c.Within most) :
    Turns (commaRound x xs) c (Outcome.andThen (p c) fun a c₁ =>
      c₁.opt (.symbol .comma) (fun _ c₂ => .ok (.again (xs ++ [a]), c₂))
        fun c₁ => .ok (.leave (xs ++ [a]), c₁)) := by
  refine .bind (hx.comes c hc) (hx.lt c) fun a c₁ _ hr => ?_
  exact .eat (hc.ending.of_reaches hr) (by decide) (fun _ _ _ _ => .pure _ _) (.pure _ c₁)

/-- Elements with commas between them and the parenthesis that closes them. -/
theorem comes_commaLoop (hx : Follows x p most)
    (hlist : ∀ c, list c = Outcome.andThen (p c) fun a c₁ => c₁.opt (.symbol .comma)
      (fun _ c₂ => Outcome.andThen (list c₂) fun rest c₃ => .ok (a :: rest, c₃))
      fun c₁ => Outcome.andThen (c₁.expect (.symbol .rparen)).outcome fun _ c₂ => .ok ([a], c₂))
    (hc : c.Within most) (hbound : c.left ≤ bound) :
    Comes (do
      let xs ← loop (commaRound x) bound []
      let _ ← expect (.symbol .rparen)
      return xs) c (list c) := by
  refine (Comes.loop (listBehind list)
    (fun xs c => Outcome.andThen (c.expect (.symbol .rparen)).outcome fun _ c' => .ok (xs, c'))
    (fun xs c hc => ⟨_, turns_commaRound hx xs hc, ?_⟩)
    (fun xs c hc => (comes_expect hc.ending (by decide)).map) hc hbound).congr
    (listBehind_nil list c)
  rw [listBehind, hlist c, Outcome.andThen_assoc, Outcome.andThen_assoc]
  congr 1
  funext a c₁
  rw [opt_andThen, opt_andThen]
  congr 1
  · funext _ c₂
    exact andThen_listBehind xs a c₂
  · funext c₁
    rw [Outcome.andThen_assoc]
    rfl

/-- What is read between parentheses with commas. -/
theorem comes_enclosed (hx : Follows x p most)
    (hlist : ∀ c, list c = Outcome.andThen (p c) fun a c₁ => c₁.opt (.symbol .comma)
      (fun _ c₂ => Outcome.andThen (list c₂) fun rest c₃ => .ok (a :: rest, c₃))
      fun c₁ => Outcome.andThen (c₁.expect (.symbol .rparen)).outcome fun _ c₂ => .ok ([a], c₂))
    (hc : c.Within (most + 1)) (hbound : c.left ≤ bound) :
    Comes (enclosed bound x) c (Outcome.andThen (c.expect (.symbol .lparen)).outcome fun _ c₁ =>
      c₁.opt (.symbol .rparen) (fun _ c₂ => .ok ([], c₂)) list) := by
  refine (comes_expect hc.ending (by decide)).bind fun _ c₁ hopen hr => ?_
  have hc₁ := hc.behind hr (lt_of_outcome hopen)
  rw [commaList, bind_assoc]
  refine .get ?_
  by_cases hclose : c₁.kind = .symbol .rparen
  · rw [if_pos hclose, pure_bind]
    obtain ⟨t, l, n, rfl, ht, -⟩ := Cursor.exists_cons hclose (by decide)
    rw [opt_cons ht]
    exact (comes_expect hc₁.ending (by decide)).map.congr (by rw [outcome_expect_cons ht]; rfl)
  · rw [if_neg hclose, opt_of_ne hclose]
    exact comes_commaLoop hx hlist hc₁ (Nat.le_trans hr.left_le hbound)

/-- What is read up to the brace that closes it. -/
structure UpToBrace (p : Cursor → Outcome α) (list : Cursor → Outcome (List α))
    (missing : Expected) : Prop where
  rbrace : ∀ t l n, t.kind = .symbol .rbrace → list ⟨t :: l, n⟩ = .ok ([], ⟨l, n⟩)
  eof : ∀ c, c.kind = .eof → list c = .error (c.expected missing)
  cons : ∀ c, c.kind ≠ .symbol .rbrace → c.kind ≠ .eof → list c =
    Outcome.andThen (p c) fun a c₁ => Outcome.andThen (list c₁) fun rest c₂ => .ok (a :: rest, c₂)

/-- What a round comes to in front of a brace that closes, or of an element. -/
def braceTurn (p : Cursor → Outcome α) (missing : Expected) (xs : List α) (c : Cursor) :
    Outcome (Round (List α) (List α)) :=
  if c.kind = .symbol .rbrace then .ok (.leave xs, c)
  else if c.kind = .eof then .error (c.expected missing)
  else Outcome.andThen (p c) fun a c₁ => .ok (.again (xs ++ [a]), c₁)

theorem turns_braceRound (missing : Expected) (hx : Follows x p most) (xs : List α)
    (hc : c.Within most) : Turns (braceRound x missing xs) c (braceTurn p missing xs c) :=
  .get <| .ite (fun _ => .leave xs c) fun _ => .ite (fun _ => .fail c _) fun _ =>
    .bind (hx.comes c hc) (hx.lt c) fun _ c₁ _ _ => .pure _ c₁

/-- Elements and the brace that closes them, behind the one that opens. -/
theorem comes_braceLoop {missing : Expected} (hx : Follows x p most)
    (hlist : UpToBrace p list missing) (pos : Pos) (hc : c.Within most) (hbound : c.left ≤ bound) :
    Comes (do
      let xs ← loop (braceRound x missing) bound []
      let _ ← bump
      return (pos, xs)) c (Outcome.andThen (list c) fun xs c₁ => .ok ((pos, xs), c₁)) := by
  refine (Comes.loop
    (fun xs c => Outcome.andThen (listBehind list xs c) fun xs c₁ => .ok ((pos, xs), c₁))
    (fun xs c => .ok ((pos, xs), c.bump))
    (fun xs c hc => ⟨_, turns_braceRound missing hx xs hc, ?_⟩)
    (fun xs c hc => (comes_bump hc.ending).map) hc hbound).congr
    (by rw [listBehind_nil])
  unfold braceTurn
  by_cases hrbrace : c.kind = .symbol .rbrace
  · rw [if_pos hrbrace]
    obtain ⟨t, l, n, rfl, ht, hne⟩ := Cursor.exists_cons hrbrace (by decide)
    rw [listBehind, hlist.rbrace t l n ht]
    show _ = Except.ok ((pos, xs), Cursor.bump ⟨t :: l, n⟩)
    rw [Cursor.bump_cons hc.ending hne]
    simp only [Outcome.andThen, List.append_nil]
  · rw [if_neg hrbrace]
    by_cases heof : c.kind = .eof
    · rw [if_pos heof, listBehind, hlist.eof c heof]
      rfl
    · rw [if_neg heof, listBehind, hlist.cons c hrbrace heof, Outcome.andThen_assoc,
        Outcome.andThen_assoc, Outcome.andThen_assoc]
      congr 1
      funext a c₁
      rw [← Outcome.andThen_assoc, andThen_listBehind]
      rfl

/-- What is read between braces. -/
theorem comes_braced {missing : Expected} (hx : Follows x p most)
    (hlist : UpToBrace p list missing) (hc : c.Within (most + 1)) (hbound : c.left ≤ bound) :
    Comes (braced bound x missing) c
      (Outcome.andThen (c.expect (.symbol .lbrace)).outcome fun pos c₁ =>
        Outcome.andThen (list c₁) fun xs c₂ => .ok ((pos, xs), c₂)) :=
  (comes_expect hc.ending (by decide)).bind fun pos _ hopen hr =>
    comes_braceLoop hx hlist pos (hc.behind hr (lt_of_outcome hopen))
      (Nat.le_trans hr.left_le hbound)

end

end

end Attempt

end ClassLang.Source
