import ClassLang.Proofs.Token.Tokenization
/-!
# Tokens — what a text is made of

Nothing of a text is lost between its tokens, and every fault in it is reported
(`lossless_lex`): its tokens stand in the order of the text and do not overlap,
only blanks and comments stand between them, and the errors are those of the
faulty tokens and of the comment that the text ends in.
-/


namespace ClassLang

/-- The bytes of a span are whole characters of a text: these ones, with the
others behind them. -/
def Span.Covers (s : Span) (source text after : List Char) : Prop :=
  ∃ before, source = before ++ text ++ after ∧
    s = ⟨byteLength before, byteLength before + byteLength text⟩

/-- Where tokens stop that start behind an offset. -/
def stopOf (o : Nat) : List Token → Nat
  | [] => o
  | t :: ts => stopOf t.span.stop ts

/-- A text ends inside a block comment: behind the tokens stand a spacing, the
`/*` of the comment and nothing that closes it. -/
def EndsInComment (source : List Char) (o : Nat) (ts : List Token) (start : Nat) : Prop :=
  ∃ before gap body, source = before ++ (gap ++ '/' :: '*' :: body) ∧
    byteLength before = stopOf o ts ∧ start = byteLength before + byteLength gap ∧
    Spacing ('/' :: '*' :: body) gap ∧ Unclosed body

/-- What is found in a text from an offset on: tokens, the end of the file behind
them, and maybe a comment that is never closed. -/
structure Lossless (source : List Char) (o : Nat) (l : Lexed) (ts : List Token)
    (unclosed : Option Nat) : Prop where
  /-- The end of the file stands behind the tokens and nowhere else. -/
  tokens : l.tokens = ts ++ [⟨.eof, ⟨byteLength source, byteLength source⟩⟩]
  /-- Tokens are not empty, fit their kind and could not be longer. -/
  lexeme : ∀ t ∈ ts, t.kind ≠ .eof ∧ ∃ text after,
    t.span.Covers source text after ∧ text ≠ [] ∧ IsLexeme t.kind text after
  /-- Tokens stand in the order of the text and do not overlap. -/
  ordered : l.tokens.Pairwise fun t u => t.span.stop ≤ u.span.start
  /-- A spacing stands in front of each token. -/
  spacing : ∀ pre t post, ts = pre ++ t :: post → ∃ gap after,
    Span.Covers ⟨stopOf o pre, t.span.start⟩ source gap after ∧ Spacing after gap
  /-- A spacing stands in front of the end of the file, unless a comment is never
  closed. -/
  ending : unclosed = none → ∃ gap,
    Span.Covers ⟨stopOf o ts, byteLength source⟩ source gap [] ∧ Spacing [] gap
  /-- The comment that is never closed is the one the text ends in. -/
  comment : ∀ start, unclosed = some start ↔ EndsInComment source o ts start
  /-- The errors are those of the faulty tokens and of that comment. -/
  errors : l.errors = ts.filterMap Token.error? ++
    (unclosed.map fun start => ⟨.unclosedComment, ⟨start, byteLength source⟩⟩).toList

theorem byteLength_eq_zero {cs : List Char} (h : byteLength cs = 0) : cs = [] := by
  cases cs with
  | nil => rfl
  | cons c cs =>
    have := c.utf8Size_pos
    rw [byteLength_cons] at h
    omega

/-- An offset parts a text in one way. -/
theorem append_inj_of_byteLength {as bs cs ds : List Char} (h : as ++ bs = cs ++ ds)
    (hlength : byteLength as = byteLength cs) : as = cs ∧ bs = ds := by
  induction as generalizing cs with
  | nil =>
    obtain rfl := byteLength_eq_zero hlength.symm
    exact ⟨rfl, h⟩
  | cons a as ih =>
    cases cs with
    | nil => exact absurd (byteLength_eq_zero hlength) (List.cons_ne_nil _ _)
    | cons c cs =>
      obtain ⟨rfl, htail⟩ := List.cons_eq_cons.1 h
      obtain ⟨rfl, rfl⟩ := ih htail (by simpa using hlength)
      exact ⟨rfl, rfl⟩

variable {source before gap : List Char} {o : Nat}

/-- Whether a comment is never closed is seen by skipping what stands behind the
tokens. -/
theorem unclosed_of_endsInComment {cs : List Char} {ts : List Token} {start : Nat}
    (h : EndsInComment (before ++ cs) o ts start) (hbefore : byteLength before = stopOf o ts) :
    (skip .code (byteLength before) cs).unclosed = some start := by
  obtain ⟨before', gap, body, heq, hlength, rfl, hgap, hbody⟩ := h
  obtain ⟨rfl, rfl⟩ := append_inj_of_byteLength heq (hbefore.trans hlength.symm)
  rw [hgap.skip_comment hbody]

/-- The end of a text behind a spacing. -/
theorem lossless_done (hgap : Spacing [] gap) (hbefore : byteLength before = o) :
    Lossless (before ++ gap) o ⟨[⟨.eof, ⟨o + byteLength gap, o + byteLength gap⟩⟩], []⟩ [] none where
  tokens := by rw [byteLength_append, hbefore]; rfl
  lexeme := by simp
  ordered := List.pairwise_singleton _ _
  spacing := by simp
  ending := fun _ =>
    ⟨gap, ⟨before, by simp, by rw [byteLength_append, hbefore]; rfl⟩, hgap⟩
  comment := fun start => by
    refine ⟨fun h => (Option.some_ne_none _ h.symm).elim, fun h => ?_⟩
    have hunclosed := unclosed_of_endsInComment h hbefore
    have hskip : skip .code (byteLength before) gap =
        ⟨byteLength before + byteLength gap, [], none⟩ := by
      simpa [skip] using hgap.skip_eq (byteLength before)
    rw [hskip] at hunclosed
    cases hunclosed
  errors := rfl

/-- The end of a text inside a comment. -/
theorem lossless_unclosed {body : List Char} {stop : Nat} (hgap : Spacing ('/' :: '*' :: body) gap)
    (hbody : Unclosed body) (hbefore : byteLength before = o)
    (hstop : stop = o + byteLength (gap ++ '/' :: '*' :: body)) :
    Lossless (before ++ (gap ++ '/' :: '*' :: body)) o
      ⟨[⟨.eof, ⟨stop, stop⟩⟩], [⟨.unclosedComment, ⟨o + byteLength gap, stop⟩⟩]⟩ []
      (some (o + byteLength gap)) where
  tokens := by rw [byteLength_append, hbefore, ← hstop]; rfl
  lexeme := by simp
  ordered := List.pairwise_singleton _ _
  spacing := by simp
  ending := fun h => by cases h
  comment := fun start => by
    refine ⟨fun h => ?_, fun h => ?_⟩
    · obtain rfl := Option.some.inj h
      exact ⟨before, gap, body, rfl, hbefore, by rw [hbefore], hgap, hbody⟩
    · rw [← unclosed_of_endsInComment h hbefore, hgap.skip_comment hbody, hbefore]
  errors := by rw [byteLength_append, hbefore, ← hstop]; rfl

/-- A token in front of the tokens of a text. -/
theorem Lossless.cons {text rest : List Char} {t : Token} {ts tokens : List Token}
    {unclosed : Option Nat} {errors : List LexError}
    (h : Lossless (before ++ gap ++ text ++ rest) t.span.stop ⟨tokens, errors⟩ ts unclosed)
    (hgap : Spacing (text ++ rest) gap) (hlexeme : IsLexeme t.kind text rest)
    (hspan : t.span = ⟨byteLength before + byteLength gap,
      byteLength before + byteLength gap + byteLength text⟩)
    (hafter : ∀ u ∈ tokens, t.span.stop ≤ u.span.start) (hbefore : byteLength before = o) :
    Lossless (before ++ gap ++ text ++ rest) o ⟨t :: tokens, t.error?.toList ++ errors⟩ (t :: ts)
      unclosed where
  tokens := congrArg (t :: ·) h.tokens
  lexeme := by
    refine List.forall_mem_cons.2 ⟨⟨hlexeme.reads.ne_eof, text, rest, ?_, hlexeme.reads.ne_nil,
      hlexeme⟩, h.lexeme⟩
    exact ⟨before ++ gap, rfl, by rw [hspan, byteLength_append]⟩
  ordered := List.pairwise_cons.2 ⟨hafter, h.ordered⟩
  spacing := fun pre u post heq => by
    cases pre with
    | nil =>
      obtain ⟨rfl, rfl⟩ := List.cons_eq_cons.1 heq
      refine ⟨gap, text ++ rest, ⟨before, by simp, ?_⟩, hgap⟩
      rw [hspan, stopOf, hbefore]
    | cons v pre =>
      obtain ⟨rfl, htail⟩ := List.cons_eq_cons.1 heq
      exact h.spacing pre u post htail
  ending := h.ending
  comment := h.comment
  errors := by
    have herrors : errors = _ := h.errors
    rw [herrors, List.filterMap_cons, ← List.append_assoc]
    cases t.error? <;> rfl

/-- No token starts in front of the text. -/
theorem Tokenizes.le_start {cs : List Char} {ts : List Token} {errors : List LexError}
    (h : Tokenizes o cs ts errors) : ∀ t ∈ ts, o ≤ t.span.start := by
  induction h with
  | done _ =>
    rw [List.forall_mem_singleton]
    exact Nat.le_add_right _ _
  | unclosed _ _ hstop =>
    rw [List.forall_mem_singleton, hstop]
    exact Nat.le_add_right _ _
  | token _ _ hspan _ ih =>
    rw [hspan] at ih
    refine List.forall_mem_cons.2 ⟨?_, fun u hu => ?_⟩
    · rw [hspan]
      exact Nat.le_add_right _ _
    · have := ih u hu
      dsimp only at this
      omega

theorem Tokenizes.lossless {cs : List Char} {tokens : List Token} {errors : List LexError}
    (h : Tokenizes o cs tokens errors) (hsource : source = before ++ cs)
    (hbefore : byteLength before = o) :
    ∃ ts unclosed, Lossless source o ⟨tokens, errors⟩ ts unclosed := by
  induction h generalizing before with
  | done hgap =>
    subst hsource
    exact ⟨_, _, lossless_done hgap hbefore⟩
  | unclosed hgap hbody hstop =>
    subst hsource
    exact ⟨_, _, lossless_unclosed hgap hbody hbefore hstop⟩
  | @token o gap text rest t ts errors hgap hlexeme hspan hts ih =>
    have hsource : source = before ++ gap ++ text ++ rest := by rw [hsource]; simp
    rw [← hbefore] at hspan
    have hlength : byteLength (before ++ gap ++ text) = t.span.stop := by
      rw [hspan, byteLength_append, byteLength_append]
    -- The tokens behind are those of the same text, from the end of this one on.
    obtain ⟨us, unclosed, hus⟩ := ih hsource hlength
    subst hsource
    exact ⟨_, _, hus.cons hgap hlexeme hspan hts.le_start hbefore⟩

/-- **Nothing of a text is lost, and every fault in it is reported.** The tokens
come with the text they stand for and with the blanks and comments between them. -/
theorem lossless_lex (source : String) :
    ∃ ts unclosed, Lossless source.toList 0 (lex source) ts unclosed := by
  have h : Tokenizes 0 source.toList (lex source).tokens (lex source).errors := lex_eq_iff.1 rfl
  exact h.lossless (List.nil_append _).symm byteLength_nil

end ClassLang
