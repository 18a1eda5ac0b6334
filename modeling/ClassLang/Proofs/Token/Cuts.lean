import ClassLang.Proofs.Token.Concatenation
import ClassLang.Proofs.Token.Lossless
/-!
# Tokens — parts of a text

The tokens of a text stand in it one after the other, each written as its kind is;
the errors of the text are theirs and the one of an open comment. A text that is cut behind one of its tokens has the tokens up to there and no
error but theirs (`Tokenizes.cut`). A text that goes on keeps its tokens if no
character makes the last of them longer (`Tokenizes.extend`); comments that are
open at its end take none of them back.
-/


namespace ClassLang

open Token (Kind)

variable {o : Nat} {cs : List Char} {ts : List Token} {errors : List LexError}

/-! ## The tokens of a text -/

/-- The tokens of a text start in it. -/
theorem Tokenizes.start_le (h : Tokenizes o cs ts errors) :
    ∀ t ∈ ts, t.span.start ≤ o + byteLength cs := by
  induction h with
  | done _ => exact List.forall_mem_singleton.2 (Nat.le_refl _)
  | unclosed _ _ hstop => exact List.forall_mem_singleton.2 (Nat.le_of_eq hstop)
  | token _ _ hspan _ ih =>
    rw [hspan] at ih
    refine List.forall_mem_cons.2 ⟨?_, fun u hu => ?_⟩
    · rw [hspan, byteLength_append, byteLength_append]
      dsimp only
      omega
    · have := ih u hu
      rw [byteLength_append, byteLength_append]
      dsimp only at this
      omega

/-- The end of the file is the last token and no other. -/
theorem Tokenizes.exists_eof (h : Tokenizes o cs ts errors) :
    ∃ pre e, ts = pre ++ [e] ∧ e.kind = .eof ∧ ∀ t ∈ pre, t.kind ≠ .eof := by
  induction h with
  | done _ => exact ⟨[], _, rfl, rfl, List.forall_mem_nil _⟩
  | unclosed _ _ _ => exact ⟨[], _, rfl, rfl, List.forall_mem_nil _⟩
  | @token o gap text rest t ts errors _ hlexeme _ _ ih =>
    obtain ⟨pre, e, rfl, he, hpre⟩ := ih
    exact ⟨t :: pre, e, rfl, he, List.forall_mem_cons.2 ⟨hlexeme.reads.ne_eof, hpre⟩⟩

/-- Tokens are written as their kinds are. -/
theorem Tokenizes.reads (h : Tokenizes o cs ts errors) :
    ∀ t ∈ ts, t.kind ≠ .eof → ∃ text, t.kind.Reads text := by
  induction h with
  | done _ => simp
  | unclosed _ _ _ => simp
  | token _ hlexeme _ _ ih => exact List.forall_mem_cons.2 ⟨fun _ => ⟨_, hlexeme.reads⟩, ih⟩

/-- Tokens start at later and later offsets. -/
theorem Tokenizes.ascending (h : Tokenizes o cs ts errors) : ts.Pairwise fun t u => t.span.start < u.span.start := by
  induction h with
  | done _ => exact List.pairwise_singleton _ _
  | unclosed _ _ _ => exact List.pairwise_singleton _ _
  | @token o gap text rest t ts errors _ hlexeme hspan hts ih =>
    refine List.pairwise_cons.2 ⟨fun u hu => ?_, ih⟩
    have hlength : byteLength text ≠ 0 := fun h => hlexeme.reads.ne_nil (byteLength_eq_zero h)
    have hstop : t.span.start + byteLength text = t.span.stop := by rw [hspan]
    have := hts.le_start u hu
    omega

theorem Token.error?_eq_none {t : Token} (h : ∀ fault, t.kind ≠ .invalid fault) :
    t.error? = none := by
  unfold error?
  split
  next fault hk => exact absurd hk (h fault)
  next => rfl

theorem Token.span_of_error? {t : Token} {err : LexError} (h : t.error? = some err) :
    err.span = t.span := by
  unfold Token.error? at h
  split at h
  · cases h
    rfl
  · cases h

/-- **The error of a token** is the one at its span. -/
theorem Tokenizes.error?_iff (h : Tokenizes o cs ts errors) : (∀ err ∈ errors, o ≤ err.span.start) ∧
    ∀ t ∈ ts, t.kind ≠ .eof → ∀ err, t.error? = some err ↔ err ∈ errors ∧ err.span = t.span := by
  induction h with
  | done _ => simp
  | unclosed _ _ _ => simp
  | @token o gap text rest t ts errors _ hlexeme hspan hts ih =>
    have hlength : byteLength text ≠ 0 := fun h => hlexeme.reads.ne_nil (byteLength_eq_zero h)
    have hstart : o ≤ t.span.start := by rw [hspan]; exact Nat.le_add_right _ _
    have hstop : t.span.start < t.span.stop := by
      rw [hspan]
      dsimp only
      omega
    refine ⟨fun err herr => ?_, List.forall_mem_cons.2 ⟨fun _ err => ?_, fun u hu hne err => ?_⟩⟩
    · rcases List.mem_append.1 herr with herr | herr
      · rw [Token.span_of_error? (Option.mem_toList.1 herr)]
        exact hstart
      · have := ih.1 err herr
        omega
    · refine ⟨fun herr => ?_, fun ⟨herr, heq⟩ => ?_⟩
      · exact ⟨List.mem_append_left _ (Option.mem_toList.2 herr), Token.span_of_error? herr⟩
      · rcases List.mem_append.1 herr with herr | herr
        · exact Option.mem_toList.1 herr
        -- An error behind the token starts behind it.
        · have := ih.1 err herr
          rw [heq] at this
          omega
    · rw [ih.2 u hu hne err, List.mem_append]
      refine ⟨fun ⟨herr, heq⟩ => ⟨.inr herr, heq⟩, fun ⟨herr, heq⟩ => ⟨herr.resolve_left fun herr => ?_, heq⟩⟩
      have := hts.le_start u hu
      rw [← heq, Token.span_of_error? (Option.mem_toList.1 herr)] at this
      omega

/-- Without a faulty token there is no error but that of an open comment. -/
theorem Tokenizes.unclosed_of_valid (h : Tokenizes o cs ts errors)
    (hvalid : ∀ t ∈ ts, t.error? = none) : ∀ err ∈ errors, err.fault = .unclosedComment := by
  induction h with
  | done _ => exact List.forall_mem_nil _
  | unclosed _ _ _ => exact List.forall_mem_singleton.2 rfl
  | token _ _ _ _ ih =>
    obtain ⟨ht, hts⟩ := List.forall_mem_cons.1 hvalid
    rw [ht]
    exact ih hts

/-- A text without a character has no token. -/
theorem Tokenizes.length_of_nil (h : Tokenizes o [] ts errors) : ts.length = 1 := by
  generalize hcs : ([] : List Char) = cs at h
  cases h with
  | done _ => rfl
  | unclosed _ _ _ => rfl
  | token _ hlexeme _ _ => simp [hlexeme.reads.ne_nil] at hcs

/-- What follows a lexeme does not matter to the spacing in front of it. -/
theorem IsLexeme.spacing {k : Kind} {text rest rest' gap : List Char} (h : IsLexeme k text rest)
    (hgap : Spacing (text ++ rest) gap) : Spacing (text ++ rest') gap := by
  refine hgap.of_head? fun c hc => .inr ?_
  obtain ⟨d, text, rfl⟩ := List.exists_cons_of_ne_nil h.reads.ne_nil
  exact hc

/-! ## Less of a text -/

/-- **A text that is cut behind a token** has the tokens up to there. -/
theorem Tokenizes.cut (h : Tokenizes o cs ts errors) {pre post : List Token} (hts : ts = pre ++ post)
    (hpost : post ≠ []) : ∃ before after, cs = before ++ after ∧
      o + byteLength before = stopOf o pre ∧
      Tokenizes o before (pre ++ [⟨.eof, ⟨stopOf o pre, stopOf o pre⟩⟩])
        (pre.flatMap (·.error?.toList)) := by
  induction h generalizing pre with
  | @done o gap _ =>
    obtain rfl : pre = [] := by
      cases pre with
      | nil => rfl
      | cons t pre => simp [hpost] at hts
    exact ⟨[], gap, rfl, rfl, .done .nil⟩
  | @unclosed o stop gap body _ _ _ =>
    obtain rfl : pre = [] := by
      cases pre with
      | nil => rfl
      | cons t pre => simp [hpost] at hts
    exact ⟨[], _, rfl, rfl, .done .nil⟩
  | @token o gap text rest t ts errors hgap hlexeme hspan _ ih =>
    cases pre with
    | nil => exact ⟨[], _, rfl, rfl, .done .nil⟩
    | cons t' pre =>
      obtain ⟨rfl, htail⟩ := List.cons.inj hts
      obtain ⟨before, after, rfl, hstop, htokens⟩ := ih htail
      refine ⟨gap ++ text ++ before, after, (List.append_assoc _ _ _).symm, ?_, ?_⟩
      · rw [stopOf, ← hstop, hspan, byteLength_append, byteLength_append]
        dsimp only
        omega
      · refine .token (hlexeme.spacing hgap) ⟨hlexeme.reads, fun c hc => hlexeme.maximal c ?_⟩ hspan
          htokens
        rw [List.head?_append, hc]
        rfl

/-- The blanks and comments in front of the first token are a text without one. -/
theorem Tokenizes.leading (h : Tokenizes o cs ts errors) : ∃ gap rest, cs = gap ++ rest ∧
    Spacing rest gap ∧
    (∀ t ∈ ts.head?, t.kind ≠ .eof → t.span.start = o + byteLength gap) ∧
    Tokenizes o gap [⟨.eof, ⟨o + byteLength gap, o + byteLength gap⟩⟩] [] := by
  have hdone {gap rest : List Char} (hgap : Spacing rest gap) : Spacing [] gap := hgap.of_head? nofun
  cases h with
  | done hgap =>
    refine ⟨cs, [], (List.append_nil _).symm, hgap, fun t ht hne => ?_, .done hgap⟩
    cases ht
    exact absurd rfl hne
  | @unclosed _ stop gap body hgap _ _ =>
    refine ⟨gap, _, rfl, hgap, fun t ht hne => ?_, .done (hdone hgap)⟩
    cases ht
    exact absurd rfl hne
  | @token _ gap text rest t ts errors hgap _ hspan _ =>
    refine ⟨gap, text ++ rest, List.append_assoc _ _ _, hgap, fun u hu _ => ?_, .done (hdone hgap)⟩
    cases hu
    rw [hspan]

/-! ## More of a text -/

/-- **A text that goes on** keeps its tokens. -/
theorem Tokenizes.extend (h : Tokenizes o cs ts errors) {pre : List Token} {e : Token}
    (hts : ts = pre ++ [e]) (hlast : ∀ t ∈ pre.getLast?, ∀ c, ¬ t.kind.Extends c) (more : List Char) :
    ∃ us errors', Tokenizes o (cs ++ more) (pre ++ us) errors' := by
  induction h generalizing pre with
  | @done o gap _ =>
    obtain rfl : pre = [] := by
      cases pre with
      | nil => rfl
      | cons t pre => simp at hts
    exact exists_tokenizes o _
  | @unclosed o stop gap body _ _ _ =>
    obtain rfl : pre = [] := by
      cases pre with
      | nil => rfl
      | cons t pre => simp at hts
    exact exists_tokenizes o _
  | @token o gap text rest t ts errors hgap hlexeme hspan hrest ih =>
    cases pre with
    | nil => exact exists_tokenizes o _
    | cons t' pre =>
      obtain ⟨rfl, rfl⟩ := List.cons.inj hts
      have hlast' : ∀ u ∈ pre.getLast?, ∀ c, ¬ u.kind.Extends c := by
        intro u hu
        cases pre with
        | nil => cases hu
        | cons v pre => exact hlast u (by rwa [List.getLast?_cons_cons])
      obtain ⟨us, errors', hus⟩ := ih rfl hlast'
      refine ⟨us, t.error?.toList ++ errors', ?_⟩
      rw [List.append_assoc (gap ++ text)]
      refine .token (hlexeme.spacing hgap) ⟨hlexeme.reads, fun c hc => ?_⟩ hspan hus
      cases rest with
      | cons d rest => exact hlexeme.maximal c hc
      | nil =>
        -- The token is the last one.
        obtain rfl : pre = [] := by simpa using hrest.length_of_nil
        exact hlast t (by simp) c

end ClassLang
