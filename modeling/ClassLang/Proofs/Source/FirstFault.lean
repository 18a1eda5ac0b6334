import Mathlib
import ClassLang.Proofs.Source.Completions
import ClassLang.Proofs.Source.Partial
import ClassLang.Proofs.Source.RoundTrip
/-!
# Source — where a text stops being a program

The tokens in front of an error are the beginning of a program, and with the token
at the error they are not (`first_fault`): reading goes no further than it has to.
The one token that is looked at ahead of time is the one behind a bracket that
follows a type, because the brackets of a type are taken in pairs.
-/


namespace ClassLang.Source

open Token (Kind)

/-! ## Beginnings of programs -/

/-- The tokens are the first ones of a text that is a program. The end of the file is
one of its tokens. -/
def Viable (w : List Kind) : Prop :=
  ∃ source, (parse source).error? = none ∧ w <+: (lex source).tokens.map (·.kind)

theorem Viable.of_append {w v : List Kind} (h : Viable (w ++ v)) : Viable w := by
  obtain ⟨source, hread, hprefix⟩ := h
  exact ⟨source, hread, (List.prefix_append w v).trans hprefix⟩

theorem read_iff {source : String} : (parse source).error? = none ↔
    (lex source).errors = [] ∧ Derives .program (sentence source) := by
  rw [error?_parse, parseItems_eq_none (Cursor.kinds_ofText source) (eof_not_mem_sentence source)]

/-- What can be completed to declarations is the beginning of a program: the rest can
be spelled. -/
theorem viable_of_completable {w : List Kind} (hw : Spellable w)
    (h : Completable (fun w => ∃ items, Phrases ItemPhrase w items) w) : Viable w := by
  obtain ⟨v, hv, hderived⟩ := h
  have hspellable : Spellable (w ++ v) := spellable_append.2 ⟨hw, hv⟩
  have hsentence := sentence_spell hspellable
  refine ⟨spell (w ++ v), read_iff.2 ⟨errors_spell hspellable, ?_⟩, ?_⟩
  · rw [hsentence]
    exact derives_program.2 hderived
  · rw [kinds_lex, hsentence, List.append_assoc]
    exact List.prefix_append w _

/-- The tokens of a text that are neither faulty nor the end of the file can be
spelled. -/
theorem spellable_of_lex {source : String} {t : Token} (ht : t ∈ (lex source).tokens)
    (heof : t.kind ≠ .eof) (hvalid : ∀ fault, t.kind ≠ .invalid fault) : t.kind.Spellable := by
  obtain ⟨text, hreads⟩ := (tokenizes_lex source).reads t ht heof
  cases hk : t.kind with
  | invalid fault => exact absurd hk (hvalid fault)
  | _ =>
    rw [hk] at hreads
    exact hreads.1

/-- Tokens of a text that can be completed to declarations can be spelled. -/
theorem spellable_of_completable {source : String} {ts : List Token}
    (hts : ∀ t ∈ ts, t ∈ (lex source).tokens)
    (h : Completable (fun w => ∃ items, Phrases ItemPhrase w items) (ts.map (·.kind))) :
    Spellable (ts.map (·.kind)) := by
  obtain ⟨v, -, hderived⟩ := h
  have hderives := derives_program.2 hderived
  intro k hk
  obtain ⟨t, ht, rfl⟩ := List.mem_map.1 hk
  refine spellable_of_lex (hts t ht) (fun heof => ?_) fun fault hfault => ?_
  · exact hderives.eof_not_mem (List.mem_append_left _ (heof ▸ hk))
  · exact hderives.invalid_not_mem fault (List.mem_append_left _ (hfault ▸ hk))

/-! ## Errors that stay -/

/-- **An error stays an error** in front of all tokens that look the same. -/
theorem fails_parseItems (c : Cursor) {e : ParseError} (h : (parseItems c).2 = some e) :
    ∃ u x, c.tokens = u ++ x ∧ (∀ t ∈ u, t.kind ≠ .eof) ∧ (∃ m cause, e = Cursor.fail ⟨x, m⟩ cause) ∧
      ∀ y, e.Sees (u.map (·.kind)) x y → (parseItems ⟨u ++ y, c.next⟩).2 ≠ none := by
  by_cases heof : c.kind = .eof
  · rw [parseItems_eof heof] at h
    cases h
  cases hitem : (parseItem c).outcome with
  | error e' =>
    rw [parseItems_of_error heof hitem] at h
    cases h
    obtain ⟨u, x, m, cause, hu, hueof, he, hrerun⟩ := (local_parseItem c).error e hitem
    refine ⟨u, x, hu, hueof, ⟨m, cause, he⟩, fun y hy => ?_⟩
    obtain ⟨e', he'⟩ := hrerun y hy
    rw [parseItems_of_error (LocalAt.kind_append hu (.inr hy.head) ▸ heof) he']
    exact nofun
  | ok s =>
    obtain ⟨item, c₁⟩ := s
    rw [parseItems_of_ok heof hitem] at h
    have hlt : c₁.left < c.left := lt_of_outcome hitem
    obtain ⟨v, hv, hne, hveof, hrerun⟩ := (local_parseItem c).ok item c₁ hitem
    obtain ⟨u, x, hu, hueof, he, hfails⟩ := fails_parseItems c₁ h
    refine ⟨v ++ u, x, by rw [hv, hu, List.append_assoc], List.forall_mem_append.2 ⟨hveof, hueof⟩, he,
      fun y hy => ?_⟩
    rw [List.map_append] at hy
    rw [List.append_assoc, parseItems_of_ok (kind_append_ne_eof (hne rfl) hveof _ _)
      (hrerun (u ++ y) trivial)]
    exact hfails y hy.right
termination_by c.left

/-- Whether tokens are read without an error is a question of their kinds. -/
theorem parseItems_of_kinds {source : String} {c : Cursor} (h : (parse source).error? = none)
    (hc : c.kinds = (lex source).tokens.map (·.kind)) : (parseItems c).2 = none := by
  rw [kinds_lex] at hc
  exact (parseItems_eq_none hc (eof_not_mem_sentence source)).2 (read_iff.1 h).2

/-- An error that is seen in front of these tokens is one in every text that goes on
with them. -/
theorem not_viable_of_fails {e : ParseError} {u x : List Located} {n : NodeId} {v : List Kind}
    (hfails : ∀ y, e.Sees (u.map (·.kind)) x y → (parseItems ⟨u ++ y, n⟩).2 ≠ none)
    (hsees : ∀ y : List Located, v <+: y.map (·.kind) → e.Sees (u.map (·.kind)) x y) :
    ¬ Viable (u.map (·.kind) ++ v) := by
  rintro ⟨source, hread, more, hmore⟩
  have hkinds : ((v ++ more).map Located.ofKind).map (·.kind) = v ++ more := kinds_ofKind _ 0
  refine hfails ((v ++ more).map Located.ofKind) (hsees _ ?_) (parseItems_of_kinds hread ?_)
  · rw [hkinds]
    exact List.prefix_append v more
  · rw [← hmore, List.append_assoc, Cursor.kinds, List.map_append, hkinds]

/-! ## The token at an error -/

theorem span_fail (t : Located) (l : List Located) (n : NodeId) (cause : ParseCause) :
    (Cursor.fail ⟨t :: l, n⟩ cause).span = t.token.span := by
  obtain ⟨⟨kind, span⟩, pos⟩ := t
  cases kind <;> rfl

theorem ne_of_pairwise {α : Type} {f : α → Nat} {u x : List α} {a : α}
    (h : (u ++ a :: x).Pairwise fun b c => f b < f c) : ∀ b ∈ u ++ x, f b ≠ f a := by
  rw [List.pairwise_append, List.pairwise_cons] at h
  obtain ⟨-, ⟨hafter, -⟩, hbefore⟩ := h
  intro b hb
  rcases List.mem_append.1 hb with hb | hb
  · exact Nat.ne_of_lt (hbefore b hb a List.mem_cons_self)
  · exact (Nat.ne_of_lt (hafter b hb)).symm

/-- No other token of a text starts where this one does. -/
theorem start_ne {source : String} {before after : List Token} {t : Token}
    (h : (lex source).tokens = before ++ t :: after) :
    ∀ u ∈ before ++ after, u.span.start ≠ t.span.start :=
  ne_of_pairwise (f := fun u : Token => u.span.start) (h ▸ (tokenizes_lex source).ascending)

theorem kinds_locate (lines : Lines) (ts : List Token) :
    (locate lines ts).map (·.kind) = ts.map (·.kind) := by
  rw [locate, List.map_map]
  rfl

/-- Tokens of a text and a token behind them. -/
theorem exists_located {source : String} {u x : List Located}
    (h : (Cursor.ofText source).tokens = u ++ x) (hu : Kind.eof ∉ u.map (·.kind)) :
    ∃ before t after, (lex source).tokens = before ++ t :: after ∧
      u = locate (Lines.ofString source) before ∧
      x = locate (Lines.ofString source) (t :: after) := by
  obtain ⟨before, rest, htokens, rfl, rfl⟩ := List.map_eq_append_iff.1 h
  obtain _ | ⟨t, after⟩ := rest
  · obtain ⟨ts, e, hts, he, -⟩ := exists_tokens source
    rw [List.append_nil] at htokens
    refine absurd (List.mem_map.2 ⟨_, List.mem_map_of_mem (htokens ▸ hts ▸ ?_ : e ∈ before), he⟩) hu
    exact List.mem_append_right _ List.mem_cons_self
  · exact ⟨before, t, after, htokens, rfl, rfl⟩

/-- Where an error is: the tokens in front of it are the beginning of declarations,
and it is an error wherever the same is seen. -/
theorem exists_fault {source : String} {e : ParseError}
    (h : (parseItems (.ofText source)).2 = some e) :
    ∃ before t after, (lex source).tokens = before ++ t :: after ∧
      StopsBehind e (before.map (·.kind)) (locate (Lines.ofString source) (t :: after))
        (fun w => ∃ items, Phrases ItemPhrase w items) ∧
      ∀ v, (∀ y : List Located, v <+: y.map (·.kind) →
          e.Sees (before.map (·.kind)) (locate (Lines.ofString source) (t :: after)) y) →
        ¬ Viable (before.map (·.kind) ++ v) := by
  obtain ⟨u, x, hu, hueof, ⟨m, cause, he⟩, hfails⟩ := fails_parseItems _ h
  obtain ⟨u', x', hu', hstops⟩ := stops_parseItems _ h
  obtain ⟨m', cause', he'⟩ := hstops.fails
  have heof' : Kind.eof ∉ u'.map (·.kind) := by
    obtain ⟨v, -, hderived⟩ := hstops.begun
    exact fun hmem => (derives_program.2 hderived).eof_not_mem (List.mem_append_left _ hmem)
  obtain ⟨before, t, after, htokens, rfl, rfl⟩ := exists_located hu (by simpa using hueof)
  obtain ⟨before', t', after', htokens', rfl, rfl⟩ := exists_located hu' heof'
  -- Both say where the same error is.
  have hspan : t'.span = t.span := by
    have := congrArg ParseError.span (he'.symm.trans he)
    rwa [locate, locate, List.map_cons, List.map_cons, span_fail, span_fail] at this
  have hne : ∀ b ∈ before ++ after, b ≠ t' := fun b hb heq =>
    start_ne htokens b hb (by rw [heq, hspan])
  obtain ⟨rfl, rfl, rfl⟩ := (List.append_cons_inj_of_notMem
    (fun hmem => hne _ (List.mem_append_left _ hmem) rfl)
    (fun hmem => hne _ (List.mem_append_right _ hmem) rfl)).1 (htokens.symm.trans htokens')
  rw [List.nil_append, kinds_locate] at hstops
  refine ⟨before, t, after, htokens, hstops, fun v hv => ?_⟩
  have hnot := not_viable_of_fails (v := v) hfails
  rw [kinds_locate] at hnot
  exact hnot hv

/-! ## The first fault -/

/-- An error stands at the first token that no program goes on with; the tokens in
front of it are the beginning of a program. -/
structure FaultAt (source : String) (e : ParseError) (before : List Token) (t : Token)
    (after : List Token) : Prop where
  tokens : (lex source).tokens = before ++ t :: after
  span : t.span = e.span
  /-- The span names the token. -/
  only : ∀ u ∈ before ++ after, u.span ≠ e.span
  begun : Viable (before.map (·.kind))
  offends : ¬ e.Midway (before.map (·.kind)) → ¬ Viable ((before ++ [t]).map (·.kind))
  /-- A bracket behind a type is taken with the one that closes it only, so it may be
  the token behind that no program goes on with. -/
  midway : e.Midway (before.map (·.kind)) → t.kind = .symbol .lbracket ∧
    Viable ((before ++ [t]).map (·.kind)) ∧
    ∃ u rest, after = u :: rest ∧ ¬ Viable ((before ++ [t, u]).map (·.kind))
  /-- A faulty token is reported as it is by the scanner. -/
  lexical : ∀ fault, t.kind = .invalid fault →
    (∃ err ∈ (lex source).errors, err.span = e.span) ∧
    ∀ err ∈ (lex source).errors, err.span = e.span → e.message = err.fault.message

/-- A text whose tokens are a program has no error but an open comment. -/
theorem parseItems_of_error? {source : String} {e : ParseError} (h : (parse source).error? = some e)
    (hcomment : e.cause ≠ .lexical .unclosedComment) : (parseItems (.ofText source)).2 = some e := by
  have herror : (parse source).error? = ((parseItems (.ofText source)).2 <|>
      (lex source).errors.head?.map (ParseError.ofLexError (Lines.ofString source))) := rfl
  rw [herror] at h
  cases hitems : (parseItems (.ofText source)).2 with
  | some e' => rwa [hitems] at h
  | none =>
    rw [hitems] at h
    obtain ⟨err, herr, rfl⟩ := Option.map_eq_some_iff.1 h
    have hderives := (parseItems_eq_none (Cursor.kinds_ofText source)
      (eof_not_mem_sentence source)).1 hitems
    have hvalid : ∀ t ∈ (lex source).tokens, t.error? = none := by
      refine fun t ht => Token.error?_eq_none fun fault hk => ?_
      have hmem : t.kind ∈ (lex source).tokens.map (·.kind) := List.mem_map_of_mem ht
      rw [hk, kinds_lex, List.mem_append, List.mem_singleton] at hmem
      exact hderives.invalid_not_mem fault (hmem.resolve_right nofun)
    have hfault := (tokenizes_lex source).unclosed_of_valid hvalid err (List.mem_of_head? herr)
    exact absurd (congrArg ParseCause.lexical hfault) hcomment

theorem sees_of_head {e : ParseError} {w : List Kind} {t : Located} {x y : List Located}
    (hmid : ¬ e.Midway w) (hy : [t.kind] <+: y.map (·.kind)) : e.Sees w (t :: x) y := by
  obtain _ | ⟨t', y⟩ := y
  · cases List.prefix_nil.1 hy
  · obtain ⟨hkind, -⟩ := List.cons_prefix_cons.1 hy
    exact ⟨hkind, fun h => absurd h hmid⟩

theorem sees_of_pair {e : ParseError} {w : List Kind} {t u : Located} {x y : List Located}
    (hy : [t.kind, u.kind] <+: y.map (·.kind)) : e.Sees w (t :: u :: x) y := by
  obtain _ | ⟨t', _ | ⟨u', y⟩⟩ := y
  · cases List.prefix_nil.1 hy
  · cases List.prefix_nil.1 (List.cons_prefix_cons.1 hy).2
  · obtain ⟨hkind, hrest⟩ := List.cons_prefix_cons.1 hy
    obtain ⟨hkind₁, -⟩ := List.cons_prefix_cons.1 hrest
    refine ⟨hkind, fun _ => ⟨hkind, fun _ => ?_⟩⟩
    show u.kind = _ ↔ u'.kind = _
    rw [show u.kind = u'.kind from hkind₁]

/-- **An error is reported at the first token at which a text is no beginning of a
program any more.** The tokens in front of it are the beginning of one, and with it
they are not; only where a name is missing behind a type and a bracket stands there,
the token behind the bracket decides. -/
theorem first_fault {source : String} {e : ParseError} (h : (parse source).error? = some e)
    (hcomment : e.cause ≠ .lexical .unclosedComment) :
    ∃ before t after, FaultAt source e before t after := by
  obtain ⟨before, t, after, htokens, hstops, hnot⟩ := exists_fault (parseItems_of_error? h hcomment)
  obtain ⟨m, cause, he⟩ := hstops.fails
  have hspan : t.span = e.span := by
    rw [he, locate, List.map_cons, span_fail]
  have hmem : ∀ u ∈ before, u ∈ (lex source).tokens := fun u hu =>
    htokens ▸ List.mem_append_left _ hu
  have hspellable := spellable_of_completable hmem hstops.begun
  refine ⟨before, t, after, htokens, hspan, fun u hu heq => ?_, ?_, fun hmid => ?_, fun hmid => ?_,
    fun fault hk => ?_⟩
  · exact start_ne htokens u hu (by rw [heq, hspan])
  · exact viable_of_completable hspellable hstops.begun
  · rw [List.map_append]
    exact hnot _ fun y hy => sees_of_head hmid hy
  · have hkind : t.kind = .symbol .lbracket := (hstops.unnamed _ hmid.cause).2.symm
    have hpair : Spellable (before.map (·.kind) ++ pair) := spellable_append.2 ⟨hspellable, by simp [pair]⟩
    refine ⟨hkind, ?_, ?_⟩
    · rw [List.map_append, List.map_singleton, hkind]
      refine Viable.of_append (v := [.symbol .rbracket]) ?_
      rw [List.append_assoc]
      exact viable_of_completable hpair (hstops.paired hmid)
    · obtain _ | ⟨u, rest⟩ := after
      -- The end of the file is no bracket.
      · obtain ⟨ts, eof, hts, heof, -⟩ := exists_tokens source
        obtain ⟨-, heq⟩ := List.append_inj' (htokens.symm.trans hts) rfl
        cases heq
        cases hkind.symm.trans heof
      · refine ⟨u, rest, rfl, ?_⟩
        rw [List.map_append]
        exact hnot _ fun y hy => sees_of_pair hy
  · have herrors := (tokenizes_lex source).error?_iff.2 t (htokens ▸ by simp) (by simp [hk])
    have herror : t.error? = some ⟨fault, t.span⟩ := by
      rw [Token.error?, hk]
    have hmessage : e.message = fault.message := by
      obtain ⟨kind, span⟩ := t
      obtain rfl : kind = .invalid fault := hk
      rw [he]
      rfl
    refine ⟨⟨_, ((herrors _).1 herror).1, hspan⟩, fun err herr heq => ?_⟩
    have := (herrors err).2 ⟨herr, heq.trans hspan.symm⟩
    rw [herror] at this
    cases this
    exact hmessage

/-- A faulty token where an expression is missing. -/
theorem first_fault_unexpected :
    (parse "int f() \x7b return #; \x7d").error? =
      some ⟨.lexical (.unexpected '#'), ⟨17, 18⟩, ⟨1, 18⟩⟩ ∧
    ParseCause.lexical (.unexpected '#') ≠ .lexical .unclosedComment ∧
    ∃ before t after, FaultAt "int f() \x7b return #; \x7d"
      ⟨.lexical (.unexpected '#'), ⟨17, 18⟩, ⟨1, 18⟩⟩ before t after := by
  have hread : (parse "int f() \x7b return #; \x7d").error? =
      some ⟨.lexical (.unexpected '#'), ⟨17, 18⟩, ⟨1, 18⟩⟩ := by decide +kernel
  exact ⟨hread, by simp, first_fault hread (by simp)⟩

/-- The error is at the bracket, and there are programs that start with the tokens up
to it: the faulty token behind it is the one that none goes on with. -/
theorem viable_up_to_bracket :
    (parse "int[#] f() \x7b return 0; \x7d").error? =
      some ⟨.expected .identifier (.symbol .lbracket), ⟨3, 4⟩, ⟨1, 4⟩⟩ ∧
    (lex "int[#] f() \x7b return 0; \x7d").tokens[1]? = some ⟨.symbol .lbracket, ⟨3, 4⟩⟩ ∧
    Viable (((lex "int[#] f() \x7b return 0; \x7d").tokens.take 2).map (·.kind)) :=
  ⟨by decide +kernel, by decide +kernel, "int[] f() \x7b return 0; \x7d", by decide +kernel,
    by decide +kernel⟩

end ClassLang.Source
