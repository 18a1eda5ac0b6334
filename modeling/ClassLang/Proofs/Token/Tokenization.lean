import ClassLang.Proofs.Token.Spacing
/-!
# Tokens — a text and its tokens

A text is its tokens with a spacing in front of each and one at its end
(`Tokenizes`), and no token could be longer (`IsLexeme`). The scanner finds
these tokens, and no others fit the text (`lex_eq_iff`).
-/


namespace ClassLang

open Token (Kind)

/-! ## Lexemes -/

/-- A character that neither is a blank nor starts a token. -/
structure Foreign (c : Char) : Prop where
  blank : Text.isBlank c = false
  digit : c.isDigit = false
  ident : isIdentStart c = false
  symbol : ∀ s : Symbol, s.spelling.toList.head? ≠ some c

/-- The characters are a token of the kind. -/
def Token.Kind.Reads (text : List Char) : Kind → Prop
  | invalid (.unexpected c) => text = [c] ∧ Foreign c
  | invalid .loneAmpersand => text = ['&']
  | k => k.Spellable ∧ k.spelling.toList = text

/-- The characters in front of the rest are a token of the kind, and no longer
one starts with them. -/
structure IsLexeme (kind : Kind) (text rest : List Char) : Prop where
  reads : kind.Reads text
  maximal : ∀ c, rest.head? = some c → ¬ kind.Extends c

theorem Token.Kind.Reads.ne_eof {k : Kind} {text : List Char} (h : k.Reads text) : k ≠ .eof := by
  rintro rfl
  exact h.1

theorem Token.Kind.Reads.ne_nil {k : Kind} {text : List Char} (h : k.Reads text) : text ≠ [] := by
  rintro rfl
  cases k with
  | keyword k =>
    obtain ⟨c, cs, hk, -⟩ := k.spelling_eq
    exact absurd (hk.symm.trans h.2) (List.cons_ne_nil _ _)
  | symbol s => cases s <;> exact absurd h.2 (by decide)
  | integer digits => exact h.1.1 (String.toList_eq_nil_iff.1 h.2)
  | ident name =>
    obtain ⟨c, cs, hname, -⟩ := h.1.chars
    exact absurd (hname.symm.trans h.2) (List.cons_ne_nil _ _)
  | invalid fault =>
    cases fault with
    | unexpected c => exact absurd h.1 (List.cons_ne_nil _ _).symm
    | loneAmpersand => exact absurd h (List.cons_ne_nil _ _).symm
    | unclosedComment => exact h.1
  | eof => exact h.1

theorem Symbol.spelling_of_ofChar? {c : Char} {s : Symbol} (h : Symbol.ofChar? c = some s) :
    s.spelling.toList = [c] ∧ s ≠ .assign := by
  unfold Symbol.ofChar? at h
  split at h <;> first | cases h; exact ⟨rfl, by decide⟩ | cases h

/-- The characters that start a symbol. -/
theorem Symbol.head?_spelling_of_ofChar? {c : Char} (h : Symbol.ofChar? c = none) (hassign : c ≠ '=')
    (hconj : c ≠ '&') (s : Symbol) : s.spelling.toList.head? ≠ some c := by
  intro hs
  cases s <;> first
    | exact hassign (Option.some.inj hs).symm
    | exact hconj (Option.some.inj hs).symm
    | (obtain rfl := Option.some.inj hs; cases h)

/-- What is left behind the longest prefix of some characters starts with none of
them. -/
theorem not_of_head?_dropWhile {p : Char → Bool} {cs : List Char} {c : Char}
    (h : (cs.dropWhile p).head? = some c) : ¬ p c = true := by
  have hhead := List.head?_dropWhile_not p cs
  rw [h] at hhead
  simpa using hhead

/-- **The scanner takes a lexeme**, where a spacing ends. -/
theorem isLexeme_lexeme {c : Char} {cs : List Char} (hblank : Text.isBlank c = false)
    (hopens : OpensNoComment c cs) :
    IsLexeme (lexeme c cs).kind (lexeme c cs).text (lexeme c cs).rest := by
  unfold lexeme
  split
  -- The cases are the branches of the scanner, in its order: `=` and `&` by what follows,
  -- then numbers, words, the other symbols and what is no token.
  next hassign =>
    split <;> dsimp only
    · exact ⟨⟨trivial, rfl⟩, fun _ _ => id⟩
    next hcs =>
      refine ⟨⟨trivial, rfl⟩, fun d hd hext => ?_⟩
      obtain ⟨ds, rfl⟩ := List.head?_eq_some_iff.1 hd
      exact hcs ds (by rw [show d = '=' from hext])
  next hassign =>
  split
  next hconj =>
    split <;> dsimp only
    · exact ⟨⟨trivial, rfl⟩, fun _ _ => id⟩
    next hcs =>
      refine ⟨rfl, fun d hd hext => ?_⟩
      obtain ⟨ds, rfl⟩ := List.head?_eq_some_iff.1 hd
      exact hcs ds (by rw [show d = '&' from hext])
  next hconj =>
  split
  next hdigit =>
    refine ⟨⟨⟨?_, ?_⟩, String.toList_ofList⟩, fun d hd => not_of_head?_dropWhile hd⟩
    · intro hempty
      simpa using congrArg String.toList hempty
    · rw [String.toList_ofList]
      exact List.forall_mem_cons.2 ⟨hdigit, List.all_eq_true.1 List.all_takeWhile⟩
  next hdigit =>
  split
  next hident =>
    have hrest := List.all_eq_true.1 (List.all_takeWhile (p := isIdentRest) (l := cs))
    unfold Kind.ofWord
    dsimp only
    split
    next k hk =>
      refine ⟨⟨trivial, ?_⟩, fun d hd => not_of_head?_dropWhile hd⟩
      rw [Kind.spelling, Keyword.spelling_of_ofString? hk, String.toList_ofList]
    next hfree =>
      refine ⟨⟨⟨⟨c, _, String.toList_ofList, hident, hrest⟩, hfree⟩, ?_⟩,
        fun d hd => not_of_head?_dropWhile hd⟩
      exact String.toList_ofList
  next hident =>
  split
  next s hs =>
    obtain ⟨hspelling, hne⟩ := Symbol.spelling_of_ofChar? hs
    refine ⟨⟨trivial, hspelling⟩, fun d hd hext => ?_⟩
    cases s with
    | assign => exact hne rfl
    | slash =>
      obtain rfl : '/' = c := List.singleton_inj.1 hspelling
      obtain ⟨hslash, hstar⟩ := hopens rfl d hd
      exact hext.elim hslash hstar
    | _ => exact hext
  next hs =>
    have hsymbol := Symbol.head?_spelling_of_ofChar? hs hassign hconj
    exact ⟨⟨rfl, hblank, by simpa using hdigit, by simpa using hident, hsymbol⟩, fun _ _ => id⟩

theorem Foreign.lexeme_eq {c : Char} (h : Foreign c) (rest : List Char) :
    lexeme c rest = ⟨.invalid (.unexpected c), [c], rest⟩ := by
  have hassign : c ≠ '=' := by
    rintro rfl
    exact h.symbol .assign rfl
  have hconj : c ≠ '&' := by
    rintro rfl
    exact h.symbol .conj rfl
  have hsymbol : Symbol.ofChar? c = none := by
    rw [Option.eq_none_iff_forall_ne_some]
    intro s hs
    refine h.symbol s ?_
    rw [(Symbol.spelling_of_ofChar? hs).1]
    rfl
  simp [lexeme, hassign, hconj, h.digit, h.ident, hsymbol]

/-- **A lexeme is what the scanner takes**, and no spacing goes over it. -/
theorem IsLexeme.exists_eq {kind : Kind} {text rest : List Char} (h : IsLexeme kind text rest) :
    ∃ c cs, text ++ rest = c :: cs ∧ lexeme c cs = ⟨kind, text, rest⟩ ∧
      ∀ o, skip .code o (c :: cs) = ⟨o, c :: cs, none⟩ := by
  obtain ⟨hreads, hmaximal⟩ := h
  cases kind with
  | invalid fault =>
    cases fault with
    | unexpected c =>
      obtain ⟨rfl, hforeign⟩ := hreads
      have hslash : c ≠ '/' := by
        rintro rfl
        exact hforeign.symbol .slash rfl
      exact ⟨c, rest, rfl, hforeign.lexeme_eq rest,
        skip_lexeme hforeign.blank fun hc => absurd hc hslash⟩
    | loneAmpersand =>
      obtain rfl : text = ['&'] := hreads
      refine ⟨'&', rest, rfl, ?_, fun o => by rfl⟩
      cases rest with
      | nil => rfl
      | cons d ds =>
        have hd : d ≠ '&' := hmaximal d rfl
        simp [lexeme, hd]
    | unclosedComment => exact hreads.1.elim
  | _ =>
    obtain ⟨hspellable, rfl⟩ := hreads
    exact hspellable.lexeme_eq hmaximal

/-! ## Texts -/

/-- A text that starts at an offset is these tokens, the end of the file behind
them, with a spacing in front of each; the errors are those of its faulty tokens
and of the comment that it ends in. -/
inductive Tokenizes : Nat → List Char → List Token → List LexError → Prop
  | done {o : Nat} {gap : List Char} : Spacing [] gap →
      Tokenizes o gap [⟨.eof, ⟨o + byteLength gap, o + byteLength gap⟩⟩] []
  | unclosed {o stop : Nat} {gap body : List Char} :
      Spacing ('/' :: '*' :: body) gap → Unclosed body →
      stop = o + byteLength (gap ++ '/' :: '*' :: body) →
      Tokenizes o (gap ++ '/' :: '*' :: body) [⟨.eof, ⟨stop, stop⟩⟩]
        [⟨.unclosedComment, ⟨o + byteLength gap, stop⟩⟩]
  | token {o : Nat} {gap text rest : List Char} {t : Token} {ts : List Token}
      {errors : List LexError} :
      Spacing (text ++ rest) gap → IsLexeme t.kind text rest →
      t.span = ⟨o + byteLength gap, o + byteLength gap + byteLength text⟩ →
      Tokenizes t.span.stop rest ts errors →
      Tokenizes o (gap ++ text ++ rest) (t :: ts) (t.error?.toList ++ errors)

theorem exists_tokenizes (o : Nat) (cs : List Char) : ∃ ts errors, Tokenizes o cs ts errors := by
  obtain ⟨gap, rest, hsource, hgap, hrest⟩ := exists_spacing cs
  cases hrest with
  | text => exact ⟨_, _, by simpa [hsource] using Tokenizes.done hgap⟩
  | comment hbody =>
    rw [hsource]
    exact ⟨_, _, .unclosed hgap hbody rfl⟩
  | @lexeme c ds hblank hopens =>
    have hlexeme := isLexeme_lexeme hblank hopens
    -- A lexeme is not empty, so less of the text is left behind it.
    have hlt : (lexeme c ds).rest.length < cs.length := by
      have := length_lexeme_rest_lt c ds
      rw [hsource, List.length_append]
      omega
    let t : Token :=
      ⟨(lexeme c ds).kind, ⟨o + byteLength gap, o + byteLength gap + byteLength (lexeme c ds).text⟩⟩
    obtain ⟨ts, errors, hts⟩ := exists_tokenizes t.span.stop (lexeme c ds).rest
    rw [← lexeme_append c ds] at hgap
    rw [hsource, ← lexeme_append c ds, ← List.append_assoc]
    exact ⟨_, _, .token hgap hlexeme rfl hts⟩
termination_by cs.length

namespace Scanner

variable {o : Nat} {cs : List Char} {errors : List LexError}

/-- The scanner in front of the end of a text. -/
theorem drain_of_skip_nil {stop : Nat} {unclosed : Option Nat}
    (h : skip .code o cs = ⟨stop, [], unclosed⟩) :
    drain ⟨cs, o, false, errors⟩ = ([⟨.eof, ⟨stop, stop⟩⟩],
      ⟨[], stop, true, errors ++ (Gap.error? ⟨stop, [], unclosed⟩).toList⟩) := by
  have hnext : next ⟨cs, o, false, errors⟩ = some (⟨.eof, ⟨stop, stop⟩⟩,
      ⟨[], stop, true, errors ++ (Gap.error? ⟨stop, [], unclosed⟩).toList⟩) := by
    simp [next, h]
  rw [drain_of_next hnext, drain_of_finished rfl]

/-- The scanner in front of a token. -/
theorem drain_of_skip_cons {c : Char} {ds text rest : List Char} {t : Token}
    (h : skip .code o cs = ⟨t.span.start, c :: ds, none⟩) (hlexeme : lexeme c ds = ⟨t.kind, text, rest⟩)
    (hstop : t.span.stop = t.span.start + byteLength text) :
    drain ⟨cs, o, false, errors⟩ =
      (t :: (drain ⟨rest, t.span.stop, false, errors ++ t.error?.toList⟩).1,
        (drain ⟨rest, t.span.stop, false, errors ++ t.error?.toList⟩).2) := by
  obtain ⟨kind, start, stop⟩ := t
  dsimp only at h hlexeme hstop
  subst hstop
  have hnext : next ⟨cs, o, false, errors⟩ = some (⟨kind, ⟨start, start + byteLength text⟩⟩,
      ⟨rest, start + byteLength text, false,
        errors ++ (Token.error? ⟨kind, ⟨start, start + byteLength text⟩⟩).toList⟩) := by
    simp [next, h, hlexeme]
  rw [drain_of_next hnext]

end Scanner

/-- **The scanner finds the tokens of a text.** -/
theorem Tokenizes.drain_eq {o : Nat} {cs : List Char} {ts : List Token} {errors : List LexError}
    (h : Tokenizes o cs ts errors) (earlier : List LexError) :
    ∃ last, Scanner.drain ⟨cs, o, false, earlier⟩ = (ts, last) ∧ last.errors = earlier ++ errors := by
  induction h generalizing earlier with
  | @done o gap hgap =>
    have hskip : skip .code o gap = ⟨o + byteLength gap, [], none⟩ := by
      simpa [skip] using hgap.skip_eq o
    exact ⟨_, Scanner.drain_of_skip_nil hskip, rfl⟩
  | @unclosed o stop gap body hgap hbody hstop =>
    have hskip := hgap.skip_comment hbody o
    rw [← hstop] at hskip
    exact ⟨_, Scanner.drain_of_skip_nil hskip, rfl⟩
  | @token o gap text rest t ts errors hgap hlexeme hspan _ ih =>
    obtain ⟨c, cs, htext, heq, hskip⟩ := hlexeme.exists_eq
    obtain ⟨last, hlast, herrors⟩ := ih (earlier ++ t.error?.toList)
    have hskip : skip .code o (gap ++ text ++ rest) = ⟨o + byteLength gap, c :: cs, none⟩ := by
      rw [List.append_assoc, hgap.skip_eq, htext, hskip]
    rw [Scanner.drain_of_skip_cons (by rw [hskip, hspan]) heq (by rw [hspan]), hlast]
    exact ⟨last, rfl, by rw [herrors, List.append_assoc]⟩

/-- **A text has its tokens and no others.** -/
theorem lex_eq_iff {source : String} {ts : List Token} {errors : List LexError} :
    lex source = ⟨ts, errors⟩ ↔ Tokenizes 0 source.toList ts errors := by
  have hlex : ∀ ts errors, Tokenizes 0 source.toList ts errors → lex source = ⟨ts, errors⟩ := by
    intro ts errors h
    obtain ⟨last, hdrain, herrors⟩ := h.drain_eq []
    rw [lex, Scanner.ofString, Scanner.ofChars, hdrain]
    exact congrArg (Lexed.mk ts) herrors
  refine ⟨fun h => ?_, hlex ts errors⟩
  obtain ⟨ts', errors', h'⟩ := exists_tokenizes 0 source.toList
  obtain ⟨rfl, rfl⟩ := Lexed.mk.inj (h.symm.trans (hlex ts' errors' h'))
  exact h'

theorem tokenizes_lex (source : String) :
    Tokenizes 0 source.toList (lex source).tokens (lex source).errors := lex_eq_iff.1 rfl

end ClassLang
