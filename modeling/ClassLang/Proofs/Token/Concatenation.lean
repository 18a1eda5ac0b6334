import Mathlib
import ClassLang.Proofs.Token.Tokenization
/-!
# Tokens — texts one after the other

The scanner carries nothing over a line feed, unless it stands in a block
comment: a text, a line feed and another text have the tokens and the errors of
both, those of the second moved behind the first (`lex_append_line`). No token
goes over a line feed, and a comment that ends with its line ends there.
-/


namespace ClassLang

open Token (Kind)

/-! ## Texts that start further on -/

/-- The span so many bytes further on. -/
def Span.shift (n : Nat) (s : Span) : Span := ⟨s.start + n, s.stop + n⟩

/-- The token so many bytes further on. -/
def Token.shift (n : Nat) (t : Token) : Token := ⟨t.kind, t.span.shift n⟩

/-- The error so many bytes further on. -/
def LexError.shift (n : Nat) (e : LexError) : LexError := ⟨e.fault, e.span.shift n⟩

theorem Token.error?_shift (n : Nat) (t : Token) :
    (t.shift n).error? = t.error?.map (LexError.shift n) := by
  obtain ⟨kind, span⟩ := t
  cases kind <;> rfl

/-- A text has the same tokens wherever it starts. -/
theorem Tokenizes.shift {o : Nat} {cs : List Char} {ts : List Token} {errors : List LexError}
    (h : Tokenizes o cs ts errors) (n : Nat) :
    Tokenizes (o + n) cs (ts.map (Token.shift n)) (errors.map (LexError.shift n)) := by
  induction h with
  | @done o gap hgap =>
    have hdone := Tokenizes.done (o := o + n) hgap
    rw [Nat.add_right_comm] at hdone
    exact hdone
  | @unclosed o stop gap body hgap hbody hstop =>
    have hstop' : stop + n = o + n + byteLength (gap ++ '/' :: '*' :: body) := by omega
    have hunclosed := Tokenizes.unclosed hgap hbody hstop'
    rw [Nat.add_right_comm] at hunclosed
    exact hunclosed
  | @token o gap text rest t ts errors hgap hlexeme hspan _ ih =>
    have hspan' : (t.shift n).span = ⟨o + n + byteLength gap,
        o + n + byteLength gap + byteLength text⟩ := by
      simp only [Token.shift, Span.shift, hspan, Span.mk.injEq]
      omega
    have htoken := Tokenizes.token (t := t.shift n) hgap hlexeme hspan' ih
    rw [Token.error?_shift] at htoken
    rw [List.map_cons, List.map_append, ← Option.toList_map]
    exact htoken

/-! ## What follows a text -/

/-- What a spacing stands in front of matters to it only by the character that
ends a comment with its line. -/
theorem Spacing.of_head? {rest rest' gap : List Char} (h : Spacing rest gap)
    (hrest : ∀ c, rest'.head? = some c → c = '\n' ∨ rest.head? = some c) : Spacing rest' gap := by
  induction h with
  | nil => exact .nil
  | blank hblank _ ih => exact .blank hblank ih
  | @line body gap hbody hend _ ih =>
    refine .line hbody (fun c hc => ?_) ih
    cases gap with
    | cons d gap => exact hend c hc
    | nil => exact (hrest c hc).elim id (hend c)
  | block hbody _ ih => exact .block hbody ih

/-- Two spacings one after the other are a spacing. -/
theorem Spacing.append {rest gap gap' : List Char} (h : Spacing (gap' ++ rest) gap)
    (h' : Spacing rest gap') : Spacing rest (gap ++ gap') := by
  induction h with
  | nil => exact h'
  | blank hblank _ ih => exact .blank hblank ih
  | @line body gap hbody hend _ ih =>
    rw [List.cons_append, List.cons_append, List.append_assoc]
    exact .line hbody (by rwa [List.append_assoc]) ih
  | @block body gap hbody _ ih =>
    rw [List.cons_append, List.cons_append, List.append_assoc, List.cons_append, List.cons_append]
    exact .block hbody ih

/-- A spacing in front of a text adds no tokens to it. -/
theorem Tokenizes.spaced {o : Nat} {gap cs : List Char} {ts : List Token} {errors : List LexError}
    (hgap : Spacing cs gap) (h : Tokenizes (o + byteLength gap) cs ts errors) :
    Tokenizes o (gap ++ cs) ts errors := by
  cases h with
  | done hcs =>
    rw [← List.append_nil cs] at hgap
    have hdone := Tokenizes.done (o := o) (hgap.append hcs)
    rwa [byteLength_append, ← Nat.add_assoc] at hdone
  | @unclosed _ stop gap' body hgap' hbody hstop =>
    rw [← List.append_assoc, Nat.add_assoc, ← byteLength_append]
    refine .unclosed (hgap.append hgap') hbody ?_
    rw [hstop, List.append_assoc, byteLength_append gap, Nat.add_assoc]
  | @token _ gap' text rest t ts errors hgap' hlexeme hspan hts =>
    rw [List.append_assoc] at hgap ⊢
    rw [← List.append_assoc, ← List.append_assoc]
    refine .token (hgap.append hgap') hlexeme ?_ hts
    rw [hspan, byteLength_append, ← Nat.add_assoc o]

/-! ## Line feeds -/

/-- No line feed makes a token longer. -/
theorem Token.Kind.not_extends_newline (k : Kind) : ¬ k.Extends '\n' := by
  cases k with
  | symbol s => cases s <;> simp [Extends]
  | invalid fault => cases fault <;> simp [Extends]
  | keyword _ | ident _ => exact (by decide : ¬ isIdentRest '\n' = true)
  | integer _ => exact (by decide : ¬ '\n'.isDigit = true)
  | eof => exact id

theorem head?_append_line {rest b : List Char} {c : Char}
    (h : (rest ++ '\n' :: b).head? = some c) : c = '\n' ∨ rest.head? = some c := by
  cases rest with
  | nil => exact .inl (Option.some.inj h).symm
  | cons d rest => exact .inr h

/-- A lexeme does not go over a line feed. -/
theorem IsLexeme.append_line {k : Kind} {text rest : List Char} (h : IsLexeme k text rest)
    (b : List Char) : IsLexeme k text (rest ++ '\n' :: b) where
  reads := h.reads
  maximal := fun c hc => by
    rcases head?_append_line hc with rfl | hc
    · exact k.not_extends_newline
    · exact h.maximal c hc

/-- A line feed behind a text does not change the spacing in it. -/
theorem Spacing.append_line {rest gap : List Char} (h : Spacing rest gap) (b : List Char) :
    Spacing (rest ++ '\n' :: b) gap :=
  h.of_head? fun _ => head?_append_line

/-- **Tokens of two texts with a line feed between them**: the end of the first
goes, and what its last line leaves open is closed by the line feed. -/
theorem Tokenizes.append_line {o : Nat} {a b : List Char} {ts us : List Token}
    {errors errors' : List LexError} (ha : Tokenizes o a ts errors)
    (hclosed : ∀ e ∈ errors, e.fault ≠ .unclosedComment)
    (hb : Tokenizes (o + byteLength a + 1) b us errors') :
    Tokenizes o (a ++ '\n' :: b) (ts.filter (·.kind ≠ .eof) ++ us) (errors ++ errors') := by
  induction ha with
  | @done o gap hgap =>
    have hblank : Spacing b ['\n'] := .blank (by decide) .nil
    have hline : Spacing b (gap ++ ['\n']) := Spacing.append (hgap.append_line b) hblank
    have hlength : o + byteLength (gap ++ ['\n']) = o + byteLength gap + 1 := by
      rw [byteLength_append, ← Nat.add_assoc]
      rfl
    rw [← hlength] at hb
    simpa using hb.spaced hline
  | unclosed => exact absurd rfl (hclosed _ (List.mem_singleton_self _))
  | @token o gap text rest t ts errors hgap hlexeme hspan _ ih =>
    have hrest := ih (fun e he => hclosed e (List.mem_append_right _ he)) (by
      rw [hspan]
      rwa [byteLength_append, byteLength_append, ← Nat.add_assoc, ← Nat.add_assoc] at hb)
    have hgap : Spacing (text ++ (rest ++ '\n' :: b)) gap := by
      rw [← List.append_assoc]
      exact hgap.append_line b
    have hkind : t.kind ≠ .eof := hlexeme.reads.ne_eof
    rw [List.filter_cons_of_pos (by simpa using hkind), List.append_assoc (gap ++ text),
      List.append_assoc t.error?.toList]
    exact .token hgap (hlexeme.append_line b) hspan hrest

/-- **Lexing is compositional at line feeds.** Where a text does not end inside a
block comment, its tokens without the end of the file and its errors come first;
behind them stand those of the text behind the line feed, further on by the bytes
of the first text and one. -/
theorem lex_append_line {a b : String}
    (h : ∀ e ∈ (lex a).errors, e.fault ≠ .unclosedComment) :
    lex (a ++ "\n" ++ b) =
      ⟨(lex a).tokens.filter (·.kind ≠ .eof) ++
          (lex b).tokens.map (Token.shift (byteLength a.toList + 1)),
        (lex a).errors ++ (lex b).errors.map (LexError.shift (byteLength a.toList + 1))⟩ := by
  have ha := tokenizes_lex a
  have hb := tokenizes_lex b
  have happend : (a ++ "\n" ++ b).toList = a.toList ++ '\n' :: b.toList := by simp
  rw [lex_eq_iff, happend]
  refine ha.append_line h ?_
  rw [Nat.add_assoc]
  exact hb.shift _

/-- A comment of two-byte characters ends with its line, and faults stand on both
sides of the line feed. -/
theorem lex_append_line_comment :
    (∀ e ∈ (lex "x & // é").errors, e.fault ≠ .unclosedComment) ∧
    lex ("x & // é" ++ "\n" ++ "@") =
      ⟨[⟨.ident "x", ⟨0, 1⟩⟩, ⟨.invalid .loneAmpersand, ⟨2, 3⟩⟩,
          ⟨.invalid (.unexpected '@'), ⟨10, 11⟩⟩, ⟨.eof, ⟨11, 11⟩⟩],
        [⟨.loneAmpersand, ⟨2, 3⟩⟩, ⟨.unexpected '@', ⟨10, 11⟩⟩]⟩ := by
  have ha : lex "x & // é" = ⟨[⟨.ident "x", ⟨0, 1⟩⟩, ⟨.invalid .loneAmpersand, ⟨2, 3⟩⟩,
      ⟨.eof, ⟨9, 9⟩⟩], [⟨.loneAmpersand, ⟨2, 3⟩⟩]⟩ := by decide +kernel
  have hb : lex "@" = ⟨[⟨.invalid (.unexpected '@'), ⟨0, 1⟩⟩, ⟨.eof, ⟨1, 1⟩⟩],
      [⟨.unexpected '@', ⟨0, 1⟩⟩]⟩ := by decide +kernel
  have hclosed : ∀ e ∈ (lex "x & // é").errors, e.fault ≠ .unclosedComment := by
    rw [ha]
    decide
  refine ⟨hclosed, ?_⟩
  rw [lex_append_line hclosed, ha, hb]
  rfl

end ClassLang
