import Mathlib
import ClassLang.Proofs.Source.Names
import ClassLang.Proofs.Token.Sentences
/-!
# Tokens — writing tokens

Tokens that can be written are read back: a text that has them one after the
other, a blank behind each, has these tokens and no errors (`sentence_spell`,
`errors_spell`).
-/


namespace ClassLang

open Token (Kind)

/-! ## Spellings -/

/-- How a token is written. -/
def Token.Kind.spelling : Kind → String
  | keyword k => k.spelling
  | symbol s => s.spelling
  | integer digits => digits
  | ident name => name
  | invalid _ | eof => ""

/-- The token is what its spelling is read as. -/
def Token.Kind.Spellable : Kind → Prop
  | keyword _ | symbol _ => True
  | integer digits => digits ≠ "" ∧ ∀ c ∈ digits.toList, c.isDigit = true
  | ident name => IsName name
  | invalid _ | eof => False

/-- The characters of tokens, a blank behind each. -/
def spelled (w : List Kind) : List Char := w.flatMap fun k => k.spelling.toList ++ [' ']

/-- A text of tokens. -/
def spell (w : List Kind) : String := String.ofList (spelled w)

theorem spelled_cons (k : Kind) (w : List Kind) :
    spelled (k :: w) = k.spelling.toList ++ ' ' :: spelled w := by
  simp [spelled]

/-- With the character behind it, a token of the kind would be longer, or would
start a comment. -/
def Token.Kind.Extends (c : Char) : Kind → Prop
  | keyword _ | ident _ => isIdentRest c = true
  | integer _ => c.isDigit = true
  | symbol .assign => c = '='
  | symbol .slash => c = '/' ∨ c = '*'
  | invalid .loneAmpersand => c = '&'
  | _ => False

/-- No blank makes a token longer. -/
theorem Token.Kind.not_extends_space (k : Kind) : ¬ k.Extends ' ' := by
  cases k with
  | symbol s => cases s <;> simp [Extends]
  | invalid fault => cases fault <;> simp [Extends]
  | keyword _ | ident _ => exact (by decide : ¬ isIdentRest ' ' = true)
  | integer _ => exact (by decide : ¬ ' '.isDigit = true)
  | eof => exact id

/-! ## Lexemes of spellings -/

/-- No comment starts with the character in front of the text. -/
def OpensNoComment (c : Char) (cs : List Char) : Prop :=
  c = '/' → ∀ d, cs.head? = some d → d ≠ '/' ∧ d ≠ '*'

/-- Skipping stops in front of a character that is no blank and starts no
comment. -/
theorem skip_lexeme {c : Char} {cs : List Char} (hblank : Text.isBlank c = false)
    (hopens : OpensNoComment c cs) (o : Nat) : skip .code o (c :: cs) = ⟨o, c :: cs, none⟩ := by
  rw [skip, if_neg (by simp [hblank])]
  · rintro ds hc rfl
    exact (hopens hc _ rfl).1 rfl
  · rintro ds hc rfl
    exact (hopens hc _ rfl).2 rfl

theorem not_isBlank {c : Char} (h : 0x20 < c.toNat) (h' : c.toNat < 0x7F) :
    Text.isBlank c = false := by
  simp [Text.isBlank, Text.inRanges, Text.blankRanges]
  omega

theorem toNat_of_isIdentStart {c : Char} (h : isIdentStart c = true) :
    65 ≤ c.toNat ∧ c.toNat ≤ 122 := by
  have hval : c.toNat = c.val.toNat := rfl
  simp only [isIdentStart, Char.isAlpha, Char.isUpper, Char.isLower, Bool.or_eq_true,
    Bool.and_eq_true, decide_eq_true_eq, beq_iff_eq, ge_iff_le, UInt32.le_iff_toNat_le] at h
  rcases h with (h | h) | rfl
  · have h₁ : 65 ≤ c.val.toNat := h.1
    have h₂ : c.val.toNat ≤ 90 := h.2
    omega
  · have h₁ : 97 ≤ c.val.toNat := h.1
    have h₂ : c.val.toNat ≤ 122 := h.2
    omega
  · decide

theorem toNat_of_isDigit {c : Char} (h : c.isDigit = true) : 48 ≤ c.toNat ∧ c.toNat ≤ 57 := by
  simp only [Char.isDigit, Bool.and_eq_true, decide_eq_true_eq, ge_iff_le,
    UInt32.le_iff_toNat_le] at h
  exact h

theorem skip_code {c : Char} (hslash : c ≠ '/') (h : 0x20 < c.toNat) (h' : c.toNat < 0x7F) (o : Nat)
    (cs : List Char) : skip .code o (c :: cs) = ⟨o, c :: cs, none⟩ :=
  skip_lexeme (not_isBlank h h') (fun hc => absurd hc hslash) o

theorem skip_word {c : Char} (hc : isIdentStart c = true) (o : Nat) (cs : List Char) :
    skip .code o (c :: cs) = ⟨o, c :: cs, none⟩ := by
  have hc := toNat_of_isIdentStart hc
  refine skip_code ?_ (by omega) (by omega) o cs
  rintro rfl
  exact absurd hc (by decide)

/-- Characters of a class in front of one that is not in it are its longest
prefix. -/
theorem takeWhile_dropWhile_append {p : Char → Bool} {cs rest : List Char}
    (hcs : ∀ d ∈ cs, p d = true) (hrest : ∀ d, rest.head? = some d → ¬ p d = true) :
    (cs ++ rest).takeWhile p = cs ∧ (cs ++ rest).dropWhile p = rest := by
  rw [List.takeWhile_append_of_pos hcs, List.dropWhile_append_of_pos hcs]
  cases rest with
  | nil => simp
  | cons d ds => simp [hrest d rfl]

/-- A word is taken as a whole. -/
theorem lexeme_word {c : Char} {cs rest : List Char} (hc : isIdentStart c = true)
    (hcs : ∀ d ∈ cs, isIdentRest d = true)
    (hrest : ∀ d, rest.head? = some d → ¬ isIdentRest d = true) :
    lexeme c (cs ++ rest) = ⟨.ofWord (String.ofList (c :: cs)), c :: cs, rest⟩ := by
  have hequals : c ≠ '=' := by
    rintro rfl
    exact absurd hc (by decide)
  have hampersand : c ≠ '&' := by
    rintro rfl
    exact absurd hc (by decide)
  have hdigit : c.isDigit = false := by
    rw [← Bool.not_eq_true]
    intro hdigit
    have := toNat_of_isIdentStart hc
    have := toNat_of_isDigit hdigit
    omega
  obtain ⟨htake, hdrop⟩ := takeWhile_dropWhile_append hcs hrest
  simp [lexeme, hequals, hampersand, hdigit, hc, htake, hdrop]

/-- Digits are taken as a whole. -/
theorem lexeme_digits {c : Char} {cs rest : List Char} (hc : c.isDigit = true)
    (hcs : ∀ d ∈ cs, d.isDigit = true) (hrest : ∀ d, rest.head? = some d → ¬ d.isDigit = true) :
    lexeme c (cs ++ rest) = ⟨.integer (String.ofList (c :: cs)), c :: cs, rest⟩ := by
  have hequals : c ≠ '=' := by
    rintro rfl
    exact absurd hc (by decide)
  have hampersand : c ≠ '&' := by
    rintro rfl
    exact absurd hc (by decide)
  obtain ⟨htake, hdrop⟩ := takeWhile_dropWhile_append hcs hrest
  simp [lexeme, hequals, hampersand, hc, htake, hdrop]

theorem isName_of_all {s : String} {c : Char} {cs : List Char} (hlist : s.toList = c :: cs)
    (hstart : isIdentStart c = true) (hrest : cs.all isIdentRest = true)
    (hfree : Keyword.ofString? s = none) : IsName s :=
  ⟨⟨c, cs, hlist, hstart, List.all_eq_true.1 hrest⟩, hfree⟩

theorem Keyword.spelling_eq (k : Keyword) : ∃ c cs, k.spelling.toList = c :: cs ∧
    isIdentStart c = true ∧ ∀ d ∈ cs, isIdentRest d = true := by
  cases k <;> exact ⟨_, _, rfl, rfl, List.all_eq_true.1 rfl⟩

/-- **A spelling that could not be longer** is read as the token, and it starts
neither with a blank nor with a comment. -/
theorem Token.Kind.Spellable.lexeme_eq {k : Kind} (h : k.Spellable) {rest : List Char}
    (hrest : ∀ d, rest.head? = some d → ¬ k.Extends d) :
    ∃ c cs, k.spelling.toList ++ rest = c :: cs ∧
      lexeme c cs = ⟨k, k.spelling.toList, rest⟩ ∧
      ∀ o, skip .code o (c :: cs) = ⟨o, c :: cs, none⟩ := by
  cases k with
  | keyword k =>
    obtain ⟨c, cs, hk, hc, hcs⟩ := k.spelling_eq
    refine ⟨c, cs ++ rest, by rw [spelling, hk, List.cons_append], ?_, fun o => ?_⟩
    · have hword : String.ofList (c :: cs) = k.spelling := by rw [← hk, String.ofList_toList]
      rw [lexeme_word hc hcs hrest, spelling, hk, hword, ofWord, Keyword.ofString?_spelling]
    · exact skip_word hc o _
  | symbol s =>
    cases s with
    -- `=` and `/` are the symbols that could be longer or start a comment.
    | assign =>
      refine ⟨'=', rest, rfl, ?_, fun o => by rfl⟩
      cases rest with
      | nil => rfl
      | cons d ds =>
        have hd : d ≠ '=' := hrest d rfl
        simp [lexeme, hd, spelling, Symbol.spelling]
    | slash =>
      exact ⟨'/', rest, rfl, by rfl, skip_lexeme (by decide) fun _ d hd => not_or.1 (hrest d hd)⟩
    | _ => exact ⟨_, _, rfl, by rfl, fun o => by rfl⟩
  | integer digits =>
    obtain ⟨hne, hdigits⟩ := h
    cases hlist : digits.toList with
    | nil => exact absurd (String.toList_eq_nil_iff.1 hlist) hne
    | cons c cs =>
      rw [hlist, List.forall_mem_cons] at hdigits
      obtain ⟨hc, hcs⟩ := hdigits
      refine ⟨c, cs ++ rest, by rw [spelling, hlist, List.cons_append], ?_, fun o => ?_⟩
      · rw [lexeme_digits hc hcs hrest, ← hlist, String.ofList_toList, spelling]
      · have hc := toNat_of_isDigit hc
        refine skip_code ?_ (by omega) (by omega) o _
        rintro rfl
        exact absurd hc (by decide)
  | ident name =>
    obtain ⟨⟨c, cs, hname, hc, hcs⟩, hfree⟩ := h
    refine ⟨c, cs ++ rest, by rw [spelling, hname, List.cons_append], ?_, fun o => ?_⟩
    · rw [lexeme_word hc hcs hrest, ← hname, String.ofList_toList, ofWord, hfree]
      rfl
    · exact skip_word hc o _
  | invalid _ | eof => exact h.elim

/-! ## Texts of tokens -/

namespace Scanner

/-- The scanner stands in front of the tokens. -/
structure Before (s : Scanner) (w : List Kind) : Prop where
  unfinished : s.finished = false
  gap : ∃ o, skip .code s.offset s.rest = skip .code o (spelled w)

theorem Before.next_cons {s : Scanner} {k : Kind} {w : List Kind} (h : s.Before (k :: w))
    (hk : k.Spellable) :
    ∃ span s', s.next = some (⟨k, span⟩, s') ∧ s'.Before w ∧ s'.errors = s.errors := by
  obtain ⟨hfin, o, hgap⟩ := h
  have hspace : ∀ d, (' ' :: spelled w).head? = some d → ¬ k.Extends d := fun d hd => by
    obtain rfl := Option.some.inj hd
    exact k.not_extends_space
  obtain ⟨c, cs, heq, hlexeme, hskip⟩ := hk.lexeme_eq hspace
  rw [spelled_cons, heq, hskip o] at hgap
  unfold next
  rw [if_neg (by simp [hfin])]
  simp only [hgap, hlexeme]
  refine ⟨_, _, rfl, ⟨rfl, _, rfl⟩, ?_⟩
  cases k with
  | invalid _ => exact hk.elim
  | _ => exact List.append_nil _

theorem Before.next_nil {s : Scanner} (h : s.Before []) :
    ∃ span s', s.next = some (⟨.eof, span⟩, s') ∧ s'.finished = true ∧ s'.errors = s.errors := by
  obtain ⟨hfin, o, hgap⟩ := h
  unfold next
  rw [if_neg (by simp [hfin])]
  simp only [hgap]
  exact ⟨_, _, rfl, rfl, List.append_nil _⟩

theorem drain_of_next {s s' : Scanner} {t : Token} (h : s.next = some (t, s')) :
    s.drain = (t :: s'.drain.1, s'.drain.2) := by
  rw [drain]
  split
  next hnone => rw [h] at hnone; cases hnone
  next heq =>
    obtain ⟨rfl, rfl⟩ := Prod.mk.inj (Option.some.inj (h.symm.trans heq))
    rfl

/-- **A scanner in front of tokens** takes these tokens and finds no error. -/
theorem Before.drain_eq {s : Scanner} {w : List Kind} (h : s.Before w)
    (hw : ∀ k ∈ w, k.Spellable) :
    s.drain.1.map (·.kind) = w ++ [.eof] ∧ s.drain.2.errors = s.errors := by
  induction w generalizing s with
  | nil =>
    obtain ⟨span, s', hnext, hfin, herrors⟩ := h.next_nil
    rw [drain_of_next hnext, drain_of_finished hfin]
    exact ⟨rfl, herrors⟩
  | cons k w ih =>
    rw [List.forall_mem_cons] at hw
    obtain ⟨span, s', hnext, hs', herrors⟩ := h.next_cons hw.1
    obtain ⟨hkinds, hlast⟩ := ih hs' hw.2
    rw [drain_of_next hnext]
    exact ⟨by simp [hkinds], hlast.trans herrors⟩

end Scanner

variable {w : List Kind}

theorem lex_spell (hw : ∀ k ∈ w, k.Spellable) :
    (lex (spell w)).tokens.map (·.kind) = w ++ [.eof] ∧ (lex (spell w)).errors = [] := by
  have hbefore : (Scanner.ofString (spell w)).Before w :=
    ⟨rfl, 0, by rw [Scanner.ofString, spell, String.toList_ofList]; rfl⟩
  exact hbefore.drain_eq hw

/-- **The tokens of a text of tokens** are these tokens. -/
theorem sentence_spell (hw : ∀ k ∈ w, k.Spellable) : sentence (spell w) = w :=
  List.append_cancel_right ((kinds_lex _).symm.trans (lex_spell hw).1)

theorem errors_spell (hw : ∀ k ∈ w, k.Spellable) : (lex (spell w)).errors = [] :=
  (lex_spell hw).2

end ClassLang
