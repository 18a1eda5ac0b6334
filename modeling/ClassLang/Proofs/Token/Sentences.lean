import ClassLang.Token.Scanner
/-!
# Tokens — the tokens of a text

The tokens of a text are those that are read from it, its sentence, and behind
them the end of the file, which is none of them (`kinds_lex`).
-/


namespace ClassLang

open Token (Kind)

/-- The kinds of the tokens of a text, without the end of the file. -/
def sentence (source : String) : List Kind :=
  ((lex source).tokens.map (·.kind)).filter (· ≠ .eof)

theorem lexeme_kind_ne_eof (c : Char) (cs : List Char) : (lexeme c cs).kind ≠ .eof := by
  unfold lexeme Kind.ofWord
  split
  · split <;> simp
  split
  · split <;> simp
  split
  · simp
  split
  · dsimp only
    split <;> simp
  · split <;> simp

namespace Scanner

theorem drain_of_finished {s : Scanner} (h : s.finished = true) : s.drain = ([], s) := by
  have hnext : s.next = none := by
    unfold next
    rw [if_pos h]
  rw [drain]
  split
  next => rfl
  next heq => rw [hnext] at heq; cases heq

/-- A scanner is finished by the end of the file, and by that token only. -/
theorem finished_of_next {s s' : Scanner} {t : Token} (h : s.next = some (t, s')) :
    t.kind = .eof ∧ s'.finished = true ∨ t.kind ≠ .eof ∧ s'.finished = false := by
  unfold next at h
  split at h
  · cases h
  dsimp only at h
  split at h
  · cases h
    exact .inl ⟨rfl, rfl⟩
  · cases h
    exact .inr ⟨lexeme_kind_ne_eof _ _, rfl⟩

theorem next_isSome {s : Scanner} (h : s.finished = false) : s.next ≠ none := by
  unfold next
  rw [if_neg (by simp [h])]
  dsimp only
  split <;> simp

theorem kinds_drain (s : Scanner) (h : s.finished = false) :
    ∃ w, s.drain.1.map (·.kind) = w ++ [.eof] ∧ Kind.eof ∉ w := by
  rw [drain]
  split
  next hnone => exact absurd hnone (next_isSome h)
  next t s' hnext =>
    have hlt := remaining_lt_of_next hnext
    rcases finished_of_next hnext with ⟨hkind, hfin⟩ | ⟨hkind, hfin⟩
    · rw [drain_of_finished hfin]
      exact ⟨[], by simp [hkind], by simp⟩
    · obtain ⟨w, hw, heof⟩ := kinds_drain s' hfin
      refine ⟨t.kind :: w, by simpa using hw, ?_⟩
      rw [List.mem_cons, not_or]
      exact ⟨hkind.symm, heof⟩
termination_by s.remaining

end Scanner

/-- **The end of the file stands behind the sentence of a text** and nowhere
else. -/
theorem kinds_lex (source : String) :
    (lex source).tokens.map (·.kind) = sentence source ++ [.eof] := by
  obtain ⟨w, hw, heof⟩ := (Scanner.ofString source).kinds_drain rfl
  have hw : (lex source).tokens.map (·.kind) = w ++ [.eof] := hw
  have hfilter : w.filter (· ≠ .eof) = w :=
    List.filter_eq_self.2 fun k hk => decide_eq_true fun heq => heof (heq ▸ hk)
  rw [sentence, hw, List.filter_append, hfilter]
  simp

theorem eof_not_mem_sentence (source : String) : Kind.eof ∉ sentence source := fun h => by
  simp [sentence] at h

end ClassLang
