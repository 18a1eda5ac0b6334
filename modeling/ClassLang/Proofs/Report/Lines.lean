import ClassLang.Report.Drawing
/-!
# Reports — the lines of a text

The position of a character is where its byte offset leads back to
(`offset_pos`), on the line that the newlines in front of it give
(`line_pos`). A drawing has lines of its own: they end at every terminator
(`IsLine`), so there are at least as many of them in front of a character, and
as many only if nothing but a newline ends a line there (`length_splitLines`).
-/


namespace ClassLang

namespace Lines

/-! ## Positions and offsets -/

theorem length_le_byteLength (cs : List Char) : cs.length ≤ byteLength cs := by
  induction cs with
  | nil => exact Nat.le_refl _
  | cons c cs ih =>
    have := c.utf8Size_pos
    rw [List.length_cons, byteLength_cons]
    omega

/-- As many bytes as characters are characters of one byte. -/
theorem byteLength_eq_length_iff {cs : List Char} :
    byteLength cs = cs.length ↔ ∀ c ∈ cs, c.utf8Size = 1 := by
  induction cs with
  | nil => simp
  | cons c cs ih =>
    have hc := c.utf8Size_pos
    have hle := length_le_byteLength cs
    rw [List.forall_mem_cons, ← ih, byteLength_cons, List.length_cons]
    omega

theorem startsAfter_cons (o : Nat) (c : Char) (cs : List Char) : startsAfter o (c :: cs) =
    if c = '\n' then (o + 1) :: startsAfter (o + 1) cs else startsAfter (o + c.utf8Size) cs := rfl

theorem startsAfter_append (o : Nat) (cs ds : List Char) :
    startsAfter o (cs ++ ds) = startsAfter o cs ++ startsAfter (o + byteLength cs) ds := by
  induction cs generalizing o with
  | nil => rfl
  | cons c cs ih =>
    by_cases hc : c = '\n'
    · have hsize : c.utf8Size = 1 := by rw [hc]; decide
      simp [startsAfter_cons, hc, ih, ← hsize, Nat.add_assoc]
    · simp [startsAfter_cons, hc, ih, Nat.add_assoc]

theorem length_startsAfter (o : Nat) (cs : List Char) :
    (startsAfter o cs).length = cs.count '\n' := by
  induction cs generalizing o with
  | nil => rfl
  | cons c cs ih =>
    by_cases hc : c = '\n'
    · simp [startsAfter_cons, hc, ih]
    · simp [startsAfter_cons, hc, ih]

theorem startsAfter_bounds (o : Nat) (cs : List Char) :
    ∀ s ∈ startsAfter o cs, o < s ∧ s ≤ o + byteLength cs := by
  induction cs generalizing o with
  | nil => simp [startsAfter]
  | cons c cs ih =>
    have hpos := c.utf8Size_pos
    intro s hs
    rw [byteLength_cons]
    by_cases hc : c = '\n'
    · have hsize : c.utf8Size = 1 := by rw [hc]; decide
      rw [startsAfter_cons, if_pos hc] at hs
      rcases List.mem_cons.1 hs with rfl | hs
      · omega
      · have := ih _ s hs
        omega
    · rw [startsAfter_cons, if_neg hc] at hs
      have := ih _ s hs
      omega

/-- The starts of the lines that are open or closed in front of a character. -/
def startsBefore (before : List Char) : List Nat := 0 :: startsAfter 0 before

theorem startsBefore_le (before : List Char) : ∀ s ∈ startsBefore before, s ≤ byteLength before := by
  refine List.forall_mem_cons.2 ⟨Nat.zero_le _, fun s hs => ?_⟩
  have := startsAfter_bounds 0 before s hs
  omega

theorem starts_append (before rest : List Char) :
    (ofChars (before ++ rest)).starts =
      startsBefore before ++ startsAfter (byteLength before) rest := by
  rw [ofChars, startsAfter_append, Nat.zero_add]
  rfl

/-- The lines that start no later than a character. -/
theorem takeWhile_starts (before rest : List Char) :
    (ofChars (before ++ rest)).starts.takeWhile (· ≤ byteLength before) = startsBefore before := by
  have hrest : (startsAfter (byteLength before) rest).takeWhile (· ≤ byteLength before) = [] := by
    cases heq : startsAfter (byteLength before) rest with
    | nil => rfl
    | cons s ss =>
      have hs := startsAfter_bounds (byteLength before) rest s (by rw [heq]; exact List.mem_cons_self)
      exact List.takeWhile_cons_of_neg (by simp; omega)
  rw [starts_append, List.takeWhile_append_of_pos, hrest, List.append_nil]
  exact fun s hs => decide_eq_true (startsBefore_le before s hs)

/-- **A character is on the line** that the newlines in front of it give. -/
theorem line_pos (before rest : List Char) :
    ((ofChars (before ++ rest)).pos (byteLength before)).line = 1 + before.count '\n' := by
  rw [pos, takeWhile_starts, startsBefore, List.length_cons, length_startsAfter]
  exact Nat.add_comm _ _

/-- **The position of a character leads back to it.** -/
theorem offset_pos (before rest : List Char) :
    (ofChars (before ++ rest)).offset ((ofChars (before ++ rest)).pos (byteLength before)) =
      byteLength before := by
  have hne : startsBefore before ≠ [] := List.cons_ne_nil _ _
  have hlast : (startsBefore before).getLast hne ≤ byteLength before :=
    startsBefore_le before _ (List.getLast_mem hne)
  have hstart : (ofChars (before ++ rest)).starts[(startsBefore before).length - 1]? =
      some ((startsBefore before).getLast hne) := by
    have hlt : (startsBefore before).length - 1 < (startsBefore before).length :=
      Nat.sub_lt (List.length_pos_iff.2 hne) Nat.one_pos
    rw [starts_append, List.getElem?_append_left hlt, ← List.getLast?_eq_getElem?,
      List.getLast?_eq_some_getLast hne]
  have hsize : (ofChars (before ++ rest)).size = byteLength before + byteLength rest :=
    byteLength_append before rest
  rw [offset, pos, takeWhile_starts]
  simp only [Nat.add_sub_cancel, hstart, hsize, List.getLastD_eq_getLast?,
    List.getLast?_eq_some_getLast hne, Option.getD_some]
  omega

end Lines

namespace Report

/-! ## Lines that end at every terminator -/

/-- A line ends behind a character with these ones after it. -/
def Ends (c : Char) (after : List Char) : Prop :=
  isTerminator c = true ∧ ¬ (c = '\r' ∧ after.head? = some '\n')

instance (c : Char) (after : List Char) : Decidable (Ends c after) :=
  inferInstanceAs (Decidable (_ ∧ _))

/-- The characters are one line, in front of the rest of a text. -/
inductive IsLine (rest : List Char) : List Char → Prop
  | ends {c : Char} : Ends c rest → IsLine rest [c]
  | last {c : Char} : rest = [] → IsLine rest [c]
  | cons {c : Char} {line : List Char} :
      ¬ Ends c (line ++ rest) → IsLine rest line → IsLine rest (c :: line)

theorem ends_newline (after : List Char) : Ends '\n' after :=
  ⟨by decide, fun h => absurd h.1 (by decide)⟩

theorem ends_append_iff {c : Char} {after : List Char} (h : after ≠ []) (more : List Char) :
    Ends c (after ++ more) ↔ Ends c after := by
  cases after with
  | nil => exact absurd rfl h
  | cons d ds => exact Iff.rfl

theorem IsLine.ne_nil {rest line : List Char} (h : IsLine rest line) : line ≠ [] := by
  cases h <;> exact List.cons_ne_nil _ _

/-- **The first line is split off.** -/
theorem IsLine.splitLines_eq {rest line : List Char} (h : IsLine rest line) :
    splitLines (line ++ rest) = line :: splitLines rest := by
  induction h with
  | @ends c hends =>
    rw [List.singleton_append, splitLines, if_pos hends.1]
    rintro ds hc rfl
    exact hends.2 ⟨hc, rfl⟩
  | @last c hrest =>
    subst hrest
    by_cases hc : isTerminator c = true <;> simp [splitLines, hc]
  | @cons c line hends hline ih =>
    by_cases hc : isTerminator c = true
    · -- Only a carriage return goes on, and with a newline, which ends the line.
      obtain ⟨rfl, hhead⟩ : c = '\r' ∧ (line ++ rest).head? = some '\n' :=
        Classical.not_not.1 fun h => hends ⟨hc, h⟩
      cases hline with
      | ends _ | last _ =>
        obtain rfl := Option.some.inj hhead
        simp [splitLines]
      | cons hgoes _ =>
        obtain rfl := Option.some.inj hhead
        exact absurd (ends_newline _) hgoes
    · rw [List.cons_append, splitLines, if_neg hc, ih]
      rintro ds rfl
      exact absurd (by decide) hc

/-- Every text starts with a line. -/
theorem exists_isLine {cs : List Char} (h : cs ≠ []) :
    ∃ line rest, cs = line ++ rest ∧ IsLine rest line := by
  induction cs with
  | nil => exact absurd rfl h
  | cons c cs ih =>
    by_cases hends : Ends c cs
    · exact ⟨[c], cs, rfl, .ends hends⟩
    by_cases hcs : cs = []
    · exact ⟨[c], cs, rfl, .last hcs⟩
    obtain ⟨line, rest, rfl, hline⟩ := ih hcs
    exact ⟨c :: line, rest, rfl, .cons hends hline⟩

/-- Characters behind which no line ends are in the line that follows. -/
theorem IsLine.append {rest line cs : List Char} (h : IsLine rest line)
    (hcs : ∀ pre c post, cs = pre ++ c :: post → ¬ Ends c (post ++ line ++ rest)) :
    IsLine rest (cs ++ line) := by
  induction cs with
  | nil => exact h
  | cons c cs ih =>
    refine .cons (hcs [] c cs rfl) (ih fun pre d post heq => ?_)
    exact hcs (c :: pre) d post (by rw [heq]; rfl)

/-- No line ends inside a line. -/
theorem IsLine.not_ends {rest line pre post : List Char} {c : Char} (h : IsLine rest line)
    (heq : line = pre ++ c :: post) (hpost : post ≠ []) : ¬ Ends c (post ++ rest) := by
  induction h generalizing pre with
  | ends _ | last _ =>
    cases pre with
    | nil => exact absurd (List.cons_eq_cons.1 heq).2.symm hpost
    | cons d pre => simp at heq
  | cons hends _ ih =>
    cases pre with
    | nil =>
      obtain ⟨rfl, rfl⟩ := List.cons_eq_cons.1 heq
      exact hends
    | cons d pre =>
      obtain ⟨rfl, rfl⟩ := List.cons_eq_cons.1 heq
      exact ih rfl

/-! ## How many lines -/

/-- The text stops at the end of a line. -/
def StopsAtNewline (cs : List Char) : Prop := ∀ c, cs.getLast? = some c → c = '\n'

theorem StopsAtNewline.right {cs rest : List Char} (h : StopsAtNewline (cs ++ rest)) :
    StopsAtNewline rest := by
  intro c hc
  exact h c (by rw [List.getLast?_append, hc]; rfl)

/-- The lines of a text that stops at a newline end as they do with more behind
it. -/
theorem IsLine.append_rest {rest line : List Char} (h : IsLine rest line)
    (hstops : StopsAtNewline (line ++ rest)) (more : List Char) : IsLine (rest ++ more) line := by
  induction h with
  | @ends c hends =>
    cases rest with
    | nil =>
      obtain rfl := hstops c rfl
      exact .ends (ends_newline _)
    | cons d ds => exact .ends hends
  | @last c hrest =>
    subst hrest
    obtain rfl := hstops c rfl
    exact .ends (ends_newline _)
  | @cons c line hends hline ih =>
    have hright : StopsAtNewline (line ++ rest) := (show StopsAtNewline ([c] ++ _) from hstops).right
    refine .cons ?_ (ih hright)
    cases line with
    | nil => exact absurd rfl hline.ne_nil
    | cons d ds => exact hends

/-- **Behind a newline a text is split** like one of its own. -/
theorem splitLines_append {cs : List Char} (h : StopsAtNewline cs) (more : List Char) :
    splitLines (cs ++ more) = splitLines cs ++ splitLines more := by
  by_cases hcs : cs = []
  · rw [hcs]
    rfl
  obtain ⟨line, rest, rfl, hline⟩ := exists_isLine hcs
  have hlt : rest.length < (line ++ rest).length := by
    have := List.length_pos_iff.2 hline.ne_nil
    rw [List.length_append]
    omega
  rw [hline.splitLines_eq, List.append_assoc, (hline.append_rest h more).splitLines_eq,
    splitLines_append h.right more, List.cons_append]
termination_by cs.length

theorem flatten_splitLines (cs : List Char) : (splitLines cs).flatten = cs := by
  fun_induction splitLines cs <;> simp_all

/-- How many lines end in a text. -/
def endCount : List Char → Nat
  | [] => 0
  | c :: cs => (if Ends c cs then 1 else 0) + endCount cs

theorem endCount_cons (c : Char) (cs : List Char) :
    endCount (c :: cs) = (if Ends c cs then 1 else 0) + endCount cs := rfl

theorem IsLine.endCount_append {rest line : List Char} (h : IsLine rest line)
    (hstops : StopsAtNewline (line ++ rest)) : endCount (line ++ rest) = 1 + endCount rest := by
  induction h with
  | @ends c hends => rw [List.singleton_append, endCount_cons, if_pos hends]
  | @last c hrest =>
    subst hrest
    obtain rfl := hstops c rfl
    rfl
  | @cons c line hends _ ih =>
    have hright : StopsAtNewline (line ++ rest) := (show StopsAtNewline ([c] ++ _) from hstops).right
    rw [List.cons_append, endCount_cons, if_neg hends, Nat.zero_add, ih hright]

theorem length_splitLines {cs : List Char} (h : StopsAtNewline cs) :
    (splitLines cs).length = endCount cs := by
  by_cases hcs : cs = []
  · rw [hcs]
    rfl
  obtain ⟨line, rest, rfl, hline⟩ := exists_isLine hcs
  have hlt : rest.length < (line ++ rest).length := by
    have := List.length_pos_iff.2 hline.ne_nil
    rw [List.length_append]
    omega
  rw [hline.splitLines_eq, List.length_cons, length_splitLines h.right, hline.endCount_append h,
    Nat.add_comm]
termination_by cs.length

/-- Only newlines end lines in the text. -/
def OnlyNewlines (cs : List Char) : Prop :=
  ∀ pre c post, cs = pre ++ c :: post → Ends c post → c = '\n'

theorem onlyNewlines_cons {c : Char} {cs : List Char} :
    OnlyNewlines (c :: cs) ↔ (Ends c cs → c = '\n') ∧ OnlyNewlines cs := by
  constructor
  · exact fun h => ⟨h [] c cs rfl, fun pre d post heq => h (c :: pre) d post (by rw [heq]; rfl)⟩
  · rintro ⟨hc, hcs⟩ pre d post heq
    cases pre with
    | nil =>
      obtain ⟨rfl, rfl⟩ := List.cons_eq_cons.1 heq
      exact hc
    | cons e pre => exact hcs pre d post (List.cons_eq_cons.1 heq).2

theorem count_le_endCount (cs : List Char) : cs.count '\n' ≤ endCount cs := by
  induction cs with
  | nil => exact Nat.le_refl _
  | cons c cs ih =>
    rw [endCount_cons]
    by_cases hc : c = '\n'
    · rw [hc, if_pos (ends_newline cs), List.count_cons_self]
      omega
    · rw [List.count_cons_of_ne hc]
      omega

/-- **As many lines end as there are newlines** only where nothing else ends a line. -/
theorem endCount_eq_iff (cs : List Char) : endCount cs = cs.count '\n' ↔ OnlyNewlines cs := by
  induction cs with
  | nil => simp [endCount, OnlyNewlines]
  | cons c cs ih =>
    have hle := count_le_endCount cs
    rw [onlyNewlines_cons, ← ih, endCount_cons]
    by_cases hc : c = '\n'
    · subst hc
      rw [if_pos (ends_newline cs), List.count_cons_self]
      simp only [implies_true, true_and]
      omega
    · rw [List.count_cons_of_ne hc]
      by_cases hends : Ends c cs
      · have : ¬ (1 + endCount cs = cs.count '\n') := by omega
        simp [hends, hc, this]
      · simp [hends]

/-! ## The line of an offset -/

theorem lineAt_append {start number offset : Nat} {lines rest : List (List Char)} (hrest : rest ≠ [])
    (h : offset + lines.flatten.length ≤ start) :
    lineAt start number offset (lines ++ rest) =
      lineAt start (number + lines.length) (offset + lines.flatten.length) rest := by
  induction lines generalizing number offset with
  | nil => rfl
  | cons line lines ih =>
    rw [List.flatten_cons, List.length_append] at h
    have hlater : ¬ ((lines ++ rest).isEmpty = true ∨ start < offset + line.length) := by
      simp only [List.isEmpty_iff, List.append_eq_nil_iff, hrest, and_false, false_or]
      omega
    rw [List.cons_append, lineAt, if_neg (by simpa using hlater), ih (by omega), List.flatten_cons,
      List.length_append, List.length_cons]
    congr 1 <;> omega

theorem number_le_lineAt (start number offset : Nat) (lines : List (List Char)) :
    number ≤ (lineAt start number offset lines).number := by
  fun_induction lineAt start number offset lines with
  | case1 => exact Nat.le_refl _
  | case2 => exact Nat.le_refl _
  | case3 number offset line rest hlater ih => omega

theorem lineAt_first {start number offset : Nat} {line : List Char} {rest : List (List Char)}
    (h : start < offset + line.length) :
    lineAt start number offset (line :: rest) = ⟨number, offset, line⟩ := by
  rw [lineAt, if_pos (by simp [h])]

/-- The line of an offset is the first one if it has its number. -/
theorem lineAt_of_number {start number offset : Nat} {line : List Char} {rest : List (List Char)}
    (h : (lineAt start number offset (line :: rest)).number = number) :
    lineAt start number offset (line :: rest) = ⟨number, offset, line⟩ ∧
      (rest = [] ∨ start < offset + line.length) := by
  rw [lineAt] at h ⊢
  by_cases hfirst : rest = [] ∨ start < offset + line.length
  · rw [if_pos (by simpa using hfirst)]
    exact ⟨rfl, hfirst⟩
  · rw [if_neg (by simpa using hfirst)] at h
    have := number_le_lineAt start (number + 1) (offset + line.length) rest
    omega

/-! ## The line of a character -/

/-- What stands in front of a character on its line. -/
def lineBefore (before : List Char) : List Char := (before.reverse.takeWhile (· ≠ '\n')).reverse

/-- What stands on a line from a character on. -/
def lineBehind (rest : List Char) : List Char := rest.takeWhile (· ≠ '\n')

/-- Behind a terminator that is no newline stand blanks only, so that nothing of
the line is lost if it ends there. -/
def Whole (line : List Char) : Prop :=
  ∀ pre c post, line = pre ++ c :: post → isTerminator c = true → ∀ b ∈ post, Text.isBlank b = true

theorem exists_above (before : List Char) :
    ∃ above, before = above ++ lineBefore before ∧ '\n' ∉ lineBefore before ∧
      StopsAtNewline above := by
  refine ⟨(before.reverse.dropWhile (· ≠ '\n')).reverse, ?_, fun hmem => ?_, fun c hc => ?_⟩
  · rw [lineBefore, ← List.reverse_append, List.takeWhile_append_dropWhile, List.reverse_reverse]
  · have hall := List.all_eq_true.1 (List.all_takeWhile (l := before.reverse)) '\n'
      (List.mem_reverse.1 hmem)
    simp at hall
  · have hhead := List.head?_dropWhile_not (· ≠ '\n') before.reverse
    rw [List.getLast?_reverse] at hc
    rw [hc] at hhead
    simpa using hhead

/-- A line in front of more ends with a terminator. -/
theorem IsLine.exists_last {rest line : List Char} (h : IsLine rest line) (hrest : rest ≠ []) :
    ∃ cs c, line = cs ++ [c] ∧ Ends c rest := by
  induction h with
  | @ends c hends => exact ⟨[], c, rfl, hends⟩
  | last hlast => exact absurd hlast hrest
  | @cons c line _ _ ih =>
    obtain ⟨cs, d, rfl, hends⟩ := ih
    exact ⟨c :: cs, d, rfl, hends⟩

/-- A newline is the end of its line. -/
theorem IsLine.eq_of_newline {rest line : List Char} (h : IsLine rest line) (hmem : '\n' ∈ line) :
    ∃ cs, line = cs ++ ['\n'] ∧ '\n' ∉ cs := by
  obtain ⟨cs, ds, rfl, hcs⟩ := List.eq_append_cons_of_mem hmem
  by_cases hds : ds = []
  · exact ⟨cs, by rw [hds], hcs⟩
  · exact absurd (ends_newline _) (h.not_ends rfl hds)

/-- A line that ends with a newline is whole. -/
theorem IsLine.whole {rest cs : List Char} (h : IsLine rest (cs ++ ['\n'])) (hcs : '\n' ∉ cs) :
    Whole cs := by
  rintro pre c post rfl hc
  have heq : pre ++ c :: post ++ ['\n'] = pre ++ c :: (post ++ ['\n']) := by simp
  have hends : ¬ Ends c (post ++ ['\n'] ++ rest) := h.not_ends heq (by simp)
  obtain ⟨rfl, hhead⟩ : c = '\r' ∧ (post ++ ['\n'] ++ rest).head? = some '\n' :=
    Classical.not_not.1 fun hc' => hends ⟨hc, hc'⟩
  cases post with
  | nil => exact List.forall_mem_nil _
  | cons d ds =>
    obtain rfl := Option.some.inj hhead
    exact absurd (by simp) hcs

/-- A line that ends with no newline is whole if only blanks stand behind its
terminator. -/
theorem IsLine.whole_iff {rest line : List Char} (h : IsLine rest line) (hline : '\n' ∉ line) :
    Whole (line ++ lineBehind rest) ↔ ∀ b ∈ lineBehind rest, Text.isBlank b = true := by
  constructor
  · intro hwhole
    by_cases hrest : rest = []
    · rw [hrest]
      exact List.forall_mem_nil _
    obtain ⟨cs, c, rfl, hends⟩ := h.exists_last hrest
    exact hwhole cs c (lineBehind rest) (by simp) hends.1
  · intro hblank pre c post heq hc
    rcases List.append_eq_append_iff.1 heq with ⟨as, -, hbehind⟩ | ⟨as, rfl, hpost⟩
    · exact fun b hb => hblank b (by rw [hbehind]; simp [hb])
    cases as with
    | nil => exact fun b hb => hblank b (by rw [← List.nil_append (lineBehind rest), ← hpost]; simp [hb])
    | cons d as =>
      obtain ⟨rfl, rfl⟩ := List.cons_eq_cons.1 hpost
      cases as with
      | nil => exact hblank
      | cons d as =>
        -- No line ends here, so a carriage return and a newline must follow.
        have hends : ¬ Ends c (d :: as ++ rest) := h.not_ends rfl (List.cons_ne_nil _ _)
        obtain ⟨-, hhead⟩ : c = '\r' ∧ (d :: as ++ rest).head? = some '\n' :=
          Classical.not_not.1 fun hc' => hends ⟨hc, hc'⟩
        obtain rfl := Option.some.inj hhead
        exact absurd (by simp) hline

end Report

end ClassLang
