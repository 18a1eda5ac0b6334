import ClassLang.Proofs.Token.Spelling
/-!
# Tokens — the text between tokens

What stands between tokens is a `Spacing`: blanks, comments up to the end of
their line, and block comments up to the `*/` that closes them. Skipping goes
over a spacing as a whole (`Spacing.skip_eq`), and every text has one in front
of a token, of the end of the file, or of a block comment that nothing closes
(`exists_spacing`).
-/


namespace ClassLang

/-- Nothing in a text closes a block comment. -/
def Unclosed (body : List Char) : Prop := ¬ ['*', '/'] <:+: body

/-- Blanks and closed comments, in front of the rest of a text. A comment that
ends with its line leaves the line feed behind it. -/
inductive Spacing (rest : List Char) : List Char → Prop
  | nil : Spacing rest []
  | blank {c : Char} {gap : List Char} :
      Text.isBlank c = true → Spacing rest gap → Spacing rest (c :: gap)
  | line {body gap : List Char} :
      '\n' ∉ body → (∀ c, (gap ++ rest).head? = some c → c = '\n') → Spacing rest gap →
      Spacing rest ('/' :: '/' :: (body ++ gap))
  | block {body gap : List Char} :
      Unclosed body → Spacing rest gap → Spacing rest ('/' :: '*' :: (body ++ '*' :: '/' :: gap))

/-- Where a spacing ends. -/
inductive SpacingEnds : List Char → Prop
  | text : SpacingEnds []
  | comment {body : List Char} : Unclosed body → SpacingEnds ('/' :: '*' :: body)
  | lexeme {c : Char} {cs : List Char} :
      Text.isBlank c = false → OpensNoComment c cs → SpacingEnds (c :: cs)

/-! ## Block comments -/

theorem unclosed_nil : Unclosed [] := by simp [Unclosed]

theorem unclosed_cons {c : Char} {body : List Char} :
    Unclosed (c :: body) ↔ (c = '*' → body.head? ≠ some '/') ∧ Unclosed body := by
  unfold Unclosed
  rw [List.infix_cons_iff, not_or]
  refine and_congr_left fun _ => ?_
  cases body with
  | nil => simp
  | cons d body => simp [eq_comm]

/-- A text closes a block comment somewhere, or nowhere. -/
theorem unclosed_or_exists (cs : List Char) :
    Unclosed cs ∨ ∃ body rest, cs = body ++ '*' :: '/' :: rest ∧ Unclosed body := by
  induction cs with
  | nil => exact .inl unclosed_nil
  | cons c cs ih =>
    by_cases hclose : c = '*' ∧ cs.head? = some '/'
    · obtain ⟨rfl, hhead⟩ := hclose
      obtain ⟨rest, rfl⟩ := List.head?_eq_some_iff.1 hhead
      exact .inr ⟨[], rest, rfl, unclosed_nil⟩
    have hopen : c = '*' → cs.head? ≠ some '/' := fun hc hhead => hclose ⟨hc, hhead⟩
    rcases ih with hcs | ⟨body, rest, rfl, hbody⟩
    · exact .inl (unclosed_cons.2 ⟨hopen, hcs⟩)
    · refine .inr ⟨c :: body, rest, rfl, unclosed_cons.2 ⟨fun hc hhead => hopen hc ?_, hbody⟩⟩
      rw [List.head?_append, hhead]
      rfl

theorem skip_block_cons {c : Char} {cs : List Char} (h : c = '*' → cs.head? ≠ some '/')
    (start o : Nat) :
    skip (.block start) o (c :: cs) = skip (.block start) (o + c.utf8Size) cs := by
  rw [skip]
  rintro ds hc rfl
  exact h hc rfl

theorem skip_unclosed {body : List Char} (h : Unclosed body) (start o : Nat) :
    skip (.block start) o body = ⟨o + byteLength body, [], some start⟩ := by
  induction body generalizing o with
  | nil => simp [skip]
  | cons c body ih =>
    obtain ⟨hopen, hbody⟩ := unclosed_cons.1 h
    rw [skip_block_cons hopen, ih hbody, byteLength_cons, Nat.add_assoc]

theorem skip_closed {body : List Char} (h : Unclosed body) (start o : Nat) (cs : List Char) :
    skip (.block start) o (body ++ '*' :: '/' :: cs) = skip .code (o + byteLength body + 2) cs := by
  induction body generalizing o with
  | nil => simp [skip]
  | cons c body ih =>
    obtain ⟨hopen, hbody⟩ := unclosed_cons.1 h
    have hopen : c = '*' → (body ++ '*' :: '/' :: cs).head? ≠ some '/' := by
      cases body with
      | nil => simp
      | cons d body => simpa using hopen
    rw [List.cons_append, skip_block_cons hopen, ih hbody, byteLength_cons, ← Nat.add_assoc o]

/-! ## Comments that end with their line -/

/-- The line feed that ends a comment is a blank behind it. -/
theorem skip_line_end {cs : List Char} (h : ∀ c, cs.head? = some c → c = '\n') (o : Nat) :
    skip .line o cs = skip .code o cs := by
  cases cs with
  | nil => rfl
  | cons c cs =>
    obtain rfl := h c rfl
    have hblank : Text.isBlank '\n' = true := by decide
    simp [skip, hblank]

theorem skip_line {body cs : List Char} (hbody : '\n' ∉ body)
    (hend : ∀ c, cs.head? = some c → c = '\n') (o : Nat) :
    skip .line o (body ++ cs) = skip .code (o + byteLength body) cs := by
  induction body generalizing o with
  | nil => exact skip_line_end hend o
  | cons c body ih =>
    obtain ⟨hc, hbody⟩ := List.ne_and_not_mem_of_not_mem_cons hbody
    rw [List.cons_append, skip, if_neg (Ne.symm hc), ih hbody, byteLength_cons, Nat.add_assoc]

/-- A text starts with a line. -/
theorem exists_line (cs : List Char) :
    ∃ body rest, cs = body ++ rest ∧ '\n' ∉ body ∧ ∀ c, rest.head? = some c → c = '\n' := by
  refine ⟨cs.takeWhile (· ≠ '\n'), cs.dropWhile (· ≠ '\n'), ?_, fun hmem => ?_, fun c hc => ?_⟩
  · exact List.takeWhile_append_dropWhile.symm
  · have hall := List.all_eq_true.1 (List.all_takeWhile (l := cs)) '\n' hmem
    simp at hall
  · have hhead := List.head?_dropWhile_not (· ≠ '\n') cs
    rw [hc] at hhead
    simpa using hhead

/-! ## Spacings -/

theorem skip_blank {c : Char} (h : Text.isBlank c = true) (o : Nat) (cs : List Char) :
    skip .code o (c :: cs) = skip .code (o + c.utf8Size) cs := by
  have hslash : c ≠ '/' := by
    rintro rfl
    exact absurd h (by decide)
  simp [skip, hslash, h]

theorem utf8Size_slash : '/'.utf8Size = 1 := by decide

theorem utf8Size_star : '*'.utf8Size = 1 := by decide

/-- **Skipping goes over a spacing** and on from its end. -/
theorem Spacing.skip_eq {rest gap : List Char} (h : Spacing rest gap) (o : Nat) :
    skip .code o (gap ++ rest) = skip .code (o + byteLength gap) rest := by
  induction h generalizing o with
  | nil => rfl
  | blank hblank _ ih => rw [List.cons_append, skip_blank hblank, ih, byteLength_cons, Nat.add_assoc]
  | @line body gap hbody hend _ ih =>
    have hskip : skip .code o ('/' :: '/' :: (body ++ gap) ++ rest) =
        skip .line (o + 2) (body ++ (gap ++ rest)) := by
      simp only [List.cons_append, List.append_assoc, skip]
    rw [hskip, skip_line hbody hend, ih]
    simp only [byteLength_cons, byteLength_append, utf8Size_slash]
    congr 1
    omega
  | @block body gap hbody _ ih =>
    have hskip : skip .code o ('/' :: '*' :: (body ++ '*' :: '/' :: gap) ++ rest) =
        skip (.block o) (o + 2) (body ++ '*' :: '/' :: (gap ++ rest)) := by
      simp only [List.cons_append, List.append_assoc, skip]
    rw [hskip, skip_closed hbody, ih]
    simp only [byteLength_cons, byteLength_append, utf8Size_slash, utf8Size_star]
    congr 1
    omega

/-- **Skipping ends in a comment** that nothing closes. -/
theorem Spacing.skip_comment {gap body : List Char} (hgap : Spacing ('/' :: '*' :: body) gap)
    (hbody : Unclosed body) (o : Nat) :
    skip .code o (gap ++ '/' :: '*' :: body) =
      ⟨o + byteLength (gap ++ '/' :: '*' :: body), [], some (o + byteLength gap)⟩ := by
  rw [hgap.skip_eq, skip, skip_unclosed hbody]
  simp only [byteLength_append, byteLength_cons, utf8Size_slash, utf8Size_star, Gap.mk.injEq,
    and_true]
  omega

/-- A comment starts with `//` or with `/*`. -/
theorem exists_of_opens {c : Char} {cs : List Char} (h : ¬ OpensNoComment c cs) :
    c = '/' ∧ ∃ ds, cs = '/' :: ds ∨ cs = '*' :: ds := by
  obtain ⟨hc, hopens⟩ := Classical.not_imp.1 h
  refine ⟨hc, ?_⟩
  cases cs with
  | nil => exact absurd (fun d hd => by cases hd) hopens
  | cons d ds =>
    refine ⟨ds, ?_⟩
    by_cases hslash : d = '/'
    · exact .inl (by rw [hslash])
    by_cases hstar : d = '*'
    · exact .inr (by rw [hstar])
    refine absurd (fun e he => ?_) hopens
    obtain rfl := Option.some.inj he
    exact ⟨hslash, hstar⟩

/-- **Every text starts with a spacing** that goes as far as one can. -/
theorem exists_spacing (cs : List Char) :
    ∃ gap rest, cs = gap ++ rest ∧ Spacing rest gap ∧ SpacingEnds rest := by
  match cs with
  | [] => exact ⟨[], [], rfl, .nil, .text⟩
  | c :: cs =>
    by_cases hblank : Text.isBlank c = true
    · obtain ⟨gap, rest, rfl, hgap, hrest⟩ := exists_spacing cs
      exact ⟨c :: gap, rest, rfl, .blank hblank hgap, hrest⟩
    by_cases hopens : OpensNoComment c cs
    · exact ⟨[], c :: cs, rfl, .nil, .lexeme (by simpa using hblank) hopens⟩
    -- A comment starts here: it ends with its line, is closed, or takes the rest of the text.
    obtain ⟨rfl, ds, rfl | rfl⟩ := exists_of_opens hopens
    · obtain ⟨body, ds, rfl, hbody, hend⟩ := exists_line ds
      have hlt : ds.length < ('/' :: '/' :: (body ++ ds)).length := by
        simp only [List.length_cons, List.length_append]
        omega
      obtain ⟨gap, rest, rfl, hgap, hrest⟩ := exists_spacing ds
      exact ⟨'/' :: '/' :: (body ++ gap), rest, by simp, .line hbody hend hgap, hrest⟩
    · rcases unclosed_or_exists ds with hds | ⟨body, ds, rfl, hbody⟩
      · exact ⟨[], '/' :: '*' :: ds, rfl, .nil, .comment hds⟩
      · have hlt : ds.length < ('/' :: '*' :: (body ++ '*' :: '/' :: ds)).length := by
          simp only [List.length_cons, List.length_append]
          omega
        obtain ⟨gap, rest, rfl, hgap, hrest⟩ := exists_spacing ds
        exact ⟨'/' :: '*' :: (body ++ '*' :: '/' :: gap), rest, by simp, .block hbody hgap, hrest⟩
termination_by cs.length

end ClassLang
