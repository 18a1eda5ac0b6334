import Mathlib.Data.List.Basic
import ClassLang.Proofs.Ir.Bodies
import ClassLang.Proofs.Report.Lines
import ClassLang.Proofs.Token.Spelling
/-!
# Reports — where they point

A report over a text should name the line of an error, show this line and mark
the character that the error is at (`marking`). It does so in front of nothing
but characters of one byte and newlines as the only line ends, and in these
texts only (`drawAt_eq_marking_iff`).
-/


namespace ClassLang.Report

/-! ## Reports that mark a character -/

/-- The first row of a report. -/
def headline (e : TypeError) : String := "[" ++ e.fault.code ++ "] Error: " ++ e.message

/-- The space in front of the rows of a report that names a line. -/
def margin (number : Nat) : String :=
  String.ofList (List.replicate ((toString number).length + 2) ' ')

/-- The row of a report that names a line and an index in it. -/
def place (filename : String) (number column : Nat) : String :=
  margin number ++ "╭─[ " ++
    (filename ++ ":" ++ toString number ++ ":" ++ toString (column + 1)) ++ " ]"

/-- The rows of a report that names a line and an index in it, around those that
show the line. -/
def framed (e : TypeError) (filename : String) (number column : Nat) (body : List String) :
    List String :=
  [headline e, place filename number column, margin number ++ "│"] ++ body
    ++ [String.ofList (List.replicate ((toString number).length + 2) '─') ++ "╯"]

/-- The row of a report that shows a line. -/
def shown (number : Nat) (line : List Char) : String :=
  " " ++ toString number ++ " │ " ++ String.ofList (drawn 0 (trimEnd line))

/-- The rows of a report that show a line and mark the character at an index. -/
def marked (e : TypeError) (number column : Nat) (line : List Char) : List String :=
  let (head, tail) := arrow true column (trimEnd line) e.fault.label
  [shown number line, margin number ++ "│ " ++ String.ofList head,
    margin number ++ "│ " ++ String.ofList tail]

/-- Rows without the blanks at the ends of their lines. -/
def trimmed (rows : List String) : List String := rows.flatMap fun row => trimmedLines row.toList

/-- The report that shows a line under its number and marks the character at an
index of it. -/
def marking (e : TypeError) (filename : String) (number column : Nat) (line : List Char) :
    List String :=
  trimmed (framed e filename number column (marked e number column line))

/-- The report over a text for an error at a character. -/
def drawAt (fault : TypeFault) (filename : String) (before : List Char) (c : Char)
    (after : List Char) : List String :=
  let source := String.ofList (before ++ c :: after)
  draw ⟨fault, (Lines.ofString source).pos (byteLength before)⟩ source filename

/-- The rows of a report for an error at an offset, given the line that is found
for it. -/
def rowsAt (e : TypeError) (filename : String) (start size : Nat) (line : TextLine) : List String :=
  if size < start then [headline e]
  else
    framed e filename line.number (start - line.offset)
      (if line.offset + line.chars.length < start + 1 then [margin line.number ++ "│"]
      else marked e line.number (start - line.offset) line.chars)

/-- **The byte offset of a character is taken for its index.** -/
theorem draw_eq_rowsAt {source : String} {before after : List Char} {c : Char} {e : TypeError}
    (hsource : source.toList = before ++ c :: after)
    (hpos : e.pos = (Lines.ofString source).pos (byteLength before)) (filename : String) :
    draw e source filename = trimmed (rowsAt e filename (byteLength before) source.toList.length
      (lineAt (byteLength before) 1 0 (splitLines source.toList))) := by
  have hc := c.utf8Size_pos
  have hlines : Lines.ofString source = Lines.ofChars (before ++ c :: after) := by
    rw [Lines.ofString, hsource]
  have hoffset : (Lines.ofString source).offset e.pos = byteLength before := by
    rw [hpos, hlines, Lines.offset_pos]
  have hsize : (Lines.ofString source).size = byteLength before + (c.utf8Size + byteLength after) := by
    rw [hlines, Lines.ofChars, byteLength_append, byteLength_cons]
  have hstart : min (byteLength before) (Lines.ofString source).size = byteLength before := by omega
  have hstop : min (byteLength before + 1) (Lines.ofString source).size = byteLength before + 1 := by
    omega
  have hspan : byteLength before < byteLength before + 1 := Nat.lt_succ_self _
  unfold draw rowsAt trimmed
  dsimp only
  rw [hoffset, hstart, hstop, Nat.add_sub_cancel]
  simp only [hspan, decide_true, Bool.true_and, Bool.or_self, decide_eq_true_eq]
  rfl

/-! ## Blanks at the ends of lines -/

theorem trimEnd_append_blank {cs bs : List Char} (h : ∀ b ∈ bs, Text.isBlank b = true) :
    trimEnd (cs ++ bs) = trimEnd cs := by
  have hbs : ∀ b ∈ bs.reverse, Text.isBlank b = true := fun b hb => h b (List.mem_reverse.1 hb)
  rw [trimEnd, List.reverse_append, List.dropWhile_append_of_pos hbs, trimEnd]

theorem trimEnd_concat {cs : List Char} {c : Char} (h : Text.isBlank c = false) :
    trimEnd (cs ++ [c]) = cs ++ [c] := by
  simp [trimEnd, h]

/-- A character that is no blank, and the last one of these. -/
theorem exists_last_ink {cs : List Char} (h : ¬ ∀ b ∈ cs, Text.isBlank b = true) :
    ∃ ds d bs, cs = ds ++ [d] ++ bs ∧ Text.isBlank d = false ∧ ∀ b ∈ bs, Text.isBlank b = true := by
  induction cs with
  | nil => exact absurd (List.forall_mem_nil _) h
  | cons c cs ih =>
    by_cases hcs : ∀ b ∈ cs, Text.isBlank b = true
    · have hc : Text.isBlank c = false := by
        rw [← Bool.not_eq_true]
        exact fun hc => h (List.forall_mem_cons.2 ⟨hc, hcs⟩)
      exact ⟨[], c, cs, rfl, hc, hcs⟩
    · obtain ⟨ds, d, bs, rfl, hd, hbs⟩ := ih hcs
      exact ⟨c :: ds, d, bs, rfl, hd, hbs⟩

theorem drawn_append (index : Nat) (cs ds : List Char) :
    drawn index (cs ++ ds) = drawn index cs ++ drawn (index + cs.length) ds := by
  induction cs generalizing index with
  | nil => rfl
  | cons c cs ih =>
    have hindex : index + (cs.length + 1) = index + 1 + cs.length := by omega
    rw [List.cons_append, drawn, drawn, ih, List.append_assoc, List.length_cons, hindex]

theorem newline_not_mem_drawn (index : Nat) (cs : List Char) : '\n' ∉ drawn index cs := by
  induction cs generalizing index with
  | nil => exact List.not_mem_nil
  | cons c cs ih =>
    rw [drawn, List.mem_append, not_or]
    refine ⟨fun hmem => ?_, ih _⟩
    by_cases hc : Text.isBlank c = true
    · rw [if_pos hc] at hmem
      exact absurd (List.eq_of_mem_replicate hmem) (by decide)
    · rw [if_neg hc] at hmem
      obtain rfl := List.mem_singleton.1 hmem
      exact hc (by decide)

theorem trimmedLines_of_not_mem {row : List Char} (h : '\n' ∉ row) :
    trimmedLines row = [String.ofList (trimEnd row)] := by
  rw [trimmedLines, List.splitOn_eq_singleton h]
  rfl

/-! ## Ink -/

/-- The characters of lines that are no blanks. -/
def ink (lines : List String) : List Char :=
  lines.flatMap fun line => line.toList.filter fun c => !Text.isBlank c

theorem ink_append (lines more : List String) : ink (lines ++ more) = ink lines ++ ink more :=
  List.flatMap_append

theorem filter_dropWhile_blank (cs : List Char) :
    (cs.dropWhile Text.isBlank).filter (fun c => !Text.isBlank c) =
      cs.filter fun c => !Text.isBlank c := by
  induction cs with
  | nil => rfl
  | cons c cs ih =>
    by_cases hc : Text.isBlank c = true <;> simp [hc, ih]

theorem filter_trimEnd (cs : List Char) :
    (trimEnd cs).filter (fun c => !Text.isBlank c) = cs.filter fun c => !Text.isBlank c := by
  rw [trimEnd, List.filter_reverse, filter_dropWhile_blank, List.filter_reverse, List.reverse_reverse]

theorem flatMap_splitOn (cs : List Char) :
    (cs.splitOn '\n').flatMap (List.filter fun c => !Text.isBlank c) =
      cs.filter fun c => !Text.isBlank c := by
  induction cs with
  | nil => rfl
  | cons c cs ih =>
    have hne := List.splitOn_ne_nil '\n' cs
    rw [List.splitOn_cons_eq_if_modifyHead]
    by_cases hc : c = '\n'
    · have hblank : Text.isBlank '\n' = true := by decide
      simp [hc, hblank, ih]
    · cases hsplit : cs.splitOn '\n' with
      | nil => exact absurd hsplit hne
      | cons line lines =>
        rw [hsplit] at ih
        by_cases hblank : Text.isBlank c = true <;> simp_all

/-- Trimming keeps the ink. -/
theorem ink_trimmed (rows : List String) : ink (trimmed rows) = ink rows := by
  induction rows with
  | nil => rfl
  | cons row rows ih =>
    have hrow : ink (trimmedLines row.toList) = row.toList.filter fun c => !Text.isBlank c := by
      rw [← flatMap_splitOn, trimmedLines, ink, List.flatMap_map]
      simp only [String.toList_ofList, filter_trimEnd]
    have happend : trimmed (row :: rows) = trimmedLines row.toList ++ trimmed rows := rfl
    rw [happend, ink_append, hrow, ih]
    rfl

/-! ## Rows that are told apart -/

theorem trimmed_append (rows more : List String) :
    trimmed (rows ++ more) = trimmed rows ++ trimmed more :=
  List.flatMap_append

theorem toString_ink (n : Nat) :
    ((toString n).toList.filter fun c => !Text.isBlank c) = (toString n).toList := by
  refine List.filter_eq_self.2 fun c hc => ?_
  have hdigit := toNat_of_isDigit (Ir.isDigit_of_mem_toString hc)
  rw [not_isBlank (by omega) (by omega)]
  rfl

theorem not_mem_toString {c : Char} (hc : c.isDigit = false) (n : Nat) : c ∉ (toString n).toList :=
  fun hmem => by simp [Ir.isDigit_of_mem_toString hmem] at hc

/-- What is seen of the row that names a line. -/
theorem ink_place (filename : String) (number column : Nat) :
    ink [place filename number column] =
      "╭─[".toList ++ (filename.toList.filter fun c => !Text.isBlank c) ++
        ':' :: ((toString number).toList ++ ':' :: ((toString (column + 1)).toList ++ [']'])) := by
  have hmargin : ((margin number).toList.filter fun c => !Text.isBlank c) = [] := by
    have hspace : Text.isBlank ' ' = true := by decide
    simp [margin, hspace]
  have hopen : ("╭─[ ".toList.filter fun c => !Text.isBlank c) = "╭─[".toList := by decide
  have hcolon : (":".toList.filter fun c => !Text.isBlank c) = [':'] := by decide
  have hclose : (" ]".toList.filter fun c => !Text.isBlank c) = [']'] := by decide
  rw [ink, List.flatMap_singleton, place]
  simp only [String.toList_append, List.filter_append, hmargin, hopen, hcolon, hclose, toString_ink,
    List.nil_append, List.append_assoc, List.cons_append]

theorem eq_of_numbers {n n' : Nat} {c : Char} {cs ds : List Char} (hc : c.isDigit = false)
    (h : (toString n).toList ++ c :: cs = (toString n').toList ++ c :: ds) : n = n' ∧ cs = ds := by
  have hspan (n : Nat) (cs : List Char) :
      ((toString n).toList ++ c :: cs).takeWhile Char.isDigit = (toString n).toList ∧
        ((toString n).toList ++ c :: cs).dropWhile Char.isDigit = c :: cs := by
    refine takeWhile_dropWhile_append (fun d => Ir.isDigit_of_mem_toString) fun d hd => ?_
    obtain rfl := Option.some.inj hd
    simp [hc]
  obtain ⟨htake, hdrop⟩ := hspan n cs
  obtain ⟨htake', hdrop'⟩ := hspan n' ds
  rw [h] at htake hdrop
  refine ⟨Ir.eq_of_toString (String.toList_inj.1 (htake.symm.trans htake')), ?_⟩
  exact (List.cons_eq_cons.1 (hdrop.symm.trans hdrop')).2

theorem framed_eq (e : TypeError) (filename : String) (number column : Nat) (body : List String) :
    framed e filename number column body =
      [headline e] ++ ([place filename number column] ++ ([margin number ++ "│"] ++ (body ++
        [String.ofList (List.replicate ((toString number).length + 2) '─') ++ "╯"]))) := by
  simp [framed]

/-- **A report tells its line and index**, whatever it shows. -/
theorem framed_inj {e : TypeError} {filename : String} {number number' column column' : Nat}
    {body body' : List String}
    (h : trimmed (framed e filename number column body) =
      trimmed (framed e filename number' column' body')) :
    number = number' ∧ column = column' ∧ trimmed body = trimmed body' := by
  simp only [framed_eq, trimmed_append] at h
  have hrows := List.append_cancel_left h
  have hink := congrArg ink hrows
  simp only [ink_append, ink_trimmed, ink_place, List.append_assoc, List.cons_append] at hink
  have hnumbers := (List.cons_eq_cons.1 (List.append_cancel_left (List.append_cancel_left hink))).2
  obtain ⟨rfl, hcolumns⟩ := eq_of_numbers (by decide) hnumbers
  obtain ⟨hcolumn, -⟩ := eq_of_numbers (by decide) hcolumns
  obtain rfl : column = column' := by omega
  have hbody := List.append_cancel_left (List.append_cancel_left hrows)
  exact ⟨rfl, rfl, List.append_cancel_right hbody⟩

/-- A report that stops behind its first row names no line. -/
theorem headline_ne_framed {e : TypeError} {filename : String} {number column : Nat}
    {body : List String} : trimmed [headline e] ≠ trimmed (framed e filename number column body) := by
  intro h
  rw [framed_eq, trimmed_append, List.self_eq_append_right] at h
  have hink := congrArg ink h
  rw [ink_trimmed, ink_append, ink_place] at hink
  simp [ink] at hink

theorem toList_shown (number : Nat) (line : List Char) :
    (shown number line).toList =
      (" " ++ toString number ++ " │ ").toList ++ drawn 0 (trimEnd line) := by
  rw [shown, String.toList_append, String.toList_ofList]

theorem newline_not_mem_shown (number : Nat) (line : List Char) :
    '\n' ∉ (shown number line).toList := by
  have hspace : '\n' ∉ " ".toList := by decide
  have hbar : '\n' ∉ " │ ".toList := by decide
  have hnumber : '\n' ∉ (toString number).toList := not_mem_toString (by decide) number
  simp only [toList_shown, String.toList_append, List.mem_append, not_or]
  exact ⟨⟨⟨hspace, hnumber⟩, hbar⟩, newline_not_mem_drawn 0 _⟩

theorem trimEnd_isPrefix (cs : List Char) : trimEnd cs <+: cs := by
  rw [trimEnd, ← List.reverse_suffix, List.reverse_reverse]
  exact List.dropWhile_suffix _

/-- **A row that shows more** is another one, unless there are only blanks more. -/
theorem blank_of_shown {number : Nat} {line more : List Char}
    (h : trimEnd (shown number line).toList = trimEnd (shown number (line ++ more)).toList) :
    ∀ b ∈ more, Text.isBlank b = true := by
  by_contra hmore
  obtain ⟨ds, d, bs, rfl, hd, hbs⟩ := exists_last_ink hmore
  have hline : trimEnd (line ++ (ds ++ [d] ++ bs)) = line ++ ds ++ [d] := by
    rw [← List.append_assoc, trimEnd_append_blank hbs, ← List.append_assoc, trimEnd_concat hd]
  have hdrawn : drawn 0 (line ++ ds ++ [d]) = drawn 0 (line ++ ds) ++ [d] := by
    rw [drawn_append]
    simp [drawn, hd]
  have hshown : (shown number (line ++ (ds ++ [d] ++ bs))).toList =
      (" " ++ toString number ++ " │ ").toList ++ drawn 0 (line ++ ds) ++ [d] := by
    rw [toList_shown, hline, hdrawn, List.append_assoc]
  obtain ⟨cs, hcs⟩ := trimEnd_isPrefix line
  -- The row that shows more is longer by the character at its end.
  have hlength := (trimEnd_isPrefix (shown number line).toList).length_le
  rw [h, hshown, trimEnd_concat hd, drawn_append, toList_shown] at hlength
  have hle : (drawn 0 (trimEnd line)).length ≤ (drawn 0 line).length := by
    conv_rhs => rw [← hcs, drawn_append]
    simp
  simp only [List.length_append, List.length_singleton] at hlength
  omega

theorem trimmed_marked (e : TypeError) (number column : Nat) (line : List Char) :
    ∃ rows, trimmed (marked e number column line) =
      String.ofList (trimEnd (shown number line).toList) :: rows := by
  rw [trimmed, marked, List.flatMap_cons, trimmedLines_of_not_mem (newline_not_mem_shown number line)]
  exact ⟨_, rfl⟩

/-! ## Where a report points -/

/-- A text in which the byte offset of a character leads to its line and to it:
only characters of one byte stand in front of it, only newlines end lines there,
and nothing of its line stands behind another terminator. -/
structure Plain (before : List Char) (c : Char) (after : List Char) : Prop where
  bytes : ∀ d ∈ before, d.utf8Size = 1
  ends : ∀ pre d post, before = pre ++ d :: post → Ends d (post ++ c :: after) → d = '\n'
  whole : Whole (lineBehind (c :: after))

variable {before after : List Char} {c : Char}

/-- **In a plain text the line of the byte offset** is the line of the character. -/
theorem lineAt_of_plain (hbytes : ∀ d ∈ before, d.utf8Size = 1)
    (hends : ∀ pre d post, before = pre ++ d :: post → Ends d (post ++ c :: after) → d = '\n') :
    ∃ line rest, c :: after = line ++ rest ∧ IsLine rest line ∧
      lineAt (byteLength before) 1 0 (splitLines (before ++ c :: after)) =
        ⟨1 + before.count '\n', byteLength before - (lineBefore before).length,
          lineBefore before ++ line⟩ := by
  obtain ⟨line, rest, hafter, hline⟩ := exists_isLine (List.cons_ne_nil c after)
  refine ⟨line, rest, hafter, hline, ?_⟩
  obtain ⟨above, hbefore, hleft, habove⟩ := exists_above before
  generalize lineBefore before = left at hbefore hleft ⊢
  subst hbefore
  have hlength : byteLength (above ++ left) = above.length + left.length := by
    rw [Lines.byteLength_eq_length_iff.2 hbytes, List.length_append]
  have honly : OnlyNewlines above := fun pre d post heq hd => by
    by_cases hpost : post = []
    · exact habove d (by simp [heq, hpost])
    · refine hends pre d (post ++ left) (by simp [heq]) ?_
      rwa [List.append_assoc, ends_append_iff hpost]
  have hfirst : IsLine rest (left ++ line) := hline.append fun pre d post heq hd => by
    rw [List.append_assoc, ← hafter] at hd
    obtain rfl := hends (above ++ pre) d post (by simp [heq]) hd
    exact hleft (by simp [heq])
  have hcount : (splitLines above).length = (above ++ left).count '\n' := by
    rw [length_splitLines habove, (endCount_eq_iff above).2 honly, List.count_append,
      List.count_eq_zero.2 hleft, Nat.add_zero]
  have hpos := List.length_pos_iff.2 hline.ne_nil
  have hflatten : 0 + (splitLines above).flatten.length ≤ byteLength (above ++ left) := by
    rw [flatten_splitLines]
    omega
  have hsplit : splitLines (above ++ left ++ c :: after) =
      splitLines above ++ (left ++ line) :: splitLines rest := by
    rw [List.append_assoc, splitLines_append habove, hafter, ← List.append_assoc, hfirst.splitLines_eq]
  rw [hsplit, lineAt_append (List.cons_ne_nil _ _) hflatten, hcount, lineAt_first]
  · rw [flatten_splitLines, hlength, Nat.zero_add, Nat.add_sub_cancel]
  · rw [flatten_splitLines, List.length_append]
    omega

/-- **Where the line of the byte offset is the line of the character**, and the
index in it is that of the character, the text in front of it is plain. -/
theorem plain_of_lineAt
    (hnumber : (lineAt (byteLength before) 1 0 (splitLines (before ++ c :: after))).number =
      1 + before.count '\n')
    (hcolumn : byteLength before -
      (lineAt (byteLength before) 1 0 (splitLines (before ++ c :: after))).offset =
        (lineBefore before).length) :
    (∀ d ∈ before, d.utf8Size = 1) ∧
      ∀ pre d post, before = pre ++ d :: post → Ends d (post ++ c :: after) → d = '\n' := by
  obtain ⟨above, hbefore, hleft, habove⟩ := exists_above before
  generalize lineBefore before = left at hbefore hleft hcolumn
  subst hbefore
  have hne : left ++ c :: after ≠ [] := by simp
  obtain ⟨line, rest, hrest, hline⟩ := exists_isLine hne
  have hlength := Lines.length_le_byteLength (above ++ left)
  rw [List.length_append] at hlength
  have hsplit : splitLines (above ++ left ++ c :: after) =
      splitLines above ++ line :: splitLines rest := by
    rw [List.append_assoc, splitLines_append habove, hrest, hline.splitLines_eq]
  have hflatten : 0 + (splitLines above).flatten.length ≤ byteLength (above ++ left) := by
    rw [flatten_splitLines]
    omega
  rw [hsplit, lineAt_append (List.cons_ne_nil _ _) hflatten, flatten_splitLines,
    length_splitLines habove, Nat.zero_add] at hnumber hcolumn
  rw [List.count_append, List.count_eq_zero.2 hleft, Nat.add_zero] at hnumber
  -- There are no more lines above than newlines, so it is the first line behind them.
  have hle := number_le_lineAt (byteLength (above ++ left)) (1 + endCount above) above.length
    (line :: splitLines rest)
  have hcount := count_le_endCount above
  have honly : OnlyNewlines above := (endCount_eq_iff above).1 (by omega)
  obtain ⟨hlineAt, hlast⟩ := lineAt_of_number (hnumber.trans (by omega))
  rw [hlineAt] at hcolumn
  dsimp only at hcolumn
  have hbytes : byteLength (above ++ left) = (above ++ left).length := by
    rw [List.length_append]
    omega
  -- The character is in this line.
  have hlt : left.length < line.length := by
    rcases hlast with hlast | hlast
    · have hempty : rest = [] := by rw [← flatten_splitLines rest, hlast]; rfl
      rw [hempty, List.append_nil] at hrest
      rw [← hrest, List.length_append, List.length_cons]
      omega
    · omega
  obtain ⟨tail, rfl, hafter⟩ : ∃ tail, line = left ++ c :: tail ∧ c :: after = c :: tail ++ rest := by
    rcases List.append_eq_append_iff.1 hrest with ⟨as, rfl, hafter⟩ | ⟨as, rfl, -⟩
    · cases as with
      | nil => simp at hlt
      | cons d as =>
        obtain rfl := (List.cons_eq_cons.1 hafter).1
        exact ⟨as, rfl, hafter⟩
    · rw [List.length_append] at hlt
      omega
  refine ⟨Lines.byteLength_eq_length_iff.1 hbytes, fun pre d post heq hd => ?_⟩
  have hinside : ∀ as, left = as ++ d :: post → d = '\n' := fun as has => by
    have heq : left ++ c :: tail = as ++ d :: (post ++ c :: tail) := by
      rw [has, List.append_assoc, List.cons_append]
    refine absurd ?_ (hline.not_ends heq (by simp))
    rwa [List.append_assoc, ← hafter]
  rcases List.append_eq_append_iff.1 heq with ⟨as, rfl, has⟩ | ⟨as, rfl, hpost⟩
  · exact hinside as has
  cases as with
  | nil => exact hinside [] hpost.symm
  | cons e as =>
    have hpost : d :: post = e :: (as ++ left) := hpost
    obtain ⟨rfl, rfl⟩ := List.cons_eq_cons.1 hpost
    by_cases has : as = []
    · exact habove _ (by simp [has])
    · rw [List.append_assoc, ends_append_iff has] at hd
      exact honly pre _ as rfl hd

/-! ## Reports and plain texts -/

theorem lineBehind_append {cs rest : List Char} (h : '\n' ∉ cs) :
    lineBehind (cs ++ rest) = cs ++ lineBehind rest := by
  refine List.takeWhile_append_of_pos fun c hc => decide_eq_true ?_
  rintro rfl
  exact h hc

/-- **A report shows the whole line** where no more is lost of it than blanks. -/
theorem marking_eq_iff {e : TypeError} {filename : String} {number column : Nat}
    {left line rest : List Char} (h : IsLine rest line) :
    marking e filename number column (left ++ line) =
        marking e filename number column (left ++ lineBehind (line ++ rest)) ↔
      Whole (lineBehind (line ++ rest)) := by
  -- Reports are the same if the lines are, but for the blanks at their ends.
  have htrim {x y : List Char} (hxy : trimEnd x = trimEnd y) :
      marking e filename number column x = marking e filename number column y := by
    simp only [marking, marked, shown, hxy]
  by_cases hmem : '\n' ∈ line
  · obtain ⟨cs, rfl, hcs⟩ := h.eq_of_newline hmem
    have hbehind : lineBehind (cs ++ ['\n'] ++ rest) = cs := by
      rw [List.append_assoc, lineBehind_append hcs]
      simp [lineBehind]
    rw [hbehind]
    refine iff_of_true (htrim ?_) (h.whole hcs)
    have hblank : ∀ b ∈ ['\n'], Text.isBlank b = true := List.forall_mem_singleton.2 rfl
    rw [← List.append_assoc, trimEnd_append_blank hblank]
  · rw [lineBehind_append hmem, h.whole_iff hmem, ← List.append_assoc]
    constructor
    · intro heq
      obtain ⟨-, -, hbody⟩ := framed_inj heq
      obtain ⟨rows, hrows⟩ := trimmed_marked e number column (left ++ line)
      obtain ⟨rows', hrows'⟩ := trimmed_marked e number column (left ++ line ++ lineBehind rest)
      rw [hrows, hrows'] at hbody
      exact blank_of_shown (String.ofList_inj.1 (List.cons_eq_cons.1 hbody).1)
    · exact fun hblank => htrim (trimEnd_append_blank hblank).symm

/-- **In a plain text a report shows the line of the character**, as far as the
line goes for it, and marks the character. -/
theorem rowsAt_of_plain {e : TypeError} {filename : String} (hbytes : ∀ d ∈ before, d.utf8Size = 1)
    (hends : ∀ pre d post, before = pre ++ d :: post → Ends d (post ++ c :: after) → d = '\n') :
    ∃ line rest, c :: after = line ++ rest ∧ IsLine rest line ∧
      trimmed (rowsAt e filename (byteLength before) (before ++ c :: after).length
        (lineAt (byteLength before) 1 0 (splitLines (before ++ c :: after)))) =
      marking e filename (1 + before.count '\n') (lineBefore before).length
        (lineBefore before ++ line) := by
  obtain ⟨line, rest, hafter, hline, hlineAt⟩ := lineAt_of_plain hbytes hends
  refine ⟨line, rest, hafter, hline, ?_⟩
  have hlength := Lines.byteLength_eq_length_iff.2 hbytes
  have hpos := List.length_pos_iff.2 hline.ne_nil
  have hle : (lineBefore before).length ≤ before.length := by
    obtain ⟨above, hbefore, -, -⟩ := exists_above before
    have := congrArg List.length hbefore
    rw [List.length_append] at this
    omega
  have hsize : ¬ (before ++ c :: after).length < byteLength before := by
    rw [List.length_append]
    omega
  have hshown : ¬ byteLength before - (lineBefore before).length +
      (lineBefore before ++ line).length < byteLength before + 1 := by
    rw [List.length_append]
    omega
  have hcolumn : byteLength before - (byteLength before - (lineBefore before).length) =
      (lineBefore before).length := by
    omega
  rw [rowsAt, if_neg hsize, hlineAt]
  dsimp only
  rw [if_neg hshown, hcolumn, marking]

theorem drawAt_eq (fault : TypeFault) (filename : String) (before : List Char) (c : Char)
    (after : List Char) :
    drawAt fault filename before c after =
      trimmed (rowsAt ⟨fault, (Lines.ofChars (before ++ c :: after)).pos (byteLength before)⟩ filename
        (byteLength before) (before ++ c :: after).length
        (lineAt (byteLength before) 1 0 (splitLines (before ++ c :: after)))) := by
  have hsource : (String.ofList (before ++ c :: after)).toList = before ++ c :: after :=
    String.toList_ofList
  have hlines : Lines.ofString (String.ofList (before ++ c :: after)) =
      Lines.ofChars (before ++ c :: after) := by
    rw [Lines.ofString, hsource]
  rw [drawAt, draw_eq_rowsAt hsource rfl, hsource, hlines]

/-- **A report points at its error in a plain text, and in no other.** -/
theorem drawAt_eq_marking_iff (fault : TypeFault) (filename : String) (before : List Char) (c : Char)
    (after : List Char) :
    let e := ⟨fault, (Lines.ofChars (before ++ c :: after)).pos (byteLength before)⟩
    drawAt fault filename before c after =
        marking e filename e.pos.line (lineBefore before).length
          (lineBefore before ++ lineBehind (c :: after)) ↔
      Plain before c after := by
  intro e
  have hnumber : e.pos.line = 1 + before.count '\n' := Lines.line_pos before (c :: after)
  rw [drawAt_eq, hnumber]
  constructor
  · intro heq
    have hlineAt : (lineAt (byteLength before) 1 0 (splitLines (before ++ c :: after))).number =
        1 + before.count '\n' ∧ byteLength before -
          (lineAt (byteLength before) 1 0 (splitLines (before ++ c :: after))).offset =
            (lineBefore before).length := by
      rw [rowsAt] at heq
      split at heq
      · exact absurd heq headline_ne_framed
      · obtain ⟨hline, hindex, -⟩ := framed_inj heq
        exact ⟨hline, hindex⟩
    obtain ⟨hbytes, hends⟩ := plain_of_lineAt hlineAt.1 hlineAt.2
    obtain ⟨line, rest, hafter, hline, hrows⟩ := rowsAt_of_plain hbytes hends
    refine ⟨hbytes, hends, ?_⟩
    rw [hrows, hafter] at heq
    rw [hafter]
    exact (marking_eq_iff hline).1 heq
  · rintro ⟨hbytes, hends, hwhole⟩
    obtain ⟨line, rest, hafter, hline, hrows⟩ := rowsAt_of_plain hbytes hends
    rw [hrows, hafter]
    rw [hafter] at hwhole
    exact (marking_eq_iff hline).2 hwhole

/-- Behind a comment with an accent the semicolon is marked, not the variable. -/
theorem drawAt_accented :
    let before := "// é\nint main() \x7b return ".toList
    let after := "; \x7d".toList
    let e : TypeError := ⟨.unknownVariable "x", ⟨2, 21⟩⟩
    (Lines.ofChars (before ++ 'x' :: after)).pos (byteLength before) = e.pos ∧
      drawAt e.fault "a.q" before 'x' after =
        marking e "a.q" 2 21 (lineBefore before ++ lineBehind ('x' :: after)) ∧
      drawAt e.fault "a.q" before 'x' after ≠
        marking e "a.q" e.pos.line (lineBefore before).length
          (lineBefore before ++ lineBehind ('x' :: after)) := by
  intro before after e
  have hpos : (Lines.ofChars (before ++ 'x' :: after)).pos (byteLength before) = e.pos := by decide
  have hline : lineAt (byteLength before) 1 0 (splitLines (before ++ 'x' :: after)) =
      ⟨2, 5, lineBefore before ++ lineBehind ('x' :: after)⟩ := by decide
  have hdraw : drawAt e.fault "a.q" before 'x' after =
      marking e "a.q" 2 21 (lineBefore before ++ lineBehind ('x' :: after)) := by
    rw [drawAt_eq, hpos, hline, rowsAt, if_neg (by decide)]
    dsimp only
    rw [if_neg (by decide)]
    rfl
  refine ⟨hpos, hdraw, fun h => ?_⟩
  obtain ⟨-, hcolumn, -⟩ := framed_inj (hdraw.symm.trans h)
  exact absurd hcolumn (by decide)

end ClassLang.Report
