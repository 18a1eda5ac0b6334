import ClassLang.Proofs.Growth
import ClassLang.Proofs.Text.Positions
/-!
# Text — byte offsets and positions convert both ways

A text is a list of bytes here, and a line starts at its front and just past
every newline (`StartsLine`). The position of an offset counts the newlines in
front of it and the bytes from the start of its line (`pos_eq`), and leads back to
the offset, or to the end of the text if the offset is past it (`offset_pos_min`).
The other way round only the positions of the text come back
(`pos_offset_eq_iff`). Conversions of words agree with these where the position fits
(`posWord_eq_pos`, `offsetWord_eq_offset`), which it does at all offsets but at most
the largest word (`not_fits_iff`). So conversions are inverse to each other where they
can be (`converts_ofString`).
-/


namespace ClassLang

/-- A newline is one byte. -/
def newlineByte : UInt8 := 10

/-- The bytes of characters in UTF-8. -/
def utf8 (cs : List Char) : List UInt8 := cs.flatMap String.utf8EncodeChar

/-- A line starts at the offset: in front of the text, or just past a newline. -/
def StartsLine (bytes : List UInt8) (s : Nat) : Prop :=
  s = 0 ∨ ∃ k, s = k + 1 ∧ bytes[k]? = some newlineByte

/-- How many newlines stand in front of an offset. -/
def newlinesBefore (bytes : List UInt8) (o : Nat) : Nat := (bytes.take o).count newlineByte

/-- **The offset is on the line that starts at `s`**: no line starts between. -/
structure OnLine (bytes : List UInt8) (s o : Nat) : Prop where
  starts : StartsLine bytes s
  le : s ≤ o
  last : ∀ s', StartsLine bytes s' → s' ≤ o → s' ≤ s

/-- **The line of the number starts at `s`.** -/
structure LineAt (bytes : List UInt8) (line s : Nat) : Prop where
  starts : StartsLine bytes s
  number : line = 1 + newlinesBefore bytes s

section OnLine

variable {bytes : List UInt8} {o s : Nat}

theorem OnLine.unique {s' : Nat} (h : OnLine bytes s o) (h' : OnLine bytes s' o) : s = s' :=
  Nat.le_antisymm (h'.last s h.starts h.le) (h.last s' h'.starts h'.le)

/-- Between the start of a line and what is on it there are no newlines. -/
theorem OnLine.newlines (h : OnLine bytes s o) : newlinesBefore bytes s = newlinesBefore bytes o := by
  obtain ⟨k, rfl⟩ := Nat.exists_eq_add_of_le h.le
  rw [newlinesBefore, newlinesBefore, List.take_add, List.count_append]
  suffices newlineByte ∉ (bytes.drop s).take k by rw [List.count_eq_zero_of_not_mem this, Nat.add_zero]
  intro hmem
  obtain ⟨i, hi⟩ := List.mem_iff_getElem?.1 hmem
  have hlt := (List.getElem?_eq_some_iff.1 hi).1
  rw [List.length_take] at hlt
  rw [List.getElem?_take_of_lt (by omega), List.getElem?_drop] at hi
  have := h.last (s + i + 1) (.inr ⟨_, rfl, hi⟩) (by omega)
  omega

end OnLine

/-! ## The bytes of newlines -/

/-- No other character has the byte of a newline in it. -/
theorem eq_newline_of_mem {c : Char} (h : newlineByte ∈ String.utf8EncodeChar c) : c = '\n' := by
  have hbyte {n : Nat} (hn : n < 256) (heq : newlineByte = UInt8.ofNat n) : n = 10 := by
    have := congrArg UInt8.toNat heq
    rw [UInt8.toNat_ofNat_of_lt' hn] at this
    exact this.symm
  unfold String.utf8EncodeChar at h
  dsimp only at h
  split at h
  · have hval := hbyte (by omega) (List.mem_singleton.1 h)
    exact Char.ext (UInt32.toNat_inj.1 hval)
  · -- The bytes of all others have their first bit set.
    exfalso
    split at h
    · simp only [List.mem_cons, List.not_mem_nil, or_false] at h
      rcases h with h | h <;> have := hbyte (by omega) h <;> omega
    · split at h
      · simp only [List.mem_cons, List.not_mem_nil, or_false] at h
        rcases h with h | h | h <;> have := hbyte (by omega) h <;> omega
      · simp only [List.mem_cons, List.not_mem_nil, or_false] at h
        rcases h with h | h | h | h <;> have := hbyte (by omega) h <;> omega

namespace Lines

/-- The offsets just past each newline of bytes, the first of which stands at `o`. -/
def pastNewlines : Nat → List UInt8 → List Nat
  | _, [] => []
  | o, b :: bytes =>
    if b = newlineByte then (o + 1) :: pastNewlines (o + 1) bytes else pastNewlines (o + 1) bytes

theorem pastNewlines_append (o : Nat) (xs ys : List UInt8) :
    pastNewlines o (xs ++ ys) = pastNewlines o xs ++ pastNewlines (o + xs.length) ys := by
  induction xs generalizing o with
  | nil => rfl
  | cons b xs ih =>
    rw [List.cons_append, pastNewlines, pastNewlines, ih, List.length_cons, Nat.add_right_comm o,
      Nat.add_assoc o]
    split <;> rfl

theorem length_pastNewlines (o : Nat) (bytes : List UInt8) :
    (pastNewlines o bytes).length = bytes.count newlineByte := by
  induction bytes generalizing o with
  | nil => rfl
  | cons b bytes ih =>
    by_cases hb : b = newlineByte
    · simp [pastNewlines, hb, ih]
    · simp [pastNewlines, hb, ih]

theorem mem_pastNewlines_iff {o s : Nat} {bytes : List UInt8} :
    s ∈ pastNewlines o bytes ↔ ∃ k, s = o + k + 1 ∧ bytes[k]? = some newlineByte := by
  induction bytes generalizing o with
  | nil => simp [pastNewlines]
  | cons b bytes ih =>
    have hrest : s ∈ pastNewlines (o + 1) bytes ↔
        ∃ k, s = o + (k + 1) + 1 ∧ (b :: bytes)[k + 1]? = some newlineByte := by
      rw [ih]
      exact exists_congr fun k => by rw [List.getElem?_cons_succ, Nat.add_right_comm o]; rfl
    have hfirst : (∃ k, s = o + k + 1 ∧ (b :: bytes)[k]? = some newlineByte) ↔
        (s = o + 1 ∧ b = newlineByte) ∨ s ∈ pastNewlines (o + 1) bytes := by
      rw [hrest]
      constructor
      · rintro ⟨_ | k, hs, hk⟩
        · exact .inl ⟨hs, Option.some.inj hk⟩
        · exact .inr ⟨k, hs, hk⟩
      · rintro (⟨hs, hb⟩ | ⟨k, hs, hk⟩)
        · exact ⟨0, hs, congrArg some hb⟩
        · exact ⟨k + 1, hs, hk⟩
    rw [hfirst, pastNewlines]
    split
    next hb => simp [hb]
    next hb => simp [hb]

/-- Later newlines are passed later. -/
theorem pairwise_pastNewlines (o : Nat) (bytes : List UInt8) :
    (pastNewlines o bytes).Pairwise (· ≤ ·) := by
  induction bytes generalizing o with
  | nil => exact .nil
  | cons b bytes ih =>
    rw [pastNewlines]
    split
    · refine .cons (fun s hs => ?_) (ih _)
      obtain ⟨k, rfl, -⟩ := mem_pastNewlines_iff.1 hs
      omega
    · exact ih _

theorem pastNewlines_eq_nil {bytes : List UInt8} (h : newlineByte ∉ bytes) (o : Nat) :
    pastNewlines o bytes = [] := by
  refine List.length_eq_zero_iff.1 ?_
  rw [length_pastNewlines, List.count_eq_zero]
  exact h

/-- **The lines of a text** start as its bytes say. -/
theorem startsAfter_eq (o : Nat) (cs : List Char) : startsAfter o cs = pastNewlines o (utf8 cs) := by
  induction cs generalizing o with
  | nil => rfl
  | cons c cs ih =>
    rw [utf8, List.flatMap_cons, startsAfter, pastNewlines_append, String.length_utf8EncodeChar]
    by_cases hc : c = '\n'
    · subst hc
      rw [if_pos rfl, ih]
      rfl
    · rw [if_neg hc, ih, pastNewlines_eq_nil fun h => hc (eq_newline_of_mem h)]
      rfl

theorem length_utf8 (cs : List Char) : (utf8 cs).length = byteLength cs := by
  induction cs with
  | nil => rfl
  | cons c cs ih =>
    rw [utf8, List.flatMap_cons, List.length_append, String.length_utf8EncodeChar, byteLength_cons,
      ← ih]
    rfl

theorem ofChars_eq (cs : List Char) :
    ofChars cs = ⟨0 :: pastNewlines 0 (utf8 cs), (utf8 cs).length⟩ := by
  rw [ofChars, startsAfter_eq, length_utf8]

/-! ## Positions of offsets -/

section Bytes

variable {bytes : List UInt8} {o s : Nat}

theorem mem_starts_iff : s ∈ 0 :: pastNewlines 0 bytes ↔ StartsLine bytes s := by
  rw [List.mem_cons, mem_pastNewlines_iff, StartsLine]
  simp only [Nat.zero_add]

/-- The lines that start no later than an offset are those that the bytes in
front of it start. -/
theorem takeWhile_starts_eq (bytes : List UInt8) (o : Nat) :
    (0 :: pastNewlines 0 bytes).takeWhile (· ≤ o) = 0 :: pastNewlines 0 (bytes.take o) := by
  have hfront : ∀ s ∈ 0 :: pastNewlines 0 (bytes.take o), s ≤ o := by
    refine List.forall_mem_cons.2 ⟨Nat.zero_le o, fun s hs => ?_⟩
    obtain ⟨k, rfl, hk⟩ := mem_pastNewlines_iff.1 hs
    have hlt := (List.getElem?_eq_some_iff.1 hk).1
    rw [List.length_take] at hlt
    omega
  have hbehind : (pastNewlines (0 + (bytes.take o).length) (bytes.drop o)).takeWhile (· ≤ o) = [] := by
    cases heq : pastNewlines (0 + (bytes.take o).length) (bytes.drop o) with
    | nil => rfl
    | cons s more =>
      obtain ⟨k, rfl, hk⟩ := mem_pastNewlines_iff.1 (heq ▸ List.mem_cons_self : s ∈ _)
      have hlt := (List.getElem?_eq_some_iff.1 hk).1
      rw [List.length_drop] at hlt
      refine List.takeWhile_cons_of_neg ?_
      rw [decide_eq_true_eq, List.length_take]
      omega
  rw [← List.take_append_drop o bytes, pastNewlines_append, ← List.cons_append,
    List.takeWhile_append_of_pos fun s hs => decide_eq_true (hfront s hs), hbehind,
    List.append_nil, List.take_append_drop]

/-- The start of the line that an offset is on. -/
def startBefore (bytes : List UInt8) (o : Nat) : Nat := (pastNewlines 0 (bytes.take o)).getLastD 0

theorem onLine_startBefore (bytes : List UInt8) (o : Nat) : OnLine bytes (startBefore bytes o) o := by
  have hne : 0 :: pastNewlines 0 (bytes.take o) ≠ [] := List.cons_ne_nil _ _
  have hstart : startBefore bytes o = (0 :: pastNewlines 0 (bytes.take o)).getLast hne := by
    rw [startBefore, ← List.getLastD_cons (a := 0), List.getLastD_eq_getLast?,
      List.getLast?_eq_some_getLast hne, Option.getD_some]
  have hmem {s : Nat} : s ∈ 0 :: pastNewlines 0 (bytes.take o) ↔ StartsLine bytes s ∧ s ≤ o := by
    rw [← takeWhile_starts_eq]
    constructor
    · intro hs
      have hle := List.all_eq_true.1 List.all_takeWhile s hs
      exact ⟨mem_starts_iff.1 ((List.takeWhile_subset _) hs), of_decide_eq_true hle⟩
    · rintro ⟨hs, hle⟩
      rw [takeWhile_starts_eq, mem_starts_iff]
      rcases hs with rfl | ⟨k, rfl, hk⟩
      · exact .inl rfl
      · exact .inr ⟨k, rfl, (List.getElem?_take_of_lt (by omega)).trans hk⟩
  obtain ⟨hstarts, hle⟩ := hmem.1 (hstart ▸ List.getLast_mem hne)
  refine ⟨hstarts, hle, fun s' hs' hle' => ?_⟩
  have hsorted : (0 :: pastNewlines 0 (bytes.take o)).Pairwise (· ≤ ·) :=
    .cons (fun _ _ => Nat.zero_le _) (pairwise_pastNewlines _ _)
  exact hstart ▸ hsorted.rel_getLast (hmem.2 ⟨hs', hle'⟩)

variable {l : Lines}

/-- **The position of an offset**: its line is behind as many newlines, and its
column counts from the start of the line. -/
theorem pos_eq (hl : l.starts = 0 :: pastNewlines 0 bytes) (o : Nat) :
    l.pos o = ⟨1 + newlinesBefore bytes o, o - startBefore bytes o + 1⟩ := by
  rw [pos, hl, takeWhile_starts_eq, List.length_cons, length_pastNewlines, Nat.add_sub_cancel,
    Nat.add_comm _ 1, List.getLastD_cons]
  rfl

/-- The line of an offset starts where the lines say. -/
theorem starts_newlinesBefore (hl : l.starts = 0 :: pastNewlines 0 bytes) (o : Nat) :
    l.starts[newlinesBefore bytes o]? = some (startBefore bytes o) := by
  have hprefix : 0 :: pastNewlines 0 (bytes.take o) <+: l.starts := by
    rw [hl, ← takeWhile_starts_eq]
    exact List.takeWhile_prefix _
  refine getElem?_of_initial hprefix ?_
  rw [newlinesBefore, ← length_pastNewlines 0, startBefore]
  generalize pastNewlines 0 (bytes.take o) = starts
  show (0 :: starts)[(0 :: starts).length - 1]? = _
  rw [← List.getLast?_eq_getElem?, List.getLast?_cons, List.getLastD_eq_getLast?]

/-- **The position of an offset leads back to it**, or to the end of the text. -/
theorem offset_pos_min (hl : l.starts = 0 :: pastNewlines 0 bytes) (o : Nat) :
    l.offset (l.pos o) = min o l.size := by
  have hle := (onLine_startBefore bytes o).le
  rw [pos_eq hl, offset]
  simp only [Nat.add_sub_cancel_left, starts_newlinesBefore hl, Nat.add_sub_cancel,
    Nat.add_sub_cancel' hle]

/-- **The positions that come back** are those of the text: the line is there, and
the column is that of a byte of it, the newline at its end included, or of the end
of the text. -/
theorem pos_offset_eq_iff (hl : l.starts = 0 :: pastNewlines 0 bytes) (hsize : l.size = bytes.length)
    (p : Pos) : l.pos (l.offset p) = p ↔ 1 ≤ p.column ∧ ∃ s, LineAt bytes p.line s ∧
      OnLine bytes s (s + (p.column - 1)) ∧
        (s + (p.column - 1) < bytes.length ∨ s + (p.column - 1) = bytes.length) := by
  constructor
  · intro heq
    have hle := l.offset_le_size p
    generalize l.offset p = o at heq hle
    obtain rfl := heq
    have hon := onLine_startBefore bytes o
    have hcolumn : startBefore bytes o + (l.pos o).column - 1 = o := by
      rw [pos_eq hl]
      have := hon.le
      dsimp only
      omega
    rw [Nat.add_sub_assoc (by rw [pos_eq hl]; exact Nat.le_add_left _ _)] at hcolumn
    refine ⟨by rw [pos_eq hl]; exact Nat.le_add_left _ _, startBefore bytes o, ⟨hon.starts, ?_⟩, ?_⟩
    · rw [hon.newlines, pos_eq hl]
    · rw [hcolumn]
      exact ⟨hon, Nat.lt_or_eq_of_le (hsize ▸ hle)⟩
  · rintro ⟨hcolumn, s, hline, hon, hin⟩
    generalize ho : s + (p.column - 1) = o at hon hin
    have hpos : l.pos o = p := by
      rw [pos_eq hl, ← hon.newlines, ← hline.number, ← hon.unique (onLine_startBefore bytes o)]
      obtain ⟨line, column⟩ := p
      congr 1
      dsimp only at ho hcolumn
      omega
    rw [← hpos, offset_pos_min hl, Nat.min_eq_left (by omega)]

end Bytes

/-! ## Conversions of words -/

/-- **The position of the offset fits**: its line and its column are words. -/
def Fits (l : Lines) (offset : UInt32) : Prop :=
  (l.pos offset.toNat).line < 2 ^ 32 ∧ (l.pos offset.toNat).column < 2 ^ 32

instance (l : Lines) (offset : UInt32) : Decidable (l.Fits offset) := instDecidableAnd

/-- The lesser of two words is the lesser number. -/
theorem toNat_min_word (a b : UInt32) : (min a b).toNat = min a.toNat b.toNat :=
  apply_ite UInt32.toNat (a ≤ b) a b

/-- The position of a word is that of the offset, up to whole turns of the words. -/
theorem posWord_eq (l : Lines) (o : UInt32) :
    l.posWord o = ⟨(l.pos o.toNat).line % 2 ^ 32, (l.pos o.toNat).column % 2 ^ 32⟩ := by
  have hle : (l.starts.takeWhile (· ≤ o.toNat)).getLastD 0 ≤ o.toNat := by
    rw [List.getLastD_eq_getLast?]
    cases hlast : (l.starts.takeWhile (· ≤ o.toNat)).getLast? with
    | none => exact Nat.zero_le _
    | some s =>
      have hs := List.all_eq_true.1 List.all_takeWhile s (List.mem_of_getLast? hlast)
      exact of_decide_eq_true hs
  rw [posWord, pos]
  dsimp only
  generalize (l.starts.takeWhile (· ≤ o.toNat)).getLastD 0 = start at hle ⊢
  have hstart : (UInt32.ofNat start).toNat = start :=
    UInt32.toNat_ofNat_of_lt' (Nat.lt_of_le_of_lt hle o.toNat_lt)
  have hfrom : (o - .ofNat start).toNat = o.toNat - start := by
    rw [UInt32.toNat_sub_of_le _ _ (UInt32.le_iff_toNat_le.2 (by rw [hstart]; exact hle)), hstart]
  rw [UInt32.toNat_add, UInt32.toNat_add, hfrom, UInt32.toNat_ofNat', UInt32.toNat_one,
    Nat.mod_add_mod]

/-- **Where the position of an offset fits**, words give it. -/
theorem posWord_eq_pos {l : Lines} {o : UInt32} (h : l.Fits o) : l.posWord o = l.pos o.toNat := by
  rw [posWord_eq, Nat.mod_eq_of_lt h.1, Nat.mod_eq_of_lt h.2]

/-- **Where the offset of a position is a word**, words give it. -/
theorem offsetWord_eq_offset {l : Lines} {p : Pos} (hsize : l.size < 2 ^ 32)
    (hsum : ∀ s, l.starts[p.line - 1]? = some s → s + (p.column - 1) < 2 ^ 32) :
    (l.offsetWord p).toNat = l.offset p := by
  rw [offsetWord, offset]
  split
  next start hstart =>
    have hlt := hsum start hstart
    rw [toNat_min_word, UInt32.toNat_add, UInt32.toNat_ofNat_of_lt' (show start < 2 ^ 32 by omega),
      UInt32.toNat_ofNat_of_lt' (show p.column - 1 < 2 ^ 32 by omega),
      UInt32.toNat_ofNat_of_lt' hsize, Nat.mod_eq_of_lt hlt]
  next => exact UInt32.toNat_ofNat_of_lt' hsize

/-- No position leads past the end, not even where sums wrap around. -/
theorem offsetWord_le_size {l : Lines} (hsize : l.size < 2 ^ 32) (p : Pos) :
    (l.offsetWord p).toNat ≤ l.size := by
  rw [offsetWord]
  split
  · rw [toNat_min_word, UInt32.toNat_ofNat_of_lt' hsize]
    exact Nat.min_le_right _ _
  · exact Nat.le_of_eq (UInt32.toNat_ofNat_of_lt' hsize)

section Words

variable {bytes : List UInt8} {l : Lines} {o : UInt32}

/-- There are no more newlines in front of an offset than bytes. -/
theorem newlinesBefore_le (bytes : List UInt8) (o : Nat) : newlinesBefore bytes o ≤ o :=
  List.count_le_length.trans (List.length_take_le _ _)

/-- Where there are no newlines in front, the line is the first. -/
theorem startBefore_eq_zero {o : Nat} (h : newlinesBefore bytes o = 0) : startBefore bytes o = 0 := by
  rw [newlinesBefore, ← length_pastNewlines 0, List.length_eq_zero_iff] at h
  rw [startBefore, h, List.getLastD_nil]

/-- Where there is nothing else in front, the line starts at the offset. -/
theorem startBefore_eq_self {o : Nat} (h : newlinesBefore bytes o = o) : startBefore bytes o = o := by
  have hon := onLine_startBefore bytes o
  have hle := newlinesBefore_le bytes (startBefore bytes o)
  rw [hon.newlines, h] at hle
  exact Nat.le_antisymm hon.le hle

/-- **The offsets whose positions do not fit**: the largest word alone, and only
where no newline stands in front of it, or nothing else. -/
theorem not_fits_iff (hl : l.starts = 0 :: pastNewlines 0 bytes) (o : UInt32) :
    ¬ l.Fits o ↔ o.toNat = 2 ^ 32 - 1 ∧
      (newlinesBefore bytes o.toNat = 0 ∨ newlinesBefore bytes o.toNat = 2 ^ 32 - 1) := by
  have ho := o.toNat_lt
  have hcount := newlinesBefore_le bytes o.toNat
  rw [Fits, pos_eq hl]
  dsimp only
  constructor
  · intro h
    by_cases hline : newlinesBefore bytes o.toNat = 2 ^ 32 - 1
    · exact ⟨by omega, .inr hline⟩
    · have hstart : startBefore bytes o.toNat = 0 := by omega
      have hnewlines := (onLine_startBefore bytes o.toNat).newlines
      rw [hstart] at hnewlines
      exact ⟨by omega, .inl (Nat.le_zero.1 (hnewlines ▸ newlinesBefore_le bytes 0))⟩
  · rintro ⟨hlast, hnone | hall⟩ ⟨hline, hcolumn⟩
    · rw [startBefore_eq_zero hnone] at hcolumn
      omega
    · omega

/-- Where the position fits, it leads back to the offset or to the end. -/
theorem offsetWord_posWord (hl : l.starts = 0 :: pastNewlines 0 bytes) (hsize : l.size < 2 ^ 32)
    (h : l.Fits o) : (l.offsetWord (l.posWord o)).toNat = min o.toNat l.size := by
  have hsum : ∀ s, l.starts[(l.pos o.toNat).line - 1]? = some s →
      s + ((l.pos o.toNat).column - 1) < 2 ^ 32 := by
    intro s hs
    rw [pos_eq hl, Nat.add_sub_cancel_left, starts_newlinesBefore hl] at hs
    obtain rfl := Option.some.inj hs
    rw [pos_eq hl, Nat.add_sub_cancel, Nat.add_sub_cancel' (onLine_startBefore _ _).le]
    exact o.toNat_lt
  rw [posWord_eq_pos h, offsetWord_eq_offset hsize hsum, offset_pos_min hl]

/-- Where it does not fit, it leads back to the front of the text. -/
theorem offsetWord_posWord_of_not_fits (hl : l.starts = 0 :: pastNewlines 0 bytes) (h : ¬ l.Fits o) :
    l.offsetWord (l.posWord o) = 0 := by
  obtain ⟨hlast, hnewlines⟩ := (not_fits_iff hl o).1 h
  have hfront : (l.posWord o).line - 1 = 0 ∧ (l.posWord o).column - 1 = 0 := by
    rw [posWord_eq, pos_eq hl]
    rcases hnewlines with hnone | hall
    · rw [hnone, startBefore_eq_zero hnone, hlast]
      exact ⟨rfl, rfl⟩
    · rw [startBefore_eq_self (hall.trans hlast.symm), hall, Nat.sub_self]
      exact ⟨rfl, rfl⟩
  rw [offsetWord, hfront.1, hfront.2, hl]
  refine UInt32.toNat_inj.1 ((toNat_min_word _ _).trans ?_)
  exact Nat.zero_min _

/-- **The positions that come back**, in words, are the same. -/
theorem posWord_offsetWord_eq_iff (hl : l.starts = 0 :: pastNewlines 0 bytes)
    (hsize : l.size = bytes.length) (hlt : bytes.length < 2 ^ 32) {p : Pos}
    (hsum : ∀ s, LineAt bytes p.line s → s + p.column < 2 ^ 32) :
    l.posWord (l.offsetWord p) = p ↔ 1 ≤ p.column ∧ ∃ s, LineAt bytes p.line s ∧
      OnLine bytes s (s + (p.column - 1)) ∧
        (s + (p.column - 1) < bytes.length ∨ s + (p.column - 1) = bytes.length) := by
  rw [← pos_offset_eq_iff hl hsize]
  have hltsize : l.size < 2 ^ 32 := hsize ▸ hlt
  constructor
  · intro heq
    have hle := offsetWord_le_size hltsize p
    generalize ho : l.offsetWord p = o at heq hle
    by_cases hfits : l.Fits o
    · rw [posWord_eq_pos hfits] at heq
      rw [← heq, offset_pos_min hl, Nat.min_eq_left hle]
    · -- A position that does not fit leads to the front, and that one fits.
      have hzero := offsetWord_posWord_of_not_fits hl hfits
      rw [heq, ho] at hzero
      have hlast := ((not_fits_iff hl o).1 hfits).1
      rw [hzero] at hlast
      exact absurd hlast (by decide)
  · intro heq
    have hle := l.offset_le_size p
    generalize l.offset p = o at heq hle
    have hon := onLine_startBefore bytes o
    -- The sum of the line start and the column is a word, so the position fits.
    have hbelow : o + 1 < 2 ^ 32 := by
      have := hsum _ ⟨hon.starts, by rw [← heq, pos_eq hl, hon.newlines]⟩
      rw [← heq, pos_eq hl] at this
      have := hon.le
      dsimp only at *
      omega
    have hword : (UInt32.ofNat o).toNat = o := UInt32.toNat_ofNat_of_lt' (Nat.lt_of_succ_lt hbelow)
    have hfits : l.Fits (.ofNat o) := by
      by_contra hnot
      have := ((not_fits_iff hl _).1 hnot).1
      omega
    have hpos : l.posWord (.ofNat o) = p := by rw [posWord_eq_pos hfits, hword, heq]
    have hback := offsetWord_posWord hl hltsize hfits
    rw [hpos, hword, Nat.min_eq_left hle] at hback
    rw [UInt32.toNat_inj.1 (hback.trans hword.symm), hpos]

end Words

/-- **Byte offsets and positions convert both ways** between the lines and the bytes
of a text, in words, wherever the position of the offset fits. -/
structure Converts (l : Lines) (bytes : List UInt8) : Prop where
  /-- Lines are counted by the newlines in front. -/
  line : ∀ o, l.Fits o → o.toNat ≤ bytes.length →
    (l.posWord o).line = 1 + newlinesBefore bytes o.toNat
  /-- Columns are counted from the start of the line. -/
  column : ∀ o, l.Fits o → o.toNat ≤ bytes.length →
    ∃ s, OnLine bytes s o.toNat ∧ (l.posWord o).column = o.toNat - s + 1
  /-- The position of an offset leads back to it. -/
  back : ∀ o, l.Fits o → o.toNat ≤ bytes.length → l.offsetWord (l.posWord o) = o
  /-- Later offsets are at later positions. -/
  ordered : ∀ o o', l.Fits o' → o < o' → (l.posWord o).Before (l.posWord o')
  /-- What is past the end comes back to the end. -/
  beyond : ∀ o, l.Fits o → bytes.length < o.toNat →
    (l.offsetWord (l.posWord o)).toNat = bytes.length
  /-- No position leads past the end. -/
  clamped : ∀ p, (l.offsetWord p).toNat ≤ bytes.length
  /-- The positions that come back are those of a byte of a line that is there, the
  newline at its end included, or of the end of the text. -/
  returns : ∀ p, (∀ s, LineAt bytes p.line s → s + p.column < 2 ^ 32) →
    (l.posWord (l.offsetWord p) = p ↔ 1 ≤ p.column ∧ ∃ s, LineAt bytes p.line s ∧
      OnLine bytes s (s + (p.column - 1)) ∧
        (s + (p.column - 1) < bytes.length ∨ s + (p.column - 1) = bytes.length))
  /-- The lines that are there are those that are counted. -/
  count : l.count = 1 + bytes.count newlineByte
  /-- All offsets fit but the largest word, and that too behind a newline and
  another byte. -/
  fits : ∀ o, ¬ l.Fits o ↔ o.toNat = 2 ^ 32 - 1 ∧
    (newlinesBefore bytes o.toNat = 0 ∨ newlinesBefore bytes o.toNat = 2 ^ 32 - 1)

/-- **Byte offsets and positions of every text convert both ways**, where its length
is a word. -/
theorem converts_ofString (source : String) (h : source.utf8ByteSize < 2 ^ 32) :
    (ofString source).Converts source.toByteArray.data.toList := by
  have hbytes : source.toByteArray.data.toList = utf8 source.toList := by
    conv_lhs => rw [← String.ofList_toList (s := source), String.toByteArray_ofList,
      List.utf8Encode, List.data_toByteArray]
    rfl
  have hlt : (utf8 source.toList).length < 2 ^ 32 := hbytes ▸ h
  have hstarts : (ofString source).starts = 0 :: pastNewlines 0 (utf8 source.toList) := by
    rw [ofString, ofChars_eq]
  have hsize : (ofString source).size = (utf8 source.toList).length := by rw [ofString, ofChars_eq]
  have hltsize : (ofString source).size < 2 ^ 32 := hsize ▸ hlt
  rw [hbytes]
  refine ⟨fun o ho _ => ?_, fun o ho _ => ⟨_, onLine_startBefore _ o.toNat, ?_⟩, fun o ho hle => ?_,
    fun o o' ho hlt => ?_, fun o ho hlt => ?_, fun p => hsize ▸ offsetWord_le_size hltsize p,
    fun p => posWord_offsetWord_eq_iff hstarts hsize hlt, ?_, not_fits_iff hstarts⟩
  · rw [posWord_eq_pos ho, pos_eq hstarts]
  · rw [posWord_eq_pos ho, pos_eq hstarts]
  · rw [← UInt32.toNat_inj, offsetWord_posWord hstarts hltsize ho, hsize, Nat.min_eq_left hle]
  · have hfits : (ofString source).Fits o := by
      by_contra hnot
      have hlast := ((not_fits_iff hstarts o).1 hnot).1
      have := UInt32.lt_iff_toNat_lt.1 hlt
      have := o'.toNat_lt
      omega
    rw [posWord_eq_pos ho, posWord_eq_pos hfits]
    exact before_pos (by rw [hstarts]; rfl) (UInt32.lt_iff_toNat_lt.1 hlt)
  · rw [offsetWord_posWord hstarts hltsize ho, hsize, Nat.min_eq_right (Nat.le_of_lt hlt)]
  · rw [count, hstarts, List.length_cons, length_pastNewlines, Nat.add_comm]

/-- The offsets of a text of two lines all fit, also those that are past its end. -/
theorem converts_two_lines : "a\nb".utf8ByteSize < 2 ^ 32 ∧
    (ofString "a\nb").Converts "a\nb".toByteArray.data.toList ∧
      (ofString "a\nb").Fits 4294967295 ∧
        (ofString "a\nb").posWord 4294967295 = ⟨2, 4294967294⟩ :=
  ⟨by decide, converts_ofString "a\nb" (by decide), by decide, by decide⟩

/-- **The position of the largest word wraps around** in a text of one line: its column
is zero, so that it comes in front of all others and leads back to the front of the
text, not to its end. -/
theorem largest_word_wraps :
    "ab".utf8ByteSize < (4294967295 : UInt32).toNat ∧
      (ofString "ab").posWord 4294967295 = ⟨1, 0⟩ ∧
      (ofString "ab").offsetWord ((ofString "ab").posWord 4294967295) = 0 ∧
      ¬ ((ofString "ab").posWord 4294967294).Before ((ofString "ab").posWord 4294967295) ∧
      ¬ (ofString "ab").Fits 4294967295 := by
  refine ⟨by decide, by decide, by decide, ?_, by decide⟩
  rw [Pos.Before]
  decide

/-- At the end of a text that ends with a newline, the last line is empty; a column
that runs past a newline does not come back. -/
example : (ofString "a\n").posWord 2 = ⟨2, 1⟩ ∧ (ofString "a\n").offsetWord ⟨1, 3⟩ = 2 := by decide

end Lines

end ClassLang
