import ClassLang.Text.Span
/-!
# Text — byte offsets and positions

`Lines` records where the lines of a text start, and converts byte
offsets to positions and back. Lines are separated by `'\n'` alone, and
the separator belongs to the line it ends.

Offsets, lines and columns are words of 32 bits. `posWord` and `offsetWord`
convert them with the sums of words, which wrap around; `pos` and `offset` are
what these say as long as no sum does.
-/


namespace ClassLang

/-- The line starts of a text, by byte offset, and its length in bytes. -/
structure Lines where
  starts : List Nat
  size : Nat
deriving DecidableEq, Repr

namespace Lines

/-- The offsets just past each newline of `cs`, which starts at byte `o`. -/
def startsAfter : Nat → List Char → List Nat
  | _, [] => []
  | o, c :: cs =>
    if c = '\n' then (o + 1) :: startsAfter (o + 1) cs else startsAfter (o + c.utf8Size) cs

/-- The lines of a text. The first starts at offset zero, also when the
text is empty. -/
def ofChars (cs : List Char) : Lines := ⟨0 :: startsAfter 0 cs, byteLength cs⟩

/-- The lines of a string. -/
def ofString (s : String) : Lines := ofChars s.toList

/-- How many lines there are, never zero. -/
def count (l : Lines) : Nat := l.starts.length

/-- The position of a byte offset, which may lie past the end: the last
line that starts no later, and the distance from its start. -/
def pos (l : Lines) (offset : Nat) : Pos :=
  let before := l.starts.takeWhile (· ≤ offset)
  ⟨before.length - 1 + 1, offset - before.getLastD 0 + 1⟩

/-- The byte offset of a position, at most the size of the text. A line
that does not exist is at the end; line and column zero count as one. -/
def offset (l : Lines) (p : Pos) : Nat :=
  match l.starts[p.line - 1]? with
  | some start => min (start + (p.column - 1)) l.size
  | none => l.size

theorem offset_le_size (l : Lines) (p : Pos) : l.offset p ≤ l.size := by
  unfold offset
  split
  · exact Nat.min_le_right _ _
  · exact Nat.le_refl _

/-! ## Conversions of words -/

/-- The position of a word. Its sums wrap around; where sums are checked, one
that does stops the conversion. -/
def posWord (l : Lines) (offset : UInt32) : Pos :=
  let before := l.starts.takeWhile (· ≤ offset.toNat)
  ⟨(UInt32.ofNat (before.length - 1) + 1).toNat,
    (offset - .ofNat (before.getLastD 0) + 1).toNat⟩

/-- The byte offset of a position as a word, at most the size of the text. -/
def offsetWord (l : Lines) (p : Pos) : UInt32 :=
  match l.starts[p.line - 1]? with
  | some start => min (.ofNat start + .ofNat (p.column - 1)) (.ofNat l.size)
  | none => .ofNat l.size

end Lines

end ClassLang
