import ClassLang.Report.Diagnostic
import ClassLang.Text.Lines
import ClassLang.Text.Width
/-!
# Reports — drawings

A drawing shows an error in the text it is about: a headline, the name of
the file with line and column, the line of the text, and an arrow with a
label under the character. The byte offset of an error counts here as an
offset in characters, and lines end at every line terminator of Unicode,
so in a text with other characters than ASCII the arrow may be off. Every
cell of an arrow is as wide as the character above it.
-/


namespace ClassLang.Report

/-- Does a line end at the character? -/
def isTerminator (c : Char) : Bool :=
  c = '\n' || c = '\r' || c = '\x0b' || c = '\x0c' || c = '\u0085' || c = '\u2028' || c = '\u2029'

/-- The lines of a text with their terminators; a carriage return and the
newline behind it are one terminator. -/
def splitLines : List Char → List (List Char)
  | [] => []
  | '\r' :: '\n' :: cs => ['\r', '\n'] :: splitLines cs
  | c :: cs =>
    if isTerminator c then [c] :: splitLines cs
    else match splitLines cs with
      | [] => [[c]]
      | line :: rest => (c :: line) :: rest

/-- A line of a text: its number from one on, the offset of its first
character, and its characters. -/
structure TextLine where
  number : Nat
  offset : Nat
  chars : List Char
deriving DecidableEq, Repr

/-- The last of the lines that starts no later than at the offset `start`;
the first line in the list starts at `offset`. -/
def lineAt (start : Nat) (number offset : Nat) : List (List Char) → TextLine
  | [] => ⟨number, offset, []⟩
  | line :: rest =>
    if rest.isEmpty || start < offset + line.length then ⟨number, offset, line⟩
    else lineAt start (number + 1) (offset + line.length) rest

/-- A line without the blanks at its end. -/
def trimEnd (cs : List Char) : List Char := (cs.reverse.dropWhile Text.isBlank).reverse

/-- How many columns a character takes at an index of its line. Tabs stop
at every fourth column. -/
def columns (index : Nat) (c : Char) : Nat :=
  if c = '\t' then 4 - index % 4 else if Text.isBlank c then 1 else Text.width c

/-- The characters of a line from an index on as they are drawn: blanks
become spaces. -/
def drawn (index : Nat) : List Char → List Char
  | [] => []
  | c :: cs =>
    (if Text.isBlank c then List.replicate (columns index c) ' ' else [c]) ++ drawn (index + 1) cs

/-- How many columns the first `n` characters of a line take from an index
on; past the end of the line, a column each. -/
def columnsBefore : Nat → Nat → List Char → Nat
  | 0, _, _ => 0
  | n + 1, _, [] => n + 1
  | n + 1, index, c :: cs => columns index c + columnsBefore n (index + 1) cs

/-- The cell of an arrow that a character `count` columns wide gives room
for: its head, then a bar over the columns left. -/
def cell (head bar : Char) (count : Nat) : List Char :=
  (head :: List.replicate (count - 1) bar).take count

/-- The two rows of the arrow under the character at an index of a line.
If the error has a `span`, the first row underlines it and the second runs
on below the two characters behind it; otherwise a stem stands at the
place and the second row runs on below one character. The label follows. -/
def arrow (span : Bool) (column : Nat) (text : List Char) (label : String) :
    List Char × List Char :=
  let indent := List.replicate (columnsBefore column 0 text) ' '
  let marked := columnsBefore 1 column (text.drop column)
  let following := columnsBefore (if span then 2 else 1) (column + 1) (text.drop (column + 1))
  (indent ++ (if span then cell '┬' '─' marked else cell '│' ' ' marked),
    indent ++ cell '╰' '─' marked ++ List.replicate following '─' ++ ' ' :: label.toList)

/-- The lines of a text that a row of a drawing spans, without the blanks
at their ends: the name of a file may hold line ends of its own. -/
def trimmedLines (row : List Char) : List String :=
  (row.splitOn '\n').map fun line => String.ofList (trimEnd line)

/-- A drawing of an error over a text, line by line, without blanks at the
ends of the lines. -/
def draw (e : TypeError) (source filename : String) : List String :=
  let headline := "[" ++ e.fault.code ++ "] Error: " ++ e.message
  let lines := Lines.ofString source
  let chars := source.toList
  let start := min (lines.offset e.pos) lines.size
  let stop := min (start + 1) lines.size
  let rows : List String :=
    if chars.length < start || (start < stop && chars.length < stop - 1) then [headline]
    else
      let line := lineAt start 1 0 (splitLines chars)
      let column := start - line.offset
      let number := toString line.number
      let width := number.length + 2
      let margin := String.ofList (List.replicate width ' ')
      let place := filename ++ ":" ++ number ++ ":" ++ toString (column + 1)
      let body :=
        if line.offset + line.chars.length < stop then [margin ++ "│"]
        else
          let text := trimEnd line.chars
          let shown := " " ++ number ++ " │ " ++ String.ofList (drawn 0 text)
          let (head, tail) := arrow (start < stop) column text e.fault.label
          [shown, margin ++ "│ " ++ String.ofList head, margin ++ "│ " ++ String.ofList tail]
      [headline, margin ++ "╭─[ " ++ place ++ " ]", margin ++ "│"] ++ body
        ++ [String.ofList (List.replicate width '─') ++ "╯"]
  rows.flatMap fun row => trimmedLines row.toList

end ClassLang.Report
