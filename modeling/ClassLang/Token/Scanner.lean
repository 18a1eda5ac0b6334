import ClassLang.Text.Blank
import ClassLang.Token.Basic
/-!
# Tokens — the scanner

A `Scanner` stands at a byte offset of a text and yields one token at a
time: it skips blanks and comments (`skip`), then takes the longest
lexeme that starts there (`lexeme`). Nothing stops it: a faulty piece
becomes a token of its own and an error on the side, and the last token
is always the end of the file. `lex` runs it over a whole text.
-/


namespace ClassLang

/-! ## Blanks and comments -/

/-- Where skipping stands. -/
inductive Skipping
  /-- Between tokens. -/
  | code
  /-- In a comment that ends with its line. -/
  | line
  /-- In a comment that began at a byte offset and ends with `*/`. -/
  | block (start : Nat)
deriving DecidableEq, Repr

/-- What is left after the blanks and comments before a token: the text
from `offset` on, and the start of a comment that is never closed. -/
structure Gap where
  offset : Nat
  rest : List Char
  unclosed : Option Nat
deriving DecidableEq, Repr

/-- Skips blanks and comments. -/
def skip : Skipping → Nat → List Char → Gap
  | .code, o, '/' :: '/' :: cs => skip .line (o + 2) cs
  | .code, o, '/' :: '*' :: cs => skip (.block o) (o + 2) cs
  | .code, o, c :: cs =>
    if Text.isBlank c then skip .code (o + c.utf8Size) cs else ⟨o, c :: cs, none⟩
  | .line, o, c :: cs => skip (if c = '\n' then .code else .line) (o + c.utf8Size) cs
  | .block _, o, '*' :: '/' :: cs => skip .code (o + 2) cs
  | .block start, o, c :: cs => skip (.block start) (o + c.utf8Size) cs
  | .block start, o, [] => ⟨o, [], some start⟩
  | _, o, [] => ⟨o, [], none⟩

theorem length_skip_rest_le (m : Skipping) (o : Nat) (cs : List Char) :
    (skip m o cs).rest.length ≤ cs.length := by
  fun_induction skip m o cs <;> simp_all <;> omega

/-- The error for a comment that is never closed: it takes all that is
left. -/
def Gap.error? (g : Gap) : Option LexError :=
  g.unclosed.map fun start => ⟨.unclosedComment, ⟨start, g.offset⟩⟩

/-! ## Lexemes -/

/-- Can the character start an identifier? -/
def isIdentStart (c : Char) : Bool := c.isAlpha || c == '_'

/-- Can the character follow in an identifier? -/
def isIdentRest (c : Char) : Bool := c.isAlphanum || c == '_'

/-- The symbols of one character that start no longer symbol. -/
def Symbol.ofChar? : Char → Option Symbol
  | '(' => some .lparen
  | ')' => some .rparen
  | '[' => some .lbracket
  | ']' => some .rbracket
  | '\x7b' => some .lbrace
  | '\x7d' => some .rbrace
  | ',' => some .comma
  | ';' => some .semicolon
  | '.' => some .dot
  | '+' => some .plus
  | '-' => some .minus
  | '*' => some .star
  | '/' => some .slash
  | '<' => some .less
  | '!' => some .bang
  | _ => none

/-- The kind of a word: a reserved word or an identifier. -/
def Token.Kind.ofWord (word : String) : Token.Kind :=
  match Keyword.ofString? word with
  | some k => .keyword k
  | none => .ident word

/-- A lexeme: its kind, its characters, and the characters after it. -/
structure Lexeme where
  kind : Token.Kind
  text : List Char
  rest : List Char
deriving DecidableEq, Repr

/-- The longest lexeme of `c :: cs`, where `c` is no blank and starts no
comment. -/
def lexeme (c : Char) (cs : List Char) : Lexeme :=
  if c = '=' then
    match cs with
    | '=' :: cs => ⟨.symbol .equals, ['=', '='], cs⟩
    | cs => ⟨.symbol .assign, ['='], cs⟩
  else if c = '&' then
    match cs with
    | '&' :: cs => ⟨.symbol .conj, ['&', '&'], cs⟩
    | cs => ⟨.invalid .loneAmpersand, ['&'], cs⟩
  else if c.isDigit then
    let digits := c :: cs.takeWhile Char.isDigit
    ⟨.integer (String.ofList digits), digits, cs.dropWhile Char.isDigit⟩
  else if isIdentStart c then
    let word := c :: cs.takeWhile isIdentRest
    ⟨.ofWord (String.ofList word), word, cs.dropWhile isIdentRest⟩
  else match Symbol.ofChar? c with
    | some s => ⟨.symbol s, [c], cs⟩
    | none => ⟨.invalid (.unexpected c), [c], cs⟩

/-- A lexeme and what follows it are the text it was taken from. -/
theorem lexeme_append (c : Char) (cs : List Char) :
    (lexeme c cs).text ++ (lexeme c cs).rest = c :: cs := by
  unfold lexeme
  split
  · split <;> simp_all
  split
  · split <;> simp_all
  split
  · simp [List.takeWhile_append_dropWhile]
  split
  · simp [List.takeWhile_append_dropWhile]
  split <;> simp

theorem lexeme_text_ne_nil (c : Char) (cs : List Char) : (lexeme c cs).text ≠ [] := by
  unfold lexeme
  split
  · split <;> simp
  split
  · split <;> simp
  split
  · simp
  split
  · simp
  split <;> simp

theorem length_lexeme_rest_lt (c : Char) (cs : List Char) :
    (lexeme c cs).rest.length < (c :: cs).length := by
  rw [← lexeme_append c cs, List.length_append]
  have := List.length_pos_iff.2 (lexeme_text_ne_nil c cs)
  omega

/-! ## Scanning -/

/-- A scanner: the text that is left and where it starts, whether the end
of the file was yielded, and the errors found so far. -/
structure Scanner where
  rest : List Char
  offset : Nat
  finished : Bool
  errors : List LexError
deriving DecidableEq, Repr

namespace Scanner

/-- A scanner at the start of a text. -/
def ofChars (cs : List Char) : Scanner := ⟨cs, 0, false, []⟩

/-- A scanner at the start of a string. -/
def ofString (s : String) : Scanner := ofChars s.toList

/-- The next token and the scanner behind it, or nothing once the end of
the file was yielded. -/
def next (s : Scanner) : Option (Token × Scanner) :=
  if s.finished then none
  else
    let gap := skip .code s.offset s.rest
    match gap.rest with
    | [] =>
      some (⟨.eof, ⟨gap.offset, gap.offset⟩⟩,
        ⟨[], gap.offset, true, s.errors ++ gap.error?.toList⟩)
    | c :: cs =>
      let l := lexeme c cs
      let t : Token := ⟨l.kind, ⟨gap.offset, gap.offset + byteLength l.text⟩⟩
      some (t, ⟨l.rest, t.span.stop, false, s.errors ++ t.error?.toList⟩)

/-- How much a scanner still has to do. -/
def remaining (s : Scanner) : Nat := if s.finished then 0 else s.rest.length + 1

theorem remaining_lt_of_next {s s' : Scanner} {t : Token} (h : s.next = some (t, s')) :
    s'.remaining < s.remaining := by
  unfold next at h
  split at h
  · cases h
  · rename_i hfin
    have hskip := length_skip_rest_le .code s.offset s.rest
    dsimp only at h
    split at h
    · cases h
      simp [remaining, hfin]
    · rename_i c cs heq
      cases h
      have := length_lexeme_rest_lt c cs
      simp only [remaining, hfin, heq] at hskip ⊢
      simp only [List.length_cons] at *
      simp
      omega

/-- All tokens that are left, and the scanner at the end. -/
def drain (s : Scanner) : List Token × Scanner :=
  match _hnext : s.next with
  | none => ([], s)
  | some (t, s') =>
    let (ts, last) := s'.drain
    (t :: ts, last)
termination_by s.remaining
decreasing_by exact remaining_lt_of_next _hnext

end Scanner

/-- The tokens of a text, the last of them the end of the file, and the
errors on the side. -/
structure Lexed where
  tokens : List Token
  errors : List LexError
deriving DecidableEq, Repr

/-- The tokens and errors of a text. -/
def lex (source : String) : Lexed :=
  let (tokens, last) := (Scanner.ofString source).drain
  ⟨tokens, last.errors⟩

end ClassLang
