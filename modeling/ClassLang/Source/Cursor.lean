import ClassLang.Text.Lines
import ClassLang.Token.Scanner
import ClassLang.Source.Tree
/-!
# Source — a cursor over tokens

Trees are read from a `Cursor`: the tokens that are left, each with its
position, and the next free node identity. A routine that succeeds yields
a `Step`: its value, the cursor behind what it read, and the proof that
fewer tokens are left. `Step.behind` and `Step.within` put a step behind
others and carry that proof along. What goes wrong is a `ParseError`,
which names its cause and the first token that cannot be read.
-/


namespace ClassLang.Source

/-! ## Errors -/

/-- What a message says was expected. -/
inductive Expected
  | token (kind : Token.Kind)
  | identifier
  | type
  | expression
  /-- The brace that closes a class body. -/
  | classEnd
  /-- The brace that closes a block. -/
  | blockEnd
deriving DecidableEq, Repr

/-- How a message names what was expected. -/
def Expected.describe : Expected → String
  | token kind => kind.describe
  | identifier => "identifier"
  | type => "a type"
  | expression => "an expression"
  | classEnd => "`\x7d` to close the class body"
  | blockEnd => "`\x7d` to close the block"

/-- Why a text is no program. -/
inductive ParseCause
  | expected (what : Expected) (found : Token.Kind)
  /-- An integer literal that no 32-bit integer equals. -/
  | literalOutOfRange (digits : String)
  /-- An assignment to something that is no place. -/
  | notAssignable
  | lexical (fault : LexFault)
deriving DecidableEq, Repr

/-- The wording of a cause. -/
def ParseCause.message : ParseCause → String
  | expected what found => "expected " ++ what.describe ++ ", found " ++ found.describe
  | literalOutOfRange digits => "integer literal " ++ digits ++ " is out of range"
  | notAssignable =>
    "left-hand side of an assignment must be a variable, field or array element"
  | lexical fault => fault.message

/-- Why a text is no program, and where. -/
structure ParseError where
  cause : ParseCause
  span : Span
  pos : Pos
deriving DecidableEq, Repr

/-- The wording of an error without its place. -/
def ParseError.message (e : ParseError) : String := e.cause.message

/-- An error as one line: its position and its wording. -/
def ParseError.text (e : ParseError) : String := e.pos.text ++ ": " ++ e.message

/-! ## Cursors -/

/-- A token and the position of its first byte. -/
structure Located where
  token : Token
  pos : Pos
deriving DecidableEq, Repr

/-- The kind of a located token. -/
abbrev Located.kind (t : Located) : Token.Kind := t.token.kind

/-- The tokens of a text with their positions. -/
def locate (lines : Lines) (tokens : List Token) : List Located :=
  tokens.map fun t => ⟨t, lines.pos t.span.start⟩

/-- The tokens that are left to read, and the next free node identity. -/
structure Cursor where
  tokens : List Located
  next : NodeId
deriving DecidableEq, Repr

/-- How many tokens are left. -/
def Cursor.left (c : Cursor) : Nat := c.tokens.length

/-- A value read, and a cursor behind it with fewer than `n` tokens left. -/
structure Step (α : Type) (n : Nat) where
  value : α
  cursor : Cursor
  lt : cursor.left < n

/-- What a reading routine yields: an error, or a value and a cursor with
fewer than `n` tokens left. -/
abbrev Reads (α : Type) (n : Nat) := Except ParseError (Step α n)

namespace Step

variable {α β : Type} {m n : Nat}

/-- The step with another value. -/
def map (f : α → β) (s : Step α n) : Step β n := ⟨f s.value, s.cursor, s.lt⟩

/-- The step with a node for its value; the node takes its identity when
all else is read. -/
def node (f : NodeId → α → β) (s : Step α n) : Step β n :=
  ⟨f s.cursor.next s.value, ⟨s.cursor.tokens, s.cursor.next + 1⟩, s.lt⟩

/-- A step after others, which left `m` of fewer than `n` tokens. -/
def behind (h : m < n) (s : Step α m) : Step α n := ⟨s.value, s.cursor, Nat.lt_trans s.lt h⟩

/-- A step after others, which left `m` of fewer than `n` tokens; it may
take none itself. -/
def within (h : m < n) (s : Step α (m + 1)) : Step α n :=
  ⟨s.value, s.cursor, Nat.lt_of_le_of_lt (Nat.le_of_lt_succ s.lt) h⟩

/-- A step where one that takes nothing is good enough. -/
def relax (s : Step α n) : Step α (n + 1) := ⟨s.value, s.cursor, Nat.lt_succ_of_lt s.lt⟩

end Step

namespace Cursor

/-- The kind of the next token. -/
def kind (c : Cursor) : Token.Kind :=
  match c.tokens with
  | t :: _ => t.kind
  | [] => .eof

/-- The kind of the token after the next. -/
def kind₁ (c : Cursor) : Token.Kind := kind ⟨c.tokens.drop 1, c.next⟩

/-- The kind of the second token after the next. -/
def kind₂ (c : Cursor) : Token.Kind := kind ⟨c.tokens.drop 2, c.next⟩

/-- The position of the next token. -/
def pos (c : Cursor) : Pos :=
  match c.tokens with
  | t :: _ => t.pos
  | [] => .origin

/-- A value that takes no token. -/
def stay {α : Type} (c : Cursor) (a : α) : Step α (c.left + 1) := ⟨a, c, Nat.lt_succ_self _⟩

/-- A node identity that was not given before. It takes no token. -/
def fresh (c : Cursor) : Step NodeId (c.left + 1) := (c.stay ()).node fun id _ => id

/-- An error at the next token. A token that is faulty by itself says what
is wrong with it; otherwise the cause is `cause`. -/
def fail (c : Cursor) (cause : ParseCause) : ParseError :=
  match c.tokens with
  | ⟨⟨.invalid fault, span⟩, pos⟩ :: _ => ⟨.lexical fault, span, pos⟩
  | ⟨⟨_, span⟩, pos⟩ :: _ => ⟨cause, span, pos⟩
  | [] => ⟨cause, ⟨0, 0⟩, .origin⟩

/-- The error that something else was expected here. -/
def expected (c : Cursor) (what : Expected) : ParseError :=
  c.fail (.expected what c.kind)

/-- The next token, whatever it is. -/
def take (c : Cursor) : Option (Step Located c.left) :=
  match c with
  | ⟨t :: rest, next⟩ => some ⟨t, ⟨rest, next⟩, Nat.lt_succ_self _⟩
  | ⟨[], _⟩ => none

/-- The position of the next token, if it is of the kind. -/
def take? (kind : Token.Kind) (c : Cursor) : Option (Step Pos c.left) :=
  match c.take with
  | some s => if s.value.kind = kind then some (s.map (·.pos)) else none
  | none => none

/-- What `f` makes of the next token, if it makes anything of it, and the
position of the token. -/
def takeSome? {α : Type} (f : Token.Kind → Option α) (c : Cursor) :
    Option (Step (α × Pos) c.left) :=
  match c.take with
  | some s => (f s.value.kind).map fun a => s.map fun t => (a, t.pos)
  | none => none

/-- The next token, which has to be of the kind; its position. -/
def expect (kind : Token.Kind) (c : Cursor) : Reads Pos c.left :=
  match c.take? kind with
  | some step => .ok step
  | none => .error (c.expected (.token kind))

/-- The next token, which has to be an identifier; its text and position. -/
def ident (c : Cursor) : Reads (String × Pos) c.left :=
  match c with
  | ⟨⟨⟨.ident name, _⟩, pos⟩ :: rest, next⟩ => .ok ⟨(name, pos), ⟨rest, next⟩, Nat.lt_succ_self _⟩
  | c => .error (c.expected .identifier)

/-- An identifier and the parenthesis that opens right behind it. -/
def takeCallee? (c : Cursor) : Option (Step String c.left) :=
  match c with
  | ⟨⟨⟨.ident name, _⟩, _⟩ :: ⟨⟨.symbol .lparen, _⟩, _⟩ :: rest, next⟩ =>
    some ⟨name, ⟨rest, next⟩, by simp only [left, List.length_cons]; omega⟩
  | _ => none

end Cursor

end ClassLang.Source
