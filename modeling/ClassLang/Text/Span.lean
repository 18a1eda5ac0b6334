/-!
# Text — spans and positions

A `Span` is a half-open range of byte offsets into a source text, a `Pos`
a line and a column counted from one. Tokens carry spans; tree nodes and
diagnostics carry positions.
-/


namespace ClassLang

/-- The bytes from `start` up to `stop`, the latter excluded. -/
structure Span where
  start : Nat
  stop : Nat
deriving DecidableEq, Repr, Inhabited

/-- How many bytes a span covers. -/
def Span.length (s : Span) : Nat := s.stop - s.start

/-- A span that covers nothing. -/
def Span.isEmpty (s : Span) : Bool := s.start == s.stop

/-- A line and a column, both counted from one; columns count bytes. -/
structure Pos where
  line : Nat
  column : Nat
deriving DecidableEq, Repr, Inhabited

/-- A position is written `line:column`. -/
def Pos.text (p : Pos) : String := s!"{p.line}:{p.column}"

/-- The first character of a text. -/
def Pos.origin : Pos := ⟨1, 1⟩

/-- How many bytes characters take in UTF-8. -/
def byteLength : List Char → Nat
  | [] => 0
  | c :: cs => c.utf8Size + byteLength cs

@[simp] theorem byteLength_nil : byteLength [] = 0 := rfl

@[simp] theorem byteLength_cons (c : Char) (cs : List Char) :
    byteLength (c :: cs) = c.utf8Size + byteLength cs := rfl

@[simp] theorem byteLength_append (cs ds : List Char) :
    byteLength (cs ++ ds) = byteLength cs + byteLength ds := by
  induction cs with
  | nil => simp
  | cons c cs ih => simp [ih, Nat.add_assoc]

end ClassLang
