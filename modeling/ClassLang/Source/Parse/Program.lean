import ClassLang.Source.Parse.Stmt
/-!
# Source — reading programs

A program is read item by item up to the end of the file. The first error
stops the reading; the items completed before it are kept. `parse` reads a
text: an error of the tokens that no item ran into is reported when all
items are read.
-/


namespace ClassLang.Source

/-- Parameters up to the parenthesis that closes them, one at least. -/
def parseParamList (c : Cursor) : Reads (List VarDecl) c.left := do
  let ⟨param, c₁, h₁⟩ ← parseVarDecl c
  match c₁.take? (.symbol .comma) with
  | some ⟨_, c₂, h₂⟩ =>
    let rest ← parseParamList c₂
    return ((rest.map (param :: ·)).behind h₂).behind h₁
  | none =>
    let closed ← c₁.expect (.symbol .rparen)
    return (closed.map fun _ => [param]).behind h₁
termination_by c.left

/-- Parameters between parentheses. -/
def parseParams (c : Cursor) : Reads (List VarDecl) c.left := do
  let ⟨_, c₁, h₁⟩ ← c.expect (.symbol .lparen)
  match c₁.take? (.symbol .rparen) with
  | some closed => return (closed.map fun _ => []).behind h₁
  | none =>
    let params ← parseParamList c₁
    return params.behind h₁

/-- The parameters and the body of a function; `heading` holds its return
type, its identity, its name and its position. -/
def parseFunctionRest (heading : VarDecl) (c : Cursor) : Reads FunctionDecl c.left := do
  let ⟨params, c₁, h₁⟩ ← parseParams c
  let body ← parseBlock c₁
  let f := body.map fun body =>
    (⟨heading.id, heading.ty, heading.name, params, body, heading.pos⟩ : FunctionDecl)
  return f.behind h₁

/-- A function. -/
def parseFunction (c : Cursor) : Reads FunctionDecl c.left := do
  let ⟨heading, c₁, h₁⟩ ← parseVarDecl c
  let f ← parseFunctionRest heading c₁
  return f.behind h₁

/-- A field or a method of a class. -/
inductive Member
  | field (decl : VarDecl)
  | method (decl : FunctionDecl)

/-- The field that a member is. -/
def Member.field? : Member → Option VarDecl
  | field decl => some decl
  | method _ => none

/-- The method that a member is. -/
def Member.method? : Member → Option FunctionDecl
  | field _ => none
  | method decl => some decl

/-- A member: a parameter list makes it a method, a semicolon a field. -/
def parseMember (c : Cursor) : Reads Member c.left := do
  let ⟨heading, c₁, h₁⟩ ← parseVarDecl c
  if c₁.kind = .symbol .lparen then
    let f ← parseFunctionRest heading c₁
    return (f.map .method).behind h₁
  else
    let closed ← c₁.expect (.symbol .semicolon)
    return (closed.map fun _ => .field heading).behind h₁

/-- Members and the brace that closes the class. -/
def parseMembers (c : Cursor) : Reads (List Member) c.left :=
  match c.take? (.symbol .rbrace) with
  | some closed => return closed.map fun _ => []
  | none =>
    if c.kind = .eof then .error (c.expected .classEnd)
    else do
      let ⟨m, c₁, h₁⟩ ← parseMember c
      let rest ← parseMembers c₁
      return (rest.map (m :: ·)).behind h₁
termination_by c.left

/-- The name of a superclass, if one is given. -/
def parseExtends (c : Cursor) : Reads (Option String) (c.left + 1) :=
  match c.take? (.keyword .extends_) with
  | some ⟨_, c₁, h₁⟩ => do
    let name ← c₁.ident
    return ((name.map fun (name, _) => some name).behind h₁).relax
  | none => return c.stay none

/-- A class. -/
def parseClass (c : Cursor) : Reads ClassDecl c.left := do
  let ⟨_, c₁, h₁⟩ ← c.expect (.keyword .class_)
  let ⟨id, c₂, h₂⟩ := c₁.fresh
  let ⟨(name, pos), c₃, h₃⟩ ← c₂.ident
  let ⟨extends?, c₄, h₄⟩ ← parseExtends c₃
  let ⟨_, c₅, h₅⟩ ← c₄.expect (.symbol .lbrace)
  let members ← parseMembers c₅
  let decl := members.map fun ms =>
    (⟨id, name, extends?, ms.filterMap Member.field?, ms.filterMap Member.method?, pos⟩ : ClassDecl)
  return ((((decl.behind h₅).behind h₄).within h₃).behind h₂).within h₁

/-- A function or a class. -/
inductive Item
  | function (decl : FunctionDecl)
  | class_ (decl : ClassDecl)

/-- The function that an item is. -/
def Item.function? : Item → Option FunctionDecl
  | function decl => some decl
  | class_ _ => none

/-- The class that an item is. -/
def Item.class? : Item → Option ClassDecl
  | function _ => none
  | class_ decl => some decl

/-- A function or a class. -/
def parseItem (c : Cursor) : Reads Item c.left := do
  if c.kind = .keyword .class_ then
    let decl ← parseClass c
    return decl.map .class_
  else
    let decl ← parseFunction c
    return decl.map .function

/-- The items up to the end of the file or up to the first error. -/
def parseItems (c : Cursor) : List Item × Option ParseError :=
  if c.kind = .eof then ([], none)
  else
    match parseItem c with
    | .error e => ([], some e)
    | .ok ⟨item, c₁, _⟩ =>
      let (items, error?) := parseItems c₁
      (item :: items, error?)
termination_by c.left

/-- The program of a list of items. -/
def Program.ofItems (items : List Item) (pos : Option Pos) : Program :=
  ⟨items.filterMap Item.function?, items.filterMap Item.class?, pos⟩

/-- A program as far as it was read, and the error that stopped the
reading. -/
structure Parsed where
  program : Program
  error? : Option ParseError

/-- The error that an error of the tokens stands for. -/
def ParseError.ofLexError (lines : Lines) (e : LexError) : ParseError :=
  ⟨.lexical e.fault, e.span, lines.pos e.span.start⟩

/-- Reads the program of a text. -/
def parse (source : String) : Parsed :=
  let lexed := lex source
  let lines := Lines.ofString source
  let c : Cursor := ⟨locate lines lexed.tokens, 0⟩
  let (items, error?) := parseItems c
  ⟨.ofItems items c.pos,
    error? <|> lexed.errors.head?.map (ParseError.ofLexError lines)⟩

/-- The program of a text, or the error that it is none. -/
def Parsed.toExcept (p : Parsed) : Except ParseError Program :=
  match p.error? with
  | some e => .error e
  | none => .ok p.program

end ClassLang.Source
