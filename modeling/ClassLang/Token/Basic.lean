import ClassLang.Text.Quoted
import ClassLang.Text.Span
/-!
# Tokens — kinds, faults and their wording

A token is a keyword, a symbol, an integer literal, an identifier, a piece
of text that belongs to no token, or the end of the file. Literals and
identifiers carry their text, a faulty piece carries what is wrong with
it. `Keyword.ofString?` is the inverse of `Keyword.spelling`.
-/


namespace ClassLang

/-- The reserved words. -/
inductive Keyword
  | boolean
  | class_
  | else_
  | extends_
  | false_
  | if_
  | int
  | new
  | null
  | return_
  | this
  | true_
  | while_
deriving DecidableEq, Repr

namespace Keyword

/-- The reserved words in alphabetical order. -/
def all : List Keyword :=
  [boolean, class_, else_, extends_, false_, if_, int, new, null, return_, this, true_, while_]

/-- How a reserved word is written. -/
def spelling : Keyword → String
  | boolean => "boolean"
  | class_ => "class"
  | else_ => "else"
  | extends_ => "extends"
  | false_ => "false"
  | if_ => "if"
  | int => "int"
  | new => "new"
  | null => "null"
  | return_ => "return"
  | this => "this"
  | true_ => "true"
  | while_ => "while"

/-- The reserved word that a word spells, if it spells one. -/
def ofString? (s : String) : Option Keyword := all.find? fun k => k.spelling == s

theorem spelling_of_ofString? {s : String} {k : Keyword} (h : ofString? s = some k) :
    k.spelling = s := by
  simpa using List.find?_some h

theorem ofString?_spelling (k : Keyword) : ofString? k.spelling = some k := by
  cases k <;> decide

end Keyword

/-- Operators and delimiters. -/
inductive Symbol
  | plus
  | minus
  | star
  | slash
  | less
  | equals
  | assign
  | conj
  | bang
  | lparen
  | rparen
  | lbracket
  | rbracket
  | lbrace
  | rbrace
  | comma
  | semicolon
  | dot
deriving DecidableEq, Repr

/-- How a symbol is written. -/
def Symbol.spelling : Symbol → String
  | plus => "+"
  | minus => "-"
  | star => "*"
  | slash => "/"
  | less => "<"
  | equals => "=="
  | assign => "="
  | conj => "&&"
  | bang => "!"
  | lparen => "("
  | rparen => ")"
  | lbracket => "["
  | rbracket => "]"
  | lbrace => "\x7b"
  | rbrace => "\x7d"
  | comma => ","
  | semicolon => ";"
  | dot => "."

/-- What makes a text no sequence of tokens. -/
inductive LexFault
  /-- A character that starts no token. -/
  | unexpected (c : Char)
  /-- A block comment that runs to the end of the text. -/
  | unclosedComment
  /-- One `&`, where only `&&` is a symbol. -/
  | loneAmpersand
deriving DecidableEq, Repr

/-- The wording of a fault. -/
def LexFault.message : LexFault → String
  | unexpected c => "unexpected character: " ++ Text.quotedChar c
  | unclosedComment => "unterminated block comment"
  | loneAmpersand => "expected `&&`, found a single `&`"

/-- A fault and the bytes it concerns. -/
structure LexError where
  fault : LexFault
  span : Span
deriving DecidableEq, Repr

namespace Token

/-- What a token is. -/
inductive Kind
  | keyword (k : Keyword)
  | symbol (s : Symbol)
  | integer (digits : String)
  | ident (name : String)
  | invalid (fault : LexFault)
  | eof
deriving DecidableEq, Repr

/-- How messages name a token of this kind. -/
def Kind.describe : Kind → String
  | keyword k => "`" ++ k.spelling ++ "`"
  | symbol s => "`" ++ s.spelling ++ "`"
  | integer _ => "integer literal"
  | ident _ => "identifier"
  | invalid _ => "invalid input"
  | eof => "end of file"

end Token

/-- A token and the bytes it takes. -/
structure Token where
  kind : Token.Kind
  span : Span
deriving DecidableEq, Repr

/-- The error that a faulty piece of text stands for. -/
def Token.error? (t : Token) : Option LexError :=
  match t.kind with
  | .invalid fault => some ⟨fault, t.span⟩
  | _ => none

end ClassLang
