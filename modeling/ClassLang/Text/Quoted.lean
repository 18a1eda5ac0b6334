import ClassLang.Text.Printable
/-!
# Text — quoted characters and strings

Messages quote characters between `'` and strings between `"`. Inside,
the quote in use, the backslash, NUL, tab, newline and carriage return
have escapes of two characters; whatever else has no shape is written as
its code point in hexadecimal.
-/


namespace ClassLang.Text

/-- The escape for a character without a shape: `\u`, then its code point
in lower-case hexadecimal between braces. -/
def codePointEscape (c : Char) : List Char :=
  ['\\', 'u', '\x7b'] ++ Nat.toDigits 16 c.toNat ++ ['\x7d']

/-- A character as it stands between two of the quotes `quote`. -/
def escape (quote c : Char) : List Char :=
  if c = quote then ['\\', quote]
  else match c with
    | '\x00' => ['\\', '0']
    | '\t' => ['\\', 't']
    | '\n' => ['\\', 'n']
    | '\r' => ['\\', 'r']
    | '\\' => ['\\', '\\']
    | c => if isPrintable c then [c] else codePointEscape c

/-- A character between single quotes. -/
def quotedChar (c : Char) : String :=
  String.ofList ('\'' :: escape '\'' c ++ ['\''])

/-- A string between double quotes. -/
def quotedString (s : String) : String :=
  String.ofList ('"' :: s.toList.flatMap (escape '"') ++ ['"'])

end ClassLang.Text
