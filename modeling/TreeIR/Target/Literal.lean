/-!
# Literals of the target language

Numbers keep their text and get the constructor of their type around it. A string is written as a
C++ string literal: the quote, the backslash and three control characters have an escape of their
own, and any other ASCII control character is written as exactly three octal digits, so that a
digit after it cannot be taken as part of the escape.
-/

namespace TreeIR.Target

/-- The last octal digit of a number. -/
def octalDigit (n : Nat) : Char :=
  (n % 8).digitChar

/-- Is the character a control character of ASCII? -/
def isAsciiControl (c : Char) : Bool :=
  c.toNat < 0x20 || c.toNat == 0x7f

/-- A character inside a string literal. -/
def escapeChar (c : Char) : List Char :=
  if c = '\\' then ['\\', '\\']
  else if c = '"' then ['\\', '"']
  else if c = '\n' then ['\\', 'n']
  else if c = '\r' then ['\\', 'r']
  else if c = '\t' then ['\\', 't']
  else if isAsciiControl c then
    ['\\', octalDigit (c.toNat / 64), octalDigit (c.toNat / 8), octalDigit c.toNat]
  else [c]

/-- A text as it stands between the quotes of a string literal. -/
def escape (s : String) : String :=
  String.ofList (s.toList.flatMap escapeChar)

/-- A string, as a value of the library. -/
def stringLiteral (value : String) : String :=
  "String(\"" ++ escape value ++ "\")"

/-- A number, as a value of the library. -/
def numLiteral (text : String) (isFloat : Bool) : String :=
  if isFloat then "Float(" ++ text ++ ")" else "Integer(" ++ text ++ "L)"

end TreeIR.Target
