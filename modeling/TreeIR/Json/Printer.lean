import TreeIR.Json.Basic

/-!
# JSON text

Two forms of text for a value: the compact one without blanks, which error messages quote, and
the indented one with two blanks a level and one item a line, which files hold. Inside a string
only the quote, the backslash and the control characters below the blank are escaped.
-/

namespace TreeIR.Json

/-- The lower-case hexadecimal digit of a number below 16. -/
def hexDigit (n : Nat) : Char :=
  n.digitChar

/-- A character as it stands inside a string. -/
def escapeChar (c : Char) : List Char :=
  if c = '"' then ['\\', '"']
  else if c = '\\' then ['\\', '\\']
  else if c = '\x08' then ['\\', 'b']
  else if c = '\x0c' then ['\\', 'f']
  else if c = '\n' then ['\\', 'n']
  else if c = '\r' then ['\\', 'r']
  else if c = '\t' then ['\\', 't']
  else if c.toNat < 0x20 then
    ['\\', 'u', '0', '0', hexDigit (c.toNat / 16), hexDigit (c.toNat % 16)]
  else [c]

/-- A string between quotes. -/
def quote (s : String) : String :=
  "\"" ++ String.ofList (s.toList.flatMap escapeChar) ++ "\""

def boolText (b : Bool) : String :=
  if b then "true" else "false"

mutual

/-- The text without blanks. -/
def compact : Json → String
  | .null => "null"
  | .bool b => boolText b
  | .num n => n.text
  | .str s => quote s
  | .arr items => "[" ++ compactItems items ++ "]"
  | .obj members => "\x7b" ++ compactMembers members ++ "\x7d"

def compactItems : List Json → String
  | [] => ""
  | [v] => v.compact
  | v :: vs => v.compact ++ "," ++ compactItems vs

def compactMembers : List (String × Json) → String
  | [] => ""
  | [(k, v)] => quote k ++ ":" ++ v.compact
  | (k, v) :: ms => quote k ++ ":" ++ v.compact ++ "," ++ compactMembers ms

end

/-- A line break and the blanks of a level. -/
def newline (level : Nat) : String :=
  String.ofList ('\n' :: List.replicate (2 * level) ' ')

mutual

/-- The indented text of a value that starts on a line of this level. -/
def prettyAt (level : Nat) : Json → String
  | .arr [] => "[]"
  | .arr (v :: vs) =>
    "[" ++ prettyItems (level + 1) (v :: vs) ++ newline level ++ "]"
  | .obj [] => "\x7b\x7d"
  | .obj (m :: ms) =>
    "\x7b" ++ prettyMembers (level + 1) (m :: ms) ++ newline level ++ "\x7d"
  | .null => "null"
  | .bool b => boolText b
  | .num n => n.text
  | .str s => quote s

def prettyItems (level : Nat) : List Json → String
  | [] => ""
  | [v] => newline level ++ prettyAt level v
  | v :: vs => newline level ++ prettyAt level v ++ "," ++ prettyItems level vs

def prettyMembers (level : Nat) : List (String × Json) → String
  | [] => ""
  | [(k, v)] => newline level ++ quote k ++ ": " ++ prettyAt level v
  | (k, v) :: ms =>
    newline level ++ quote k ++ ": " ++ prettyAt level v ++ "," ++ prettyMembers level ms

end

/-- The indented text, without a final newline. -/
def pretty (v : Json) : String :=
  prettyAt 0 v

end TreeIR.Json
