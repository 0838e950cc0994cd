import TreeIR.Text.Visible

/-!
# Quoted texts

A text that a message quotes stands between double quotes. The quote and the backslash are
escaped, four control characters have a letter of their own, and every other hidden character is
written by its number in hexadecimal, between braces. All else stands as it is.
-/

namespace TreeIR.Text

def hexDigits (n : Nat) : List Char :=
  Nat.toDigits 16 n

/-- A character as it stands between quotes. -/
def quoteChar (c : Char) : List Char :=
  if c = '"' then ['\\', '"']
  else if c = '\\' then ['\\', '\\']
  else if c = '\n' then ['\\', 'n']
  else if c = '\r' then ['\\', 'r']
  else if c = '\t' then ['\\', 't']
  else if c = '\x00' then ['\\', '0']
  else if isHidden c then ['\\', 'u', '\x7b'] ++ hexDigits c.toNat ++ ['\x7d']
  else [c]

/-- A text in quotes, with nothing in it that cannot be seen. -/
def quoted (s : String) : String :=
  "\"" ++ String.ofList (s.toList.flatMap quoteChar) ++ "\""

end TreeIR.Text
