import TreeIR.Json.Basic

/-!
# Tokens of a JSON text

A text is scanned one character at a time. Between tokens the scanner skips blanks; a quote opens
a string; a bracket, a comma or a colon is a token by itself; any other character opens a bare
word, which runs up to the next blank, quote or punctuation and has to be one of the three names
or a number. Two tokens that stand next to each other without a blank are told apart here and
refused by the grammar, so the scanner needs no rule for them.

Inside a string the escapes are those of the standard. Characters outside the basic plane are
written as two escapes, a high and a low surrogate; neither may stand alone. Control characters
below the blank must be escaped.
-/

namespace TreeIR.Json

/-- A token of a document. Names of members are strings here. -/
inductive Token where
  | openArr
  | closeArr
  | openObj
  | closeObj
  | comma
  | colon
  | null
  | bool (value : Bool)
  | num (value : Number)
  | str (value : String)
  deriving DecidableEq, Repr

/-- Space, tab, line feed and carriage return. -/
def isBlank (c : Char) : Bool :=
  c == ' ' || c == '\t' || c == '\n' || c == '\r'

/-- The token that a character is by itself. -/
def punctuation? (c : Char) : Option Token :=
  if c = '[' then some .openArr
  else if c = ']' then some .closeArr
  else if c = '\x7b' then some .openObj
  else if c = '\x7d' then some .closeObj
  else if c = ',' then some .comma
  else if c = ':' then some .colon
  else none

/-- The token that a bare word stands for. -/
def word? (cs : List Char) : Option Token :=
  if cs = ['n', 'u', 'l', 'l'] then some .null
  else if cs = ['t', 'r', 'u', 'e'] then some (.bool true)
  else if cs = ['f', 'a', 'l', 's', 'e'] then some (.bool false)
  else (Number.ofChars? cs).map .num

/-- The value of a hexadecimal digit, in either case. -/
def hexValue? (c : Char) : Option Nat :=
  if '0' ≤ c ∧ c ≤ '9' then some (c.toNat - '0'.toNat)
  else if 'a' ≤ c ∧ c ≤ 'f' then some (c.toNat - 'a'.toNat + 10)
  else if 'A' ≤ c ∧ c ≤ 'F' then some (c.toNat - 'A'.toNat + 10)
  else none

/-- The character of a one-letter escape. -/
def unescape? (c : Char) : Option Char :=
  if c = '"' ∨ c = '\\' ∨ c = '/' then some c
  else if c = 'b' then some '\x08'
  else if c = 'f' then some '\x0c'
  else if c = 'n' then some '\n'
  else if c = 'r' then some '\r'
  else if c = 't' then some '\t'
  else none

/-- Is the unit the first half of a surrogate pair? -/
def isHigh (unit : Nat) : Bool :=
  0xD800 ≤ unit && unit < 0xDC00

/-- Is the unit the second half of a surrogate pair? -/
def isLow (unit : Nat) : Bool :=
  0xDC00 ≤ unit && unit < 0xE000

/-- The character that two surrogates make together. -/
def ofSurrogates (high low : Nat) : Char :=
  Char.ofNat (0x10000 + (high - 0xD800) * 0x400 + (low - 0xDC00))

/-- Where the scanner is; texts are kept with their last character first. -/
inductive Scan where
  | between
  | word (seen : List Char)
  | string (seen : List Char)
  | escape (seen : List Char)
  /-- Inside a four-digit escape, after the high surrogate `high` if there is one. -/
  | unit (seen : List Char) (high : Option Nat) (digits : Nat) (value : Nat)
  /-- A high surrogate asks for a backslash. -/
  | lowEscape (seen : List Char) (high : Nat)
  /-- A high surrogate and a backslash ask for a `u`. -/
  | lowUnit (seen : List Char) (high : Nat)

/-- One character between tokens: the tokens that it completes and what it opens. -/
def scanBetween (c : Char) : List Token × Scan :=
  if isBlank c then ([], .between)
  else if c = '"' then ([], .string [])
  else
    match punctuation? c with
    | some t => ([t], .between)
    | none => ([], .word [c])

/-- Does this character end a bare word? -/
def endsWord (c : Char) : Bool :=
  isBlank c || c == '"' || (punctuation? c).isSome

/-- What a complete four-digit escape means. -/
def scanUnit (seen : List Char) (high : Option Nat) (unit : Nat) : Option Scan :=
  match high with
  | none =>
    if isHigh unit then some (.lowEscape seen unit)
    else if isLow unit then none
    else some (.string (Char.ofNat unit :: seen))
  | some h => if isLow unit then some (.string (ofSurrogates h unit :: seen)) else none

/-- One character of the text: the tokens that it completes and the next state. -/
def scanChar (c : Char) : Scan → Option (List Token × Scan)
  | .between => some (scanBetween c)
  | .word seen =>
    if endsWord c then
      (word? seen.reverse).map fun t =>
        let (ts, next) := scanBetween c
        (t :: ts, next)
    else some ([], .word (c :: seen))
  | .string seen =>
    if c = '"' then some ([.str (String.ofList seen.reverse)], .between)
    else if c = '\\' then some ([], .escape seen)
    else if c.toNat < 0x20 then none
    else some ([], .string (c :: seen))
  | .escape seen =>
    if c = 'u' then some ([], .unit seen none 0 0)
    else (unescape? c).map fun d => ([], .string (d :: seen))
  | .unit seen high digits value =>
    (hexValue? c).bind fun h =>
      let value := 16 * value + h
      if digits < 3 then some ([], .unit seen high (digits + 1) value)
      else (scanUnit seen high value).map ([], ·)
  | .lowEscape seen high => if c = '\\' then some ([], .lowUnit seen high) else none
  | .lowUnit seen high => if c = 'u' then some ([], .unit seen (some high) 0 0) else none

/-- A scan under way: the complete tokens, last one first, and where the scanner is. -/
structure Scanned where
  tokens : List Token
  scan : Scan

def Scanned.start : Scanned := ⟨[], .between⟩

/-- Scans one more character, if it may stand there. -/
def Scanned.step (s : Scanned) (c : Char) : Option Scanned :=
  (scanChar c s.scan).map fun (ts, next) => ⟨ts.reverse ++ s.tokens, next⟩

/-- The tokens of a text that ends here: a bare word is completed, a string is not. -/
def Scanned.finish (s : Scanned) : Option (List Token) :=
  match s.scan with
  | .between => some s.tokens.reverse
  | .word seen => (word? seen.reverse).map fun t => (t :: s.tokens).reverse
  | _ => none

/-- The tokens of a text. -/
def tokens? (text : String) : Option (List Token) :=
  (text.toList.foldlM Scanned.step .start).bind Scanned.finish

end TreeIR.Json
