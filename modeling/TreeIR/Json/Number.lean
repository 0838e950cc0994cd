import TreeIR.Decimal.Shortest

/-!
# Numbers of a JSON text

A literal without fraction and exponent that lies between -2^63 and 2^64 - 1 is an exact integer;
any other literal is a binary fraction, and so is `-0`, which keeps its sign.

A fraction is read from a significand of at most 64 bits. Digits are taken up one by one while
the significand fits; of those that no longer fit, the ones before the point still count for the
exponent and the ones after it are dropped. The significand is then scaled by one power of ten. A
literal whose value is beyond the finite range is no number at all, one that is too small is zero.

Fractions are written with the fewest digits that read back, plainly from 10^-5 up to below 10^16
and always with a point, in exponent form with a signed exponent outside that range.
-/

namespace TreeIR

open Decimal (Binary Scientific)

/-- An exact integer, or a binary fraction with its sign. -/
inductive Number where
  | int (value : Int)
  | float (negative : Bool) (magnitude : Binary)
  deriving DecidableEq, Repr

namespace Number

/-- The parts of a number literal. -/
structure Literal where
  negative : Bool
  whole : List Char
  fraction : Option (List Char)
  exponent : Option (Bool × List Char)
  deriving DecidableEq, Repr

/-- The digits that a text begins with, and the rest. -/
def splitDigits (cs : List Char) : List Char × List Char :=
  (cs.takeWhile Char.isDigit, cs.dropWhile Char.isDigit)

/-- The sign of a number, and the rest. -/
def splitSign : List Char → Bool × List Char
  | '-' :: cs => (true, cs)
  | cs => (false, cs)

/-- One digit or more, no zero in front of another digit. -/
def isWhole : List Char → Bool
  | [] => false
  | [_] => true
  | c :: _ => c != '0'

/-- The fraction that a point opens; there must be a digit after the point. -/
def splitFraction : List Char → Option (Option (List Char) × List Char)
  | '.' :: cs =>
    let (digits, rest) := splitDigits cs
    if digits.isEmpty then none else some (some digits, rest)
  | cs => some (none, cs)

/-- The sign of an exponent, where a plus may stand, and the rest. -/
def splitExponentSign : List Char → Bool × List Char
  | '-' :: cs => (true, cs)
  | '+' :: cs => (false, cs)
  | cs => (false, cs)

/-- The exponent that an `e` opens; there must be a digit after the mark and the sign. -/
def splitExponent : List Char → Option (Option (Bool × List Char) × List Char)
  | [] => some (none, [])
  | c :: cs =>
    if c = 'e' ∨ c = 'E' then
      let (negative, cs) := splitExponentSign cs
      let (digits, rest) := splitDigits cs
      if digits.isEmpty then none else some (some (negative, digits), rest)
    else some (none, c :: cs)

/-- Cuts a whole word into the parts of a literal. -/
def Literal.ofChars? (word : List Char) : Option Literal :=
  let (negative, cs) := splitSign word
  let (whole, cs) := splitDigits cs
  if isWhole whole then
    (splitFraction cs).bind fun (fraction, cs) =>
      (splitExponent cs).bind fun (exponent, cs) =>
        if cs.isEmpty then some ⟨negative, whole, fraction, exponent⟩ else none
  else none

def digitValue (c : Char) : Nat :=
  c.toNat - '0'.toNat

/-- The number that digits stand for. -/
def natOfDigits (cs : List Char) : Nat :=
  cs.foldl (fun n c => 10 * n + digitValue c) 0

/-- The largest significand. -/
def maxSignificand : Nat := Nat.pow 2 64 - 1

/-- Takes up digits while the significand fits and returns the digits that are left. -/
def takeUp (significand : Nat) : List Char → Nat × List Char
  | [] => (significand, [])
  | c :: cs =>
    let next := 10 * significand + digitValue c
    if next ≤ maxSignificand then takeUp next cs else (significand, c :: cs)

/-- The smallest integer is `-minMagnitude`. -/
def minMagnitude : Nat := Nat.pow 2 63

/-- The value of a literal, unless it is beyond the finite range. -/
def Literal.value? (l : Literal) : Option Number :=
  let (whole, unread) := takeUp 0 l.whole
  let float (significand : Nat) (e : Int) : Option Number :=
    (Binary.ofScientific? significand e).map (.float l.negative)
  match l.fraction, l.exponent with
  | none, none =>
    if unread.isEmpty then
      if !l.negative then some (.int whole)
      else if whole = 0 ∨ minMagnitude < whole then float whole 0
      else some (.int (-whole))
    else float whole unread.length
  | fraction, exponent =>
    let digits := fraction.getD []
    let (significand, dropped) := takeUp whole digits
    let shift : Int := unread.length - (digits.length - dropped.length : Nat)
    match exponent with
    | none => float significand shift
    | some (false, ds) => float significand (shift + natOfDigits ds)
    | some (true, ds) => float significand (shift - natOfDigits ds)

/-- Reads a whole word as a number. -/
def ofChars? (word : List Char) : Option Number :=
  (Literal.ofChars? word).bind Literal.value?

/-- Where fractions are written plainly: the exponents of their first digit. -/
structure PlainRange where
  low : Int
  high : Int

/-- From 10^-5 up to below 10^16. -/
def plainRange : PlainRange := ⟨-5, 15⟩

def zeros (n : Nat) : String :=
  String.ofList (List.replicate n '0')

/-- A positive decimal with a point and without an exponent. -/
def plainText (digits : List Char) (exponent : Int) : String :=
  if 0 ≤ exponent then String.ofList digits ++ zeros exponent.toNat ++ ".0"
  else
    let places := (-exponent).toNat
    if places < digits.length then
      String.ofList (digits.take (digits.length - places)) ++ "." ++
        String.ofList (digits.drop (digits.length - places))
    else "0." ++ zeros (places - digits.length) ++ String.ofList digits

/-- A positive decimal with one digit before the point; `lead` is that digit's exponent. -/
def exponentText (digits : List Char) (lead : Int) : String :=
  let tail := digits.drop 1
  let point := if tail.isEmpty then "" else "." ++ String.ofList tail
  let sign := if 0 ≤ lead then "e+" else "e-"
  String.ofList (digits.take 1) ++ point ++ sign ++ toString lead.natAbs

/-- The shortest text that is read back as the number. -/
def magnitudeText (x : Binary) : String :=
  if x.isZero then "0.0"
  else
    let d := x.shortest
    let digits := Nat.toDigits 10 d.digits
    let lead := d.exponent + (digits.length - 1 : Nat)
    if plainRange.low ≤ lead ∧ lead ≤ plainRange.high then plainText digits d.exponent
    else exponentText digits lead

def signText (negative : Bool) : String :=
  if negative then "-" else ""

/-- The literal that stands for a number. -/
def text : Number → String
  | .int n => signText (n < 0) ++ toString n.natAbs
  | .float negative x => signText negative ++ magnitudeText x

end Number

end TreeIR
