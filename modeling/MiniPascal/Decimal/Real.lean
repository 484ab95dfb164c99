import MiniPascal.Decimal.Shortest

/-!
# Texts of reals

A real is written with the shortest digits that read back as the same double. Numbers from 0.0001
up to, and without, 1000000 are written positionally, all others with an exponent of at least two
digits and its sign. Where a text is shown as a value of the language a whole number gets `.0`.

Reading is correctly rounded, halves to even; a text too large for a double reads as an infinity.
-/
namespace MiniPascal

/-- How a real is written where the digits alone do not say it. -/
structure RealStyle where
  infinity : String
  negativeInfinity : String
  notANumber : String
  /-- What follows a whole number that is written positionally. -/
  wholeSuffix : String

namespace RealStyle

def zeros (n : Int) : List Char := List.replicate n.toNat '0'

/-- Digits with a dot after the first `n`, without one if nothing is behind it. -/
def withDot (digits : List Char) (n : Nat) : List Char :=
  if digits.length ≤ n then digits else digits.take n ++ '.' :: digits.drop n

def exponentText (e : Int) : List Char :=
  let digits := Decimal.digits e.natAbs
  (if e < 0 then '-' else '+') :: (zeros (2 - digits.length) ++ digits)

/-- A decimal in positional notation from 0.0001 up to 1000000, else with an exponent. -/
def decimalText (style : RealStyle) (d : Decimal) : String :=
  let digits := Decimal.digits d.significand
  let lead := d.leadingExponent
  if lead < -4 ∨ 6 ≤ lead then
    String.ofList (withDot digits 1 ++ 'e' :: exponentText lead)
  else if lead < 0 then
    String.ofList ('0' :: '.' :: (zeros (-lead - 1) ++ digits))
  else
    let whole := digits ++ zeros d.exponent
    if whole.length ≤ (lead + 1).toNat then String.ofList whole ++ style.wholeSuffix
    else String.ofList (withDot whole (lead + 1).toNat)

def text (style : RealStyle) (x : Float) : String :=
  let bits := x.toBits
  let negative := Nat.pow 2 63 ≤ bits.toNat
  let magnitude := UInt64.ofNat (bits.toNat % Nat.pow 2 63)
  let sign := if negative then "-" else ""
  if 0x7FF0000000000000 < magnitude then style.notANumber
  else if magnitude = 0x7FF0000000000000 then
    if negative then style.negativeInfinity else style.infinity
  else if magnitude = 0 then sign ++ "0" ++ style.wholeSuffix
  else sign ++ style.decimalText (Binary.ofBits magnitude).shortest

end RealStyle

namespace Decimal

def ofDigits (digits : List Char) : Nat :=
  digits.foldl (fun n c => 10 * n + (c.toNat - '0'.toNat)) 0

/-- The double nearest to `digits * 10 ^ exponent`. -/
def round (digits : Nat) (exponent : Int) : Float :=
  if exponent < 0 then Float.ofScientific digits true exponent.natAbs
  else Float.ofScientific digits false exponent.natAbs

def readPlain (text : List Char) : Float :=
  let whole := text.takeWhile Char.isDigit
  let fraction := (text.drop whole.length).drop 1
  round (ofDigits (whole ++ fraction)) (-fraction.length)

def readExponent? : List Char → Option Int
  | '-' :: digits => if digits ≠ [] ∧ digits.all Char.isDigit then some (-ofDigits digits) else none
  | '+' :: digits => if digits ≠ [] ∧ digits.all Char.isDigit then some (ofDigits digits) else none
  | digits => if digits ≠ [] ∧ digits.all Char.isDigit then some (ofDigits digits) else none

/-- Whether each underscore of a text stands between two digits. `behind` says whether a digit is
before the text. -/
def separatorsOk (isDigit : Char → Bool) (behind : Bool) : List Char → Bool
  | [] => true
  | ['_'] => false
  | '_' :: c :: rest => behind && isDigit c && separatorsOk isDigit true rest
  | c :: rest => separatorsOk isDigit (isDigit c) rest

def parts? (isDigit : Char → Bool) (letter : Char) (text : List Char) :
    Option (List Char × List Char × Option Int) := do
  let mantissa := text.takeWhile (· ≠ letter)
  let whole := mantissa.takeWhile isDigit
  let fraction ←
    match mantissa.drop whole.length with
    | [] => some []
    | '.' :: digits => if digits.all isDigit then some digits else none
    | _ => none
  if whole.isEmpty && fraction.isEmpty then none
  match text.drop mantissa.length with
  | [] => some (whole, fraction, none)
  | _ :: digits => some (whole, fraction, some (← readExponent? digits))

def readDecimal? (text : List Char) : Option Float := do
  let (whole, fraction, exponent) ← parts? Char.isDigit 'e' text
  return round (ofDigits (whole ++ fraction)) (exponent.getD 0 - fraction.length)

def isHexDigit (c : Char) : Bool := c.isDigit || ('a' ≤ c && c ≤ 'f')

def ofHexDigits (digits : List Char) : Nat :=
  digits.foldl (fun n c => 16 * n + (if c.isDigit then c.toNat - '0'.toNat else c.toNat - 87)) 0

/-- Farther exponents than this one make no difference. -/
def farthestExponent : Int := 100000

def readHexadecimal? (text : List Char) : Option Float := do
  let (whole, fraction, exponent) ← parts? isHexDigit 'p' text
  let e := max (-farthestExponent) (min farthestExponent (← exponent)) - 4 * fraction.length
  let n := ofHexDigits (whole ++ fraction)
  if e < 0 then return round (n * Nat.pow 5 e.natAbs) e
  else return round (n * Nat.pow 2 e.natAbs) 0

/-- Reads an unsigned number: digits with an optional fraction and an optional exponent, in base
sixteen behind its mark, or the name of infinity. Underscores can separate digits. -/
def readMagnitude? (text : List Char) : Option Float :=
  let lower := text.map Char.toLower
  if lower = "inf".toList ∨ lower = "infinity".toList then some (1.0 / 0.0)
  else
    match lower with
    | '0' :: 'x' :: digits =>
      if separatorsOk isHexDigit true digits then readHexadecimal? (digits.filter (· ≠ '_'))
      else none
    | digits =>
      if separatorsOk Char.isDigit false digits then readDecimal? (digits.filter (· ≠ '_'))
      else none

def read? (text : String) : Option Float :=
  match text.toList with
  | '-' :: rest => (readMagnitude? rest).map fun x => -x
  | '+' :: rest => readMagnitude? rest
  | rest => if rest.map Char.toLower = "nan".toList then some (0.0 / 0.0) else readMagnitude? rest

end Decimal

end MiniPascal
