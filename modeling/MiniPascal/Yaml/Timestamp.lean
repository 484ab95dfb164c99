/-!
# Timestamps

A timestamp is a date of the calendar, written `year-month-day` with four digits for the year. It
can have a time of day behind it: with a zone behind the letter T, without one behind spaces.
-/
namespace MiniPascal.Yaml

namespace Timestamp

def isLeapYear (year : Nat) : Bool :=
  year % 4 = 0 && (year % 100 ≠ 0 || year % 400 = 0)

def daysInMonth (year month : Nat) : Nat :=
  if month = 2 then if isLeapYear year then 29 else 28
  else if month = 4 || month = 6 || month = 9 || month = 11 then 30
  else 31

def digitValue (c : Char) : Nat := c.toNat - '0'.toNat

def number? : List Char → Option (Nat × List Char)
  | c :: d :: rest =>
    if !c.isDigit then none
    else if d.isDigit then some (10 * digitValue c + digitValue d, rest)
    else some (digitValue c, d :: rest)
  | [c] => if c.isDigit then some (digitValue c, []) else none
  | [] => none

def after? (c : Char) : List Char → Option (List Char)
  | d :: rest => if c = d then some rest else none
  | [] => none

def numberBelow? (bound : Nat) (text : List Char) : Option (List Char) := do
  let (n, rest) ← number? text
  if n < bound then some rest else none

def afterDate? (text : List Char) : Option (List Char) := do
  let digits := text.takeWhile Char.isDigit
  if digits.length ≠ 4 then none
  let year := digits.foldl (fun n c => 10 * n + digitValue c) 0
  let (month, rest) ← number? (← after? '-' (text.drop 4))
  let (day, rest) ← number? (← after? '-' rest)
  if 1 ≤ month ∧ month ≤ 12 ∧ 1 ≤ day ∧ day ≤ daysInMonth year month then some rest else none

def afterFraction : List Char → List Char
  | c :: d :: rest =>
    if (c = '.' || c = ',') && d.isDigit then rest.dropWhile Char.isDigit else c :: d :: rest
  | rest => rest

def afterTime? (text : List Char) : Option (List Char) := do
  let rest ← numberBelow? 24 text
  let rest ← numberBelow? 60 (← after? ':' rest)
  let rest ← numberBelow? 60 (← after? ':' rest)
  return afterFraction rest

/-- Whether a text is the distance of a zone: a sign, two digits for the hours and two for the
minutes, or the letter Z for none. -/
def isZone : List Char → Bool
  | ['Z'] => true
  | [sign, a, b, colon, c, d] =>
    (sign = '+' || sign = '-') && colon = ':' && [a, b, c, d].all Char.isDigit &&
      10 * digitValue a + digitValue b ≤ 24 && 10 * digitValue c + digitValue d ≤ 60
  | _ => false

end Timestamp

def isTimestamp (text : List Char) : Bool :=
  match Timestamp.afterDate? text with
  | none => false
  | some [] => true
  | some (c :: rest) =>
    if c = 'T' || c = 't' then (Timestamp.afterTime? rest).any Timestamp.isZone
    else if c = ' ' then (Timestamp.afterTime? (rest.dropWhile (· = ' '))).any List.isEmpty
    else false

end MiniPascal.Yaml
