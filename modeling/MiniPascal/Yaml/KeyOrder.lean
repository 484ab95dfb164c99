import MiniPascal.Text.Letter

/-!
# The natural order of keys

Keys are compared character by character up to the first difference. There two letters compare by
their code points. A character that is no letter comes before a letter, except behind equal digits,
where the letter comes first. Otherwise the numbers that start there are compared, then their
lengths, then the characters. A key comes before its continuations.
-/
namespace MiniPascal.Yaml

/-- The number that a run of digits spells, in 64-bit arithmetic that wraps around, after a number
to start from. -/
def runValue (start : Int64) (digits : List Char) : Int64 :=
  digits.foldl (fun n c => n * 10 + Int64.ofInt (c.toNat - '0'.toNat : Int)) start

/-- Compares two keys from their first difference on. `before` is the equal part, reversed. -/
def differenceLess (before : List Char) (a : Char) (as : List Char) (b : Char) (bs : List Char) :
    Bool :=
  let equalDigits := before.takeWhile Text.isDecimalDigit
  match Text.isLetter a, Text.isLetter b with
  | true, true => a < b
  | true, false => !equalDigits.isEmpty
  | false, true => equalDigits.isEmpty
  | false, false =>
    let start : Int64 :=
      if (a = '0' || b = '0') && equalDigits.any (· ≠ '0') then 1 else 0
    let runA := (a :: as).takeWhile Text.isDecimalDigit
    let runB := (b :: bs).takeWhile Text.isDecimalDigit
    let m := runValue start runA
    let n := runValue start runB
    if m ≠ n then m < n
    else if runA.length ≠ runB.length then runA.length < runB.length
    else a < b

/-- Whether a key comes before another one; `before` is what both start with, reversed. -/
def keyLessFrom (before : List Char) : List Char → List Char → Bool
  | a :: as, b :: bs =>
    if a = b then keyLessFrom (a :: before) as bs else differenceLess before a as b bs
  | [], _ :: _ => true
  | _, [] => false

def keyLess (a b : String) : Bool := keyLessFrom [] a.toList b.toList

def sortByKey {α : Type} (entries : List (String × α)) : List (String × α) :=
  entries.mergeSort fun x y => !keyLess y.1 x.1

end MiniPascal.Yaml
