import MiniPascal.Text.Utf8

/-!
# Bytes written in base 64

Four characters stand for three bytes. The last four can be filled up with equals signs. Line
breaks do not count.
-/
namespace MiniPascal.Text

def base64Digit? (c : Char) : Option Nat :=
  if 'A' ≤ c ∧ c ≤ 'Z' then some (c.toNat - 'A'.toNat)
  else if 'a' ≤ c ∧ c ≤ 'z' then some (c.toNat - 'a'.toNat + 26)
  else if '0' ≤ c ∧ c ≤ '9' then some (c.toNat - '0'.toNat + 52)
  else if c = '+' then some 62
  else if c = '/' then some 63
  else none

def base64Bytes? (a b c d : Char) : Option Bytes := do
  let n := (((← base64Digit? a) * 64 + (← base64Digit? b)) * 64 + (← base64Digit? c)) * 64 +
    (← base64Digit? d)
  return [UInt8.ofNat (n / 65536), UInt8.ofNat (n / 256 % 256), UInt8.ofNat (n % 256)]

def ofBase64Digits? : List Char → Option Bytes
  | [] => some []
  | [a, b, '=', '='] => (base64Bytes? a b 'A' 'A').map (·.take 1)
  | [a, b, c, '='] => (base64Bytes? a b c 'A').map (·.take 2)
  | a :: b :: c :: d :: rest => do
    let bytes ← base64Bytes? a b c d
    return bytes ++ (← ofBase64Digits? rest)
  | _ => none

def ofBase64? (s : String) : Option Bytes :=
  ofBase64Digits? (s.toList.filter fun c => c ≠ '\n' && c ≠ '\r')

end MiniPascal.Text
