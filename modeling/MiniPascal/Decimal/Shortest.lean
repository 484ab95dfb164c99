/-!
# Shortest decimals

A finite double is a natural number times a power of two. The reals that round to it form an
interval, and among the decimals in that interval `Binary.shortest` takes one with the fewest
digits, and of those the nearest. All arithmetic is exact, on natural numbers.
-/
namespace MiniPascal

/-- The positive number `significand * 10 ^ exponent`. -/
structure Decimal where
  significand : Nat
  exponent : Int
  deriving Repr, DecidableEq, Inhabited

namespace Decimal

def digits (n : Nat) : List Char := Nat.toDigits 10 n

def normalize (d : Decimal) : Decimal :=
  let zeros := ((digits d.significand).reverse.takeWhile (· == '0')).length
  { significand := d.significand / Nat.pow 10 zeros, exponent := d.exponent + zeros }

def leadingExponent (d : Decimal) : Int :=
  d.exponent + (digits d.significand).length - 1

end Decimal

/-- The number `significand * 2 ^ exponent`, with the reals that round to it. -/
structure Binary where
  significand : Nat
  exponent : Int
  /-- Whether the next double below is only half as far away as the next one above. -/
  narrowBelow : Bool
  deriving Repr, DecidableEq, Inhabited

namespace Binary

def ofBits (bits : UInt64) : Binary :=
  let fraction := bits.toNat % Nat.pow 2 52
  let field : Nat := bits.toNat / Nat.pow 2 52 % Nat.pow 2 11
  if field = 0 then { significand := fraction, exponent := -1074, narrowBelow := false }
  else
    { significand := Nat.pow 2 52 + fraction, exponent := (field : Int) - 1075,
      narrowBelow := fraction = 0 && 1 < field }

structure Ratio where
  num : Nat
  den : Nat

def scale2 (q : Nat) (e : Int) : Ratio :=
  if 0 ≤ e then ⟨q * Nat.pow 2 e.toNat, 1⟩ else ⟨q, Nat.pow 2 (-e).toNat⟩

def Ratio.over10 (r : Ratio) (e : Int) : Ratio :=
  if 0 ≤ e then ⟨r.num, r.den * Nat.pow 10 e.toNat⟩ else ⟨r.num * Nat.pow 10 (-e).toNat, r.den⟩

def Ratio.leadingExponent (r : Ratio) : Int :=
  let guess : Int := (Decimal.digits r.num).length - (Decimal.digits r.den).length
  let scaled := r.over10 guess
  if scaled.den ≤ scaled.num then guess else guess - 1

/-- Four times the significand: in these units the ends of the interval are whole numbers. -/
def value (b : Binary) : Ratio := scale2 (4 * b.significand) (b.exponent - 2)

def lower (b : Binary) : Ratio :=
  scale2 (4 * b.significand - if b.narrowBelow then 1 else 2) (b.exponent - 2)

def upper (b : Binary) : Ratio := scale2 (4 * b.significand + 2) (b.exponent - 2)

/-- Whether `n * 10 ^ e` rounds to the number. The ends of the interval belong to it when the
significand is even. -/
def admits (b : Binary) (n : Nat) (e : Int) : Bool :=
  let lo := b.lower.over10 e
  let hi := b.upper.over10 e
  if b.significand % 2 = 0 then lo.num ≤ n * lo.den && n * hi.den ≤ hi.num
  else lo.num < n * lo.den && n * hi.den < hi.num

/-- The admitted neighbour on the grid of multiples of `10 ^ e`, the nearer one if both are; a
tie goes to the even one. -/
def onGrid? (b : Binary) (e : Int) : Option Decimal :=
  let v := b.value.over10 e
  let below := v.num / v.den
  let remainder := v.num % v.den
  let pick (n : Nat) : Option Decimal := some { significand := n, exponent := e }
  match b.admits below e, b.admits (below + 1) e with
  | true, false => pick below
  | false, true => pick (below + 1)
  | false, false => none
  | true, true =>
    if 2 * remainder < v.den ∨ (2 * remainder = v.den ∧ below % 2 = 0) then pick below
    else pick (below + 1)

/-- The shortest decimal that rounds to the number. Seventeen digits always suffice. -/
def shortest (b : Binary) : Decimal :=
  let top := b.value.leadingExponent
  let found := (List.range 17).findSome? fun i : Nat => b.onGrid? (top - (i : Int))
  (found.getD { significand := b.significand, exponent := b.exponent }).normalize

end Binary

end MiniPascal
