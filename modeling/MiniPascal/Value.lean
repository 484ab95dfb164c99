import MiniPascal.Decimal.Real
import MiniPascal.Diagnostic

/-!
# Values

A value is an integer of 64 bits or a real. Integer arithmetic is done on words, which wrap, and
checked afterwards: an operation whose result does not fit in 64 bits is an error, and so is a
division by zero. An operation with a real operand widens both operands. `DIV` takes integers only
and drops the fraction; `/` always gives a real.
-/
namespace MiniPascal

inductive Value
  | int (n : Int64)
  | real (x : Float)
  deriving Repr, DecidableEq, Inhabited

namespace Value

/-- Reals are shown with a dot or an exponent, so that they differ from integers. -/
def style : RealStyle :=
  { infinity := "+Inf", negativeInfinity := "-Inf", notANumber := "NaN", wholeSuffix := ".0" }

def text : Value → String
  | int n => toString n.toInt
  | real x => style.text x

def widen : Value → Float
  | int n => Float.ofInt n.toInt
  | real x => x

def isZero (v : Value) : Bool := v.widen == 0

def type : Value → Kind
  | int _ => .integerWord
  | real _ => .realWord

def least : Int := -9223372036854775808

def greatest : Int := 9223372036854775807

def fits (n : Int) : Bool := least ≤ n && n ≤ greatest

def ofInt? (n : Int) : Option Value :=
  if fits n then some (int (Int64.ofInt n)) else none

/-- Why an operation can fail: for a cause that a program can have, or because the operator is
none. -/
inductive OperationError
  | cause (c : Cause)
  | unknownOperator (op : Kind)
  deriving Repr, DecidableEq

def sum? (a b : Int64) : Option Int64 :=
  let sum := a + b
  if (0 < a ∧ 0 < b ∧ sum < 0) ∨ (a < 0 ∧ b < 0 ∧ 0 ≤ sum) then none else some sum

def difference? (a b : Int64) : Option Int64 :=
  let difference := a - b
  if (0 ≤ a ∧ b < 0 ∧ difference < 0) ∨ (a < 0 ∧ 0 < b ∧ 0 ≤ difference) then none
  else some difference

/-- The product of two words, unless dividing by a factor does not give the other one. The division
wraps as well, which hides the two products of -1 with the least integer. -/
def product? (a b : Int64) : Option Int64 :=
  let product := a * b
  if a ≠ 0 ∧ b ≠ 0 ∧ (product / b ≠ a ∨ (a = -1 ∧ b = Int64.minValue) ∨
      (b = -1 ∧ a = Int64.minValue)) then none
  else some product

/-- The quotient of two words, unless it is the one that wraps. -/
def quotient? (a b : Int64) : Option Int64 :=
  if a = Int64.minValue ∧ b = -1 then none else some (a / b)

def opposite? (n : Int64) : Option Int64 :=
  if n = Int64.minValue then none else some (-n)

def checked (left : Int64) (op : Kind) (right : Int64) (result : Option Int64) :
    Except OperationError Value :=
  match result with
  | some n => .ok (int n)
  | none => .error (.cause (.overflow (int left).text op (int right).text))

def binary (op : Kind) (left right : Value) : Except OperationError Value :=
  match op, left, right with
  | .plus, int a, int b => checked a op b (sum? a b)
  | .plus, _, _ => .ok (real (left.widen + right.widen))
  | .minus, int a, int b => checked a op b (difference? a b)
  | .minus, _, _ => .ok (real (left.widen - right.widen))
  | .star, int a, int b => checked a op b (product? a b)
  | .star, _, _ => .ok (real (left.widen * right.widen))
  | .divWord, int a, int b =>
    if b = 0 then .error (.cause .divisionByZero)
    else checked a op b (quotient? a b)
  | .divWord, _, _ => .error (.cause (.divisionOperands left.type right.type))
  | .slash, _, _ =>
    if right.isZero then .error (.cause .divisionByZero)
    else .ok (real (left.widen / right.widen))
  | _, _, _ => .error (.unknownOperator op)

def negate : Value → Except OperationError Value
  | real x => .ok (real (-x))
  | int n =>
    match opposite? n with
    | some opposite => .ok (int opposite)
    | none => .error (.cause (.negationOverflow (int n).text))

/-- Applies a sign; only the minus sign changes a value. -/
def unary (op : Kind) (operand : Value) : Except OperationError Value :=
  if op = .minus then operand.negate else .ok operand

def ofLexeme? (kind : Kind) (lexeme : String) : Option Value :=
  if kind = .realConst then
    let x := Decimal.readPlain lexeme.toList
    if x.isInf then none else some (real x)
  else ofInt? (Decimal.ofDigits lexeme.toList)

end Value

end MiniPascal
