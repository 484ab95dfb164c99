import MiniPascal.Decimal.Real
import MiniPascal.Yaml.Timestamp

/-!
# Types of YAML scalars

An unquoted scalar has the type that its text spells: null, a truth value, an integer, a real, a
timestamp, or a string if it is none of them. The older words for truth values, such as `yes` and
`off`, are strings that only a reader who asks for a truth value understands.
-/
namespace MiniPascal.Yaml

inductive Tag
  | str
  | int
  | float
  | bool
  | null
  | timestamp
  deriving Repr, DecidableEq, Inhabited

def Tag.text : Tag → String
  | str => "!!str"
  | int => "!!int"
  | float => "!!float"
  | bool => "!!bool"
  | null => "!!null"
  | timestamp => "!!timestamp"

def digitIn? (base : Nat) (c : Char) : Option Nat :=
  let n :=
    if c.isDigit then c.toNat - '0'.toNat
    else if 'a' ≤ c ∧ c ≤ 'f' then c.toNat - 'a'.toNat + 10
    else if 'A' ≤ c ∧ c ≤ 'F' then c.toNat - 'A'.toNat + 10
    else base
  if n < base then some n else none

def ofBase? (base : Nat) (digits : List Char) : Option Nat :=
  if digits.isEmpty then none
  else digits.foldlM (fun n c => (digitIn? base c).map (base * n + ·)) 0

/-- An unsigned integer: decimal, or with the mark of another base in front. A leading zero alone
is the mark of base eight. -/
def magnitude? : List Char → Option Nat
  | ['0'] => some 0
  | '0' :: c :: d :: rest =>
    if c = 'x' ∨ c = 'X' then ofBase? 16 (d :: rest)
    else if c = 'b' ∨ c = 'B' then ofBase? 2 (d :: rest)
    else if c = 'o' ∨ c = 'O' then ofBase? 8 (d :: rest)
    else ofBase? 8 (c :: d :: rest)
  | '0' :: rest => ofBase? 8 rest
  | digits => ofBase? 10 digits

/-- Whether a text is an integer of 64 bits, signed, or unsigned without a sign. In base two and
eight the sign can also stand behind the mark of the base. -/
def isInteger : List Char → Bool
  | '-' :: rest => (magnitude? rest).any (· ≤ Nat.pow 2 63)
  | '+' :: rest => (magnitude? rest).any (· < Nat.pow 2 63)
  | '0' :: 'b' :: '-' :: digits => (ofBase? 2 digits).any (· ≤ Nat.pow 2 63)
  | '0' :: 'b' :: '+' :: digits => (ofBase? 2 digits).any (· < Nat.pow 2 63)
  | '0' :: 'o' :: '-' :: digits => (ofBase? 8 digits).any (· ≤ Nat.pow 2 63)
  | '0' :: 'o' :: '+' :: digits => (ofBase? 8 digits).any (· < Nat.pow 2 63)
  | rest => (magnitude? rest).any (· < Nat.pow 2 64)

def isUnsigned (text : List Char) : Bool :=
  (magnitude? text).any (Nat.pow 2 63 ≤ ·)

def isReal (text : List Char) : Bool :=
  (Decimal.read? (String.ofList text)).any fun x => !x.isInf && !x.isNaN

def isDecimalReal (text : List Char) : Bool :=
  text.all (fun c => c.isDigit || ".eE+-".toList.contains c) && isReal text

def trueWords : List String := ["true", "True", "TRUE"]

def falseWords : List String := ["false", "False", "FALSE"]

def nullWords : List String := ["", "~", "null", "Null", "NULL"]

def realWords : List String :=
  [".nan", ".NaN", ".NAN", ".inf", ".Inf", ".INF", "+.inf", "+.Inf", "+.INF", "-.inf", "-.Inf",
    "-.INF"]

def oldTrueWords : List String := ["y", "Y", "yes", "Yes", "YES", "on", "On", "ON"]

def oldFalseWords : List String := ["n", "N", "no", "No", "NO", "off", "Off", "OFF"]

/-- The type of an unquoted scalar. Underscores between the digits of a number do not count.
Timestamps are strings unless they are asked for. -/
def tagOf (s : String) (timestamps : Bool := true) : Tag :=
  if trueWords.contains s || falseWords.contains s then .bool
  else if nullWords.contains s then .null
  else if realWords.contains s then .float
  else
    match s.toList with
    | [] => .null
    | c :: rest =>
      if c = '.' then if isReal (c :: rest) then .float else .str
      else if c.isDigit || c = '+' || c = '-' then
        let digits := (c :: rest).filter (· ≠ '_')
        if timestamps && isTimestamp (c :: rest) then .timestamp
        else if isInteger digits then .int
        else if isDecimalReal digits then .float
        else .str
      else .str

end MiniPascal.Yaml
