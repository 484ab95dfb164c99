import MiniPascal.Text.Printable
import MiniPascal.Text.Utf8

/-!
# Quoted text

Messages quote a character or a string that a reader could not tell from its surroundings.
Printable characters stand for themselves; the quote and the backslash are escaped by a backslash;
seven control characters have a letter of their own; everything else is written by number. A byte
that is part of no character is written as two hexadecimal digits.
-/
namespace MiniPascal.Text

def hex (width n : Nat) : String :=
  String.ofList ((List.range width).reverse.map fun i => Nat.digitChar (n / Nat.pow 16 i % 16))

def controlLetter? (c : Char) : Option Char :=
  match c.toNat with
  | 0x07 => some 'a'
  | 0x08 => some 'b'
  | 0x0C => some 'f'
  | 0x0A => some 'n'
  | 0x0D => some 'r'
  | 0x09 => some 't'
  | 0x0B => some 'v'
  | _ => none

/-- A character as it stands between two marks `mark`. -/
def escapeChar (mark c : Char) : String :=
  if c = mark ∨ c = '\\' then String.ofList ['\\', c]
  else if isPrintable c then String.singleton c
  else match controlLetter? c with
    | some letter => String.ofList ['\\', letter]
    | none =>
      if c.toNat < 0x80 then "\\x" ++ hex 2 c.toNat
      else if c.toNat < 0x10000 then "\\u" ++ hex 4 c.toNat
      else "\\U" ++ hex 8 c.toNat

def escapePiece (mark : Char) : Piece → String
  | .char c => escapeChar mark c
  | .byte b => "\\x" ++ hex 2 b.toNat

def quoteChar (c : Char) : String :=
  "'" ++ escapeChar '\'' c ++ "'"

def quote (bytes : Bytes) : String :=
  "\"" ++ String.join ((pieces bytes).map (escapePiece '"')) ++ "\""

end MiniPascal.Text
