import MiniPascal.Text.Utf8

/-!
# Blank space and letter case

Blanks around an entry or an option are ignored, whichever white-space character they are. Words
are compared without regard to case: a letter is folded by its simple case mapping, of which only
the results inside ASCII can make a word equal to one of the program's own.
-/
namespace MiniPascal.Text

/-- The characters with the property White_Space. -/
def isBlank (c : Char) : Bool :=
  let n := c.toNat
  (0x09 ≤ n && n ≤ 0x0D) || n = 0x20 || n = 0x85 || n = 0xA0 || n = 0x1680 ||
    (0x2000 ≤ n && n ≤ 0x200A) || n = 0x2028 || n = 0x2029 || n = 0x202F || n = 0x205F ||
    n = 0x3000

def Piece.isBlank : Piece → Bool
  | .char c => Text.isBlank c
  | .byte _ => false

def trim (text : List Piece) : List Piece :=
  ((text.dropWhile Piece.isBlank).reverse.dropWhile Piece.isBlank).reverse

/-- Upper case, as far as it leads into ASCII: beside the ASCII letters these are the dotless i
and the long s. Any other character keeps its place, since its upper case is not in ASCII. -/
def toUpper (c : Char) : Char :=
  if c.toNat = 0x131 then 'I'
  else if c.toNat = 0x17F then 'S'
  else c.toUpper

/-- Lower case, as far as it leads into ASCII: beside the ASCII letters these are the dotted
capital I and the kelvin sign. -/
def toLower (c : Char) : Char :=
  if c.toNat = 0x130 then 'i'
  else if c.toNat = 0x212A then 'k'
  else c.toLower

def Piece.toLower : Piece → Piece
  | .char c => .char (Text.toLower c)
  | .byte b => .byte b

def ofString (s : String) : List Piece :=
  s.toList.map .char

def isWord (bytes : Bytes) (word : String) : Bool :=
  (trim (pieces bytes)).map Piece.toLower = ofString word

end MiniPascal.Text
