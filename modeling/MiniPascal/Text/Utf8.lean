/-!
# Bytes as text

A source text is a sequence of bytes that need not be valid UTF-8. Decoding splits it into pieces:
each piece is a whole character, or a single byte at which no well-formed sequence starts. Overlong
forms, surrogates and code points above U+10FFFF are not well formed, and decoding goes on with the
very next byte.
-/
namespace MiniPascal

/-- Text as it is stored: arbitrary bytes. -/
abbrev Bytes := List UInt8

namespace Text

/-- One step of decoding: a character, or a byte that starts none. -/
inductive Piece
  | char (c : Char)
  | byte (b : UInt8)
  deriving Repr, DecidableEq, Inhabited

/-- What a first byte announces: how many continuation bytes follow, the bits that it contributes,
and the least code point of that length. -/
def lead? (b : UInt8) : Option (Nat × Nat × Nat) :=
  if b < 0x80 then some (0, b.toNat, 0)
  else if b < 0xC0 then none
  else if b < 0xE0 then some (1, b.toNat - 0xC0, 0x80)
  else if b < 0xF0 then some (2, b.toNat - 0xE0, 0x800)
  else if b < 0xF8 then some (3, b.toNat - 0xF0, 0x10000)
  else none

def isContinuation (b : UInt8) : Bool :=
  0x80 ≤ b && b < 0xC0

def codeOf (bits : Nat) (tail : Bytes) : Nat :=
  tail.foldl (fun n c => n * 64 + (c.toNat - 0x80)) bits

/-- The piece at the front of `b :: rest`, with the bytes after it. -/
def firstPiece (b : UInt8) (rest : Bytes) : Piece × Bytes :=
  match lead? b with
  | none => (.byte b, rest)
  | some (count, bits, least) =>
    let tail := rest.take count
    let code := codeOf bits tail
    if tail.length = count ∧ tail.all isContinuation ∧ least ≤ code ∧ code.isValidChar then
      (.char (Char.ofNat code), rest.drop count)
    else (.byte b, rest)

theorem length_firstPiece_le (b : UInt8) (rest : Bytes) :
    (firstPiece b rest).2.length ≤ rest.length := by
  unfold firstPiece
  split
  · exact Nat.le_refl _
  · dsimp only
    split
    · simp
    · exact Nat.le_refl _

def pieces : Bytes → List Piece
  | [] => []
  | b :: rest => (firstPiece b rest).1 :: pieces (firstPiece b rest).2
termination_by bytes => bytes.length
decreasing_by
  have := length_firstPiece_le b rest
  simp only [List.length_cons]
  omega

def Piece.toChar : Piece → Char
  | .char c => c
  | .byte _ => Char.ofNat 0xFFFD

def display (bytes : Bytes) : String :=
  String.ofList ((pieces bytes).map Piece.toChar)

def isWellFormed (bytes : Bytes) : Bool :=
  (pieces bytes).all fun
    | .char _ => true
    | .byte _ => false

def encode (s : String) : Bytes :=
  s.toUTF8.toList

end Text

end MiniPascal
