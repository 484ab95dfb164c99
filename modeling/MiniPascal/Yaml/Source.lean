import MiniPascal.Text.Utf8
import MiniPascal.Yaml.Problem

/-!
# The characters of a YAML text

A text is UTF-8, or UTF-16 if it starts with the mark of that encoding. It is decoded in blocks of
bytes. What is wrong in a block shows when something of the block is wanted, and what is wrong in a
block that nobody reads does not matter.
-/
namespace MiniPascal.Yaml

def blockSize : Nat := 512

/-- Blocks of characters that can be read, and what is wrong in the block behind them. -/
structure Source where
  blocks : List (List Char)
  fault : Option Problem := none
  /-- The characters in the block with the fault that are before it. -/
  beforeFault : List Char := []
  deriving Repr, Inhabited

/-- One step of decoding, with the number of bytes that it takes. Characters that the text ends
inside of take more than a block. -/
inductive Decoded
  | char (c : Char) (width : Nat)
  | fault (problem : Problem) (width : Nat)
  deriving Repr, Inhabited

def isReadable (c : Char) : Bool :=
  let n := c.toNat
  n = 0x09 || n = 0x0A || n = 0x0D || (0x20 ≤ n && n ≤ 0x7E) || n = 0x85 ||
    (0xA0 ≤ n && n ≤ 0xD7FF) || (0xE000 ≤ n && n ≤ 0xFFFD) || 0x10000 ≤ n

def Decoded.ofCode (code width : Nat) : Decoded :=
  if isReadable (Char.ofNat code) then .char (Char.ofNat code) width
  else .fault .controlCharacter width

def decodeUtf8 (b : UInt8) (rest : Bytes) : Decoded :=
  match Text.lead? b with
  | none => .fault .invalidLead 1
  | some (count, bits, least) =>
    let tail := rest.take count
    let code := Text.codeOf bits tail
    if tail.length < count then .fault .incompleteCharacter (blockSize + 1)
    else if !tail.all Text.isContinuation then .fault .invalidContinuation (count + 1)
    else if code < least then .fault .overlongCharacter (count + 1)
    else if !code.isValidChar then .fault .invalidCodePoint (count + 1)
    else .ofCode code (count + 1)

def unit (bigEndian : Bool) (a b : UInt8) : Nat :=
  if bigEndian then a.toNat * 256 + b.toNat else b.toNat * 256 + a.toNat

def isHighSurrogate (n : Nat) : Bool := 0xD800 ≤ n && n < 0xDC00

def isLowSurrogate (n : Nat) : Bool := 0xDC00 ≤ n && n < 0xE000

def decodeUtf16 (bigEndian : Bool) (a : UInt8) (rest : Bytes) : Decoded :=
  match rest with
  | [] => .fault .incompleteUnit (blockSize + 1)
  | b :: rest =>
    let high := unit bigEndian a b
    if isLowSurrogate high then .fault .strayLowSurrogate 2
    else if isHighSurrogate high then
      match rest with
      | c :: d :: _ =>
        let low := unit bigEndian c d
        if isLowSurrogate low then .ofCode (0x10000 + (high - 0xD800) * 0x400 + (low - 0xDC00)) 4
        else .fault .missingLowSurrogate 4
      | _ => .fault .incompletePair (blockSize + 1)
    else .ofCode high 2

/-- Decodes a text from some place in a block on. The earlier blocks and the characters of this one
are given in reverse, and so is the number of its bytes that are used up. -/
def decodeFrom (step : UInt8 → Bytes → Decoded) :
    Nat → Bytes → List (List Char) → List Char → Nat → Source
  | n + 1, b :: rest, earlier, block, used =>
    match step b rest with
    | .char c width =>
      let rest := rest.drop (width - 1)
      if used + width ≤ blockSize then decodeFrom step n rest earlier (c :: block) (used + width)
      else decodeFrom step n rest (block.reverse :: earlier) [c] width
    | .fault problem width =>
      if used + width ≤ blockSize then
        { blocks := earlier.reverse, fault := some problem, beforeFault := block.reverse }
      else { blocks := (block.reverse :: earlier).reverse, fault := some problem }
  | _, _, earlier, block, _ => { blocks := (block.reverse :: earlier).reverse }

def Source.size (s : Source) : Nat :=
  s.blocks.foldl (fun n block => n + block.length) s.beforeFault.length

def Source.ofBytes (bytes : Bytes) : Source :=
  match bytes with
  | 0xFF :: 0xFE :: rest => decodeFrom (decodeUtf16 false) rest.length rest [] [] 2
  | 0xFE :: 0xFF :: rest => decodeFrom (decodeUtf16 true) rest.length rest [] [] 2
  | 0xEF :: 0xBB :: 0xBF :: rest => decodeFrom decodeUtf8 rest.length rest [] [] 3
  | bytes => decodeFrom decodeUtf8 bytes.length bytes [] [] 0

end MiniPascal.Yaml
