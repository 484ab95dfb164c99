import MiniPascal.Yaml.Lexeme
import MiniPascal.Yaml.Lexeme.Scalar

/-!
# Anchors, tags and directives in a YAML text

An anchor names a node and an alias stands for it. A tag gives the type of a node: in full between
angle brackets, or as a handle and a suffix. Directives before a document give its version and say
what handles stand for.
-/
namespace MiniPascal.Yaml.Scan

def anchorName : Scan String := do
  let start ← mark
  advance
  let name ← takeWhile isNameChar (← bound)
  let closed := (← atGap 0) || (← peek).any fun c => "?:,]\x7d%@`".toList.contains c
  if name.isEmpty || !closed then fail start .noAnchorName
  return String.ofList name

/-- Reads a handle: a name between exclamation marks, or one mark with or without a name. -/
def tagHandle (directive : Bool) (start : Mark) : Scan (List Char) := do
  if (← peek) ≠ some '!' then fail start .noExclamationMark
  advance
  let name ← takeWhile isNameChar (← bound)
  if (← peek) = some '!' then
    advance
    return '!' :: (name ++ ['!'])
  if directive && !name.isEmpty then fail start .noExclamationMark
  return '!' :: name

def isTagChar (c : Char) : Bool := isNameChar c || ";/?:@&=+$,.!~*'()[]".toList.contains c

def escapedOctet (start : Mark) : Scan UInt8 := do
  if (← peek) ≠ some '%' then fail start .noEscapedOctet
  match (← charAt 1).bind hexDigit?, (← charAt 2).bind hexDigit? with
  | some a, some b =>
    skipTo ((← mark).index + 3)
    return UInt8.ofNat (16 * a + b)
  | _, _ => fail start .noEscapedOctet

def escapedTail (start : Mark) : Nat → Scan Bytes
  | 0 => return []
  | n + 1 => do
    let b ← escapedOctet start
    if !Text.isContinuation b then fail start .invalidEscapedContinuation
    return b :: (← escapedTail start n)

def escapedBytes (start : Mark) : Scan Bytes := do
  let b ← escapedOctet start
  match Text.lead? b with
  | none => fail start .invalidEscapedLead
  | some (count, _, _) => return b :: (← escapedTail start count)

def tagBytes (start : Mark) : Nat → Scan Bytes
  | 0 => return []
  | n + 1 => do
    match ← peek with
    | none => return []
    | some c =>
      if c = '%' then
        let bytes ← escapedBytes start
        return bytes ++ (← tagBytes start n)
      else if isTagChar c then
        advance
        return Text.encode (String.singleton c) ++ (← tagBytes start n)
      else return []

/-- Reads a tag behind its handle, or behind a name that has turned out to be none. -/
def tagSuffix (start : Mark) (name : List Char) (mayBeEmpty : Bool) : Scan String := do
  let bytes ← tagBytes start (← bound)
  if bytes.isEmpty && !mayBeEmpty then fail start .noTagName
  return String.ofList name ++ Text.display bytes

/-- Reads a tag as its handle and its suffix. The handle of a full tag is empty. -/
def tag : Scan Lexeme.Content := do
  let start ← mark
  let content ←
    if (← charAt 1) = some '<' then do
      advance
      advance
      let suffix ← tagSuffix start [] false
      if (← peek) ≠ some '>' then fail start .noClosingAngle
      advance
      pure (.tag "" suffix)
    else do
      let handle ← tagHandle false start
      if 1 < handle.length && handle.getLast? = some '!' then
        pure (.tag (String.ofList handle) (← tagSuffix start [] false))
      else
        let suffix ← tagSuffix start (handle.drop 1) true
        pure (if suffix.isEmpty then .tag "" "!" else .tag "!" suffix)
  if !(← atGap 0) then fail start .noBlankOrBreak
  return content

def versionNumber (start : Mark) : Scan Nat := do
  let digits ← takeWhile Char.isDigit 2
  if digits.length = 2 && (← peek).any Char.isDigit then fail start .longVersionNumber
  if digits.isEmpty then fail start .noVersionNumber
  return digits.foldl (fun n c => 10 * n + (c.toNat - '0'.toNat)) 0

def versionDirective (start : Mark) : Scan Lexeme.Content := do
  skipWhile isBlank
  let major ← versionNumber start
  if (← peek) ≠ some '.' then fail start .noVersionDot
  advance
  let minor ← versionNumber start
  return .version major minor

def tagDirective (start : Mark) : Scan Lexeme.Content := do
  skipWhile isBlank
  let handle ← tagHandle true start
  if !(← peek).any isBlank then fail start .noBlank
  skipWhile isBlank
  let path ← tagSuffix start [] false
  if !(← atGap 0) then fail start .noBlankOrBreak
  return .tagDirective (String.ofList handle) path

def directive : Scan Lexeme.Content := do
  let start ← mark
  advance
  let name ← takeWhile isNameChar (← bound)
  if name.isEmpty then fail start .noDirectiveName
  if !(← atGap 0) then fail start .directiveNameNotAlphabetical
  let content ←
    if name = "YAML".toList then versionDirective start
    else if name = "TAG".toList then tagDirective start
    else fail start .unknownDirective
  skipWhile isBlank
  if (← peek) = some '#' then skipLine
  if !(← peek).all isBreak then fail start .noCommentOrBreak
  if (← peek).any isBreak then discard newline
  return content

end MiniPascal.Yaml.Scan
