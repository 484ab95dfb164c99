import MiniPascal.Yaml.Comment
import MiniPascal.Yaml.Source

/-!
# A place in a YAML text

A cursor stands before a character of a text and knows its place. A scan moves a cursor forward and
gives what it has read, or says why it cannot go on. The cursor then stands where the scan has
failed.
-/
namespace MiniPascal.Yaml

def isBlank (c : Char) : Bool := c = ' ' || c = '\t'

/-- The line and paragraph separators, which stand for themselves where lines are folded. -/
def isSeparator (c : Char) : Bool := c.toNat = 0x2028 || c.toNat = 0x2029

def isBreak (c : Char) : Bool := c = '\n' || c = '\r' || c.toNat = 0x85 || isSeparator c

def isByteOrderMark (c : Char) : Bool := c.toNat = 0xFEFF

def isNameChar (c : Char) : Bool := c.isAlphanum || c = '_' || c = '-'

structure Cursor where
  /-- The characters behind the cursor that have been decoded. -/
  rest : List Char := []
  /-- The blocks behind them. -/
  later : List (List Char)
  /-- What is wrong behind all blocks. -/
  fault : Option Problem
  /-- The characters between them, which are there once the fault has been met. -/
  beforeFault : List Char
  /-- The number of characters from the start of the text to the fault or the end. -/
  size : Nat
  mark : Mark := {}
  /-- Whether a byte order mark stands at the start of what is held: the text from the last place on
  where more was wanted than had been decoded. -/
  opensWithMark : Bool := false
  /-- The number of line breaks since the last character that is no blank. -/
  breaks : Nat := 0
  /-- The comments that wait for the lexemes that they belong to, the earliest first. -/
  comments : List Comment := []
  /-- A failure that has been put off. -/
  putOff : Option Malformed := none
  deriving Repr, Inhabited

def Cursor.ofSource (s : Source) : Cursor :=
  { later := s.blocks, fault := s.fault, beforeFault := s.beforeFault, size := s.size }

def Cursor.decode (count : Nat) : List Char → List (List Char) → List Char × List (List Char)
  | rest, [] => (rest, [])
  | rest, block :: later =>
    if (rest.take count).length < count then decode count (rest ++ block) later
    else (rest, block :: later)

abbrev Scan := EStateM Malformed Cursor

namespace Scan

/-- Makes sure that a number of characters can be looked at, or all that there are. -/
def want (count : Nat) : Scan Unit := do
  let cursor ← get
  if (cursor.rest.take count).length < count then
    let (rest, later) := Cursor.decode count cursor.rest cursor.later
    let cursor := { cursor with rest, later, opensWithMark := rest.head?.any isByteOrderMark }
    set cursor
    if (rest.take count).length < count then
      if let some problem := cursor.fault then
        set { cursor with rest := rest ++ cursor.beforeFault, beforeFault := [] }
        throw { problem := problem }

/-- Puts off a failure. A later one takes the place of an earlier one. -/
def putOff (e : Malformed) : Scan Unit :=
  modify fun cursor => { cursor with putOff := some (cursor.putOff.elim e e.behind) }

def wantOrPutOff (count : Nat) : Scan Bool := do
  try
    want count
    return true
  catch e =>
    putOff e
    return false

/-- The character some places ahead, none at the end of the text. -/
def charAt (i : Nat) : Scan (Option Char) := do
  want (i + 1)
  return (← get).rest[i]?

def peek : Scan (Option Char) := charAt 0

def mark : Scan Mark := return (← get).mark

/-- A bound for the steps that a loop over the rest of the text can take. -/
def bound : Scan Nat := do
  let cursor ← get
  return cursor.size - cursor.mark.index + 1

def fail {α : Type} (start : Mark) (problem : Problem) : Scan α := do
  throw (.ofLexeme start.line (← mark).line problem)

def advance : Scan Unit := modify fun cursor =>
  match cursor.rest with
  | [] => cursor
  | c :: rest =>
    { cursor with
      rest
      mark := { cursor.mark with
        index := cursor.mark.index + 1
        column := cursor.mark.column + 1 }
      breaks := if isBlank c then cursor.breaks else 0 }

def newline : Scan Char := do
  want 2
  let cursor ← get
  let (c, width) := match cursor.rest with
    | '\r' :: '\n' :: _ => ('\n', 2)
    | c :: _ => (if isSeparator c then c else '\n', 1)
    | [] => ('\n', 0)
  set { cursor with
    rest := cursor.rest.drop width
    mark := { index := cursor.mark.index + width, line := cursor.mark.line + 1, column := 0 }
    breaks := cursor.breaks + 1 }
  return c

def skipWhile (p : Char → Bool) : Scan Unit := do
  loop (← bound)
where
  loop : Nat → Scan Unit
    | 0 => return ()
    | n + 1 => do
      if (← peek).any p then
        advance
        loop n

def skipLine : Scan Unit := skipWhile fun c => !isBreak c

def skipTo (index : Nat) : Scan Unit := do
  loop (← bound)
where
  loop : Nat → Scan Unit
    | 0 => return ()
    | n + 1 => do
      if (← mark).index < index then
        if (← peek).any isBreak then discard newline else advance
        loop n

def takeWhile (p : Char → Bool) (most : Nat) : Scan (List Char) :=
  loop most []
where
  loop : Nat → List Char → Scan (List Char)
    | 0, read => return read.reverse
    | n + 1, read => do
      match ← peek with
      | some c =>
        if p c then
          advance
          loop n (c :: read)
        else return read.reverse
      | none => return read.reverse

def atGap (ahead : Nat) : Scan Bool := return (← charAt ahead).all fun c => isBlank c || isBreak c

def atTriple (c : Char) : Scan Bool := do
  if (← mark).column ≠ 0 || (← peek) ≠ some c then return false
  if (← charAt 1) ≠ some c then return false
  if (← charAt 2) ≠ some c then return false
  atGap 3

def documentMarkWidth : Nat := 4

def atDocumentMark : Scan Bool := do
  want documentMarkWidth
  if ← atTriple '-' then return true
  atTriple '.'

end Scan

end MiniPascal.Yaml
