import MiniPascal.Yaml.Mark

/-!
# Comments in a YAML text

A comment stands above what follows it, behind a lexeme on its line, or below what precedes it. It
waits until the lexeme that it belongs to is looked at. The texts of the comments above a node then
count until the node has been read.
-/
namespace MiniPascal.Yaml

inductive CommentPlace
  | above
  | behind
  | below
  deriving Repr, DecidableEq, Inhabited

/-- A comment, or several on adjacent lines. Its column is counted from one unless it is behind a
lexeme. -/
structure Comment where
  place : CommentPlace
  text : List Char := []
  /-- The index of the lexeme that it belongs to. -/
  owner : Nat
  start : Mark
  /-- The index from which on nothing else stands before it. -/
  gapStart : Nat := 0
  /-- The index of its end, zero if it is behind a lexeme. -/
  stop : Nat := 0
  deriving Repr, Inhabited

namespace Comment

def join (a b : List Char) : List Char :=
  if a.isEmpty then b else a ++ '\n' :: b

/-- Hands over the comments that belong to a lexeme or to what is before it. Gives the text of those
above, behind the text that there is, and the comments that wait on. The end of a block takes none
from above. -/
def handOver (index : Nat) (isBlockEnd : Bool) : List Comment → List Char → List Char × List Comment
  | [], text => (text, [])
  | c :: rest, text =>
    if index < c.owner then (text, c :: rest)
    else if c.place ≠ .above then handOver index isBlockEnd rest text
    else if isBlockEnd then (text, c :: rest)
    else handOver index isBlockEnd rest (join text c.text)

/-- The end of a block that is indented by some columns, moved before the comments at its own column
that follow it without a gap. The comments are given latest first. -/
def blockEnd (indent : Nat) : List Comment → (stop : Nat) → Mark → Mark
  | [], _, place => place
  | c :: earlier, stop, place =>
    if c.stop < stop then place
    else blockEnd indent earlier c.gapStart (if c.start.column = indent + 1 then c.start else place)

def lastLines : List Char → List Char → List Char
  | '\n' :: '\n' :: _, read => read
  | c :: rest, read => lastLines rest (c :: read)
  | [], read => read

/-- What is left to the first node of the text above a document: the part below the last empty
line. -/
def belowEmptyLine (text : List Char) : List Char :=
  match text.reverse with
  | '\n' :: _ :: _ => []
  | reversed => lastLines reversed []

end Comment

end MiniPascal.Yaml
