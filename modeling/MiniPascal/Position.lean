/-!
# Positions

A position names a file, a line and a column. Lines and columns count from one, columns count
bytes, and only a line feed starts a new line.
-/
namespace MiniPascal

structure Position where
  file : String
  line : Int := 1
  column : Int := 1
  deriving Repr, DecidableEq, Inhabited

namespace Position

def start (file : String) : Position :=
  { file }

def advance (p : Position) (b : UInt8) : Position :=
  if b = 0x0A then { p with line := p.line + 1, column := 1 }
  else { p with column := p.column + 1 }

def advanceBy (p : Position) (bytes : List UInt8) : Position :=
  bytes.foldl advance p

def lineColumn (p : Position) : String :=
  toString p.line ++ ":" ++ toString p.column

/-- The position as messages of the run-time checks show it, in brackets. -/
def bracketed (p : Position) : String :=
  "[" ++ p.file ++ ":" ++ p.lineColumn ++ "]"

@[simp]
theorem advanceBy_nil (p : Position) : p.advanceBy [] = p := rfl

theorem advanceBy_append (p : Position) (a b : List UInt8) :
    p.advanceBy (a ++ b) = (p.advanceBy a).advanceBy b := by
  simp [advanceBy]

end Position

end MiniPascal
