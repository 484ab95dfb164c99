import MiniPascal.Text.Utf8

/-!
# Lines of input and the history of entries

Input arrives in lines. A line is at most 4096 bytes long, its line feed included: a longer one
arrives in parts. A carriage return before a line feed belongs to the line end.

The history keeps the last thousand entries. An entry that equals the one before it is not added.
A history file is read up to the first line that is too long or not valid text.
-/
namespace MiniPascal

def lineWindow : Nat := 4096

structure InputLine where
  text : Bytes
  /-- Whether the line was cut because it is too long. -/
  isPart : Bool := false
  deriving Repr, DecidableEq, Inhabited

def dropReturn (line : Bytes) : Bytes :=
  if line.getLast? = some 0x0D then line.dropLast else line

/-- The first line of some input, and the input behind it. A carriage return at the end of a part
is left to the next one, where a line feed may follow it. -/
def firstLine (input : Bytes) : InputLine × Bytes :=
  let window := input.take lineWindow
  let line := window.takeWhile (· ≠ 0x0A)
  if line.length < window.length then
    ({ text := dropReturn line }, input.drop (line.length + 1))
  else if input.length < lineWindow then ({ text := input }, [])
  else
    let part := dropReturn window
    ({ text := part, isPart := true }, input.drop part.length)

theorem length_firstLine_lt {input : Bytes} (h : input ≠ []) :
    (firstLine input).2.length < input.length := by
  have hpos : 0 < input.length := List.length_pos_iff.mpr h
  unfold firstLine
  dsimp only
  split
  · simp only [List.length_drop]
    omega
  · split
    · exact hpos
    · have hpart : 0 < (dropReturn (input.take lineWindow)).length := by
        unfold dropReturn
        split <;> simp only [List.length_dropLast, List.length_take, lineWindow] at * <;> omega
      simp only [List.length_drop]
      omega

def inputLines (input : Bytes) : List InputLine :=
  if _hempty : input = [] then []
  else (firstLine input).1 :: inputLines (firstLine input).2
termination_by input.length
decreasing_by exact length_firstLine_lt (by assumption)

/-- The entries, the latest last. -/
structure History where
  entries : List Bytes := []
  deriving Repr, DecidableEq, Inhabited

namespace History

def limit : Nat := 1000

/-- Adds an entry and drops the oldest one if there are too many. -/
def append (h : History) (entry : Bytes) : History :=
  let entries := h.entries ++ [entry]
  { entries := entries.drop (entries.length - limit) }

/-- Adds an entry, unless it equals the latest one. -/
def add (h : History) (entry : Bytes) : History :=
  if h.entries.getLast? = some entry then h else h.append entry

def ofBytes (bytes : Bytes) : History :=
  let lines := (inputLines bytes).takeWhile fun l => !l.isPart && Text.isWellFormed l.text
  lines.foldl (fun h l => h.append l.text) {}

def toBytes (h : History) : Bytes :=
  h.entries.flatMap fun entry => entry ++ [0x0A]

end History

end MiniPascal
