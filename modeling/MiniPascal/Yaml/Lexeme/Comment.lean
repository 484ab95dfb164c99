import MiniPascal.Yaml.Cursor

/-!
# Passing over comments

A comment behind a lexeme belongs to it. Comments on lines of their own belong together as long as
they stand at one column. They are above what follows, unless they are below what precedes them:
those right below it with an empty line behind them, those that are indented less than the block
that they are in, and those before the end of a flow collection.
-/
namespace MiniPascal.Yaml.Scan

def commentReach : Nat := 512

def record (c : Comment) : Scan Unit :=
  modify fun cursor => { cursor with comments := cursor.comments ++ [c] }

def commentText : Scan (List Char) := do
  takeWhile (fun c => !isBreak c) (← bound)

/-- The distance of a comment behind nothing but blanks, from some distance on. The first number
bounds the search. -/
def lineComment? : Nat → (distance : Nat) → Scan (Option Nat)
  | 0, _ => return none
  | n + 1, distance => do
    if ← wantOrPutOff (distance + 1) then
      match ← charAt distance with
      | some c =>
        if isBlank c then lineComment? n (distance + 1)
        else return if c = '#' then some distance else none
      | none => return none
    else return none

/-- Moves to the end of a comment that stands on this line behind nothing but blanks. It belongs to
the lexeme with an index. -/
def skipLineComment (owner : Nat) : Scan Unit := do
  if (← get).breaks = 0 then
    if let some distance ← lineComment? commentReach 0 then
      skipTo ((← mark).index + distance)
      let start ← mark
      record { place := .behind, text := ← commentText, owner, start }

structure Surroundings where
  inFlow : Bool
  /-- The column of the innermost block. -/
  indent : Nat
  /-- The index of the lexeme before, and whether it is the mark of a value. -/
  before : Nat
  behindValue : Bool
  /-- Where the gap between the lexemes starts. -/
  gap : Mark

/-- Comments that have been read and not been recorded, with the place that is looked at. -/
structure CommentRun where
  /-- The lines, the latest first. -/
  lines : List (List Char) := []
  start : Mark := {}
  gapStart : Nat
  owner : Nat
  line : Nat
  column : Nat
  /-- Whether there has been no empty line. -/
  unbroken : Bool
  /-- Whether the line before is empty. -/
  behindEmpty : Bool := false

def CommentRun.putBelow (run : CommentRun) (owner stop : Nat) : Scan CommentRun := do
  if run.lines.isEmpty then return run
  record { place := .below, owner, start := run.start, gapStart := run.gapStart, stop }
  return { run with lines := [], gapStart := stop, owner := stop }

def CommentRun.putAbove (run : CommentRun) (stop : Nat) : Scan Unit := do
  if !run.lines.isEmpty then
    let text := ['\n'].intercalate run.lines.reverse
    record { place := .above, text, owner := run.start.index, start := run.start,
             gapStart := run.gapStart, stop }

/-- The character at a distance in bytes. Inside a character another one stands for it. -/
def charAtByte : List Char → Nat → Option Char
  | [], _ => none
  | c :: _, 0 => some c
  | c :: rest, n + 1 =>
    if n + 1 < c.utf8Size then some '\ufffd' else charAtByte rest (n + 1 - c.utf8Size)

/-- Goes through blanks, empty lines and comments, of which the next place is at a distance from the
cursor. `footLine` is the line on which a comment is right below the lexeme before. -/
def commentRun (around : Surroundings) (footLine : Option Nat) :
    Nat → (distance : Nat) → CommentRun → Scan Unit
  | 0, _, _ => return ()
  | n + 1, distance, run => do
    let here := (← mark).index
    if commentReach ≤ distance then run.putAbove (here + distance - 1)
    else if !(← wantOrPutOff (distance + 1)) then run.putAbove (here + distance - 1)
    else
      let c := charAtByte (← get).rest distance
      let run := { run with column := run.column + 1 }
      if c.any isBlank then commentRun around footLine n (distance + 1) run
      else
        let closesFlow := around.inFlow && (c = some ']' || c = some '\x7d')
        if closesFlow || c.all isBreak then
          let dedented := run.start.column ≤ around.indent
          let isFoot := (some run.start.line = footLine && !around.behindValue) || dedented
          let run ←
            if closesFlow || (!run.behindEmpty && run.unbroken && isFoot) then
              run.putBelow (if dedented then run.start.index else run.owner) (here + distance)
            else if !run.behindEmpty && !run.lines.isEmpty && c.isSome then
              pure { run with lines := [] :: run.lines }
            else pure run
          if c.any isBreak then
            commentRun around footLine n (distance + 1)
              { run with unbroken := false, behindEmpty := true, column := 0, line := run.line + 1 }
          else run.putAbove (here + distance - 1)
        else
          let run ←
            if run.column ≤ around.indent && run.column ≠ run.start.column then
              run.putBelow run.owner (here + distance)
            else pure run
          if c ≠ some '#' then run.putAbove (here + distance - 1)
          else
            let start : Mark :=
              if run.lines.isEmpty then
                { index := here + distance, line := run.line, column := run.column }
              else run.start
            skipTo (here + distance)
            let text ← commentText
            commentRun around footLine n 1
              { run with
                lines := text :: run.lines, start, behindEmpty := false
                column := 0, line := (← mark).line }

def skipComments (around : Surroundings) : Scan Unit := do
  let here ← mark
  let breaks := (← get).breaks
  let footLine :=
    if around.gap.column = 0 then none
    else some (here.line - breaks + if breaks = 0 && 1 < here.column then 2 else 1)
  commentRun around footLine (2 * (← bound) + 1) 0
    { gapStart := around.gap.index
      owner := around.before
      line := here.line
      column := here.column
      unbroken := breaks ≤ 1 }

end MiniPascal.Yaml.Scan
