import MiniPascal.Yaml.Lexeme.Comment

/-!
# Scalars in a YAML text

A scalar is plain, in single or double quotes, or a block of lines. Inside plain and quoted scalars
a single line break reads as a space, and one more break as itself. A literal block keeps its
breaks; a folded one joins lines that do not start with a blank.
-/
namespace MiniPascal.Yaml.Scan

/-- The blanks and line breaks between two words of a scalar, each list in reverse. -/
structure Gap where
  blanks : List Char := []
  /-- Whether the line has ended; blanks on the next lines do not count. -/
  broken : Bool := false
  first : Option Char := none
  more : List Char := []
  deriving Repr, Inhabited

def Gap.folded (g : Gap) : List Char :=
  if !g.broken then g.blanks
  else
    match g.first with
    | some c => if c = '\n' then if g.more.isEmpty then [' '] else g.more else g.more ++ [c]
    | none => g.more

/-- Reads a gap. A check is made before each tab. -/
def gap (onTab : Gap → Scan Unit) : Nat → Gap → Scan Gap
  | 0, g => return g
  | n + 1, g => do
    match ← peek with
    | none => return g
    | some c =>
      if isBlank c then
        if c = '\t' then onTab g
        advance
        gap onTab n (if g.broken then g else { g with blanks := c :: g.blanks })
      else if isBreak c then
        let b ← newline
        gap onTab n
          (if g.broken then { g with more := b :: g.more }
          else { blanks := [], broken := true, first := some b })
      else return g

def endsPlain (inFlow : Bool) (c : Char) : Scan Bool := do
  if c = ':' then atGap 1
  else return inFlow && ",?[]\x7b\x7d".toList.contains c

def plainWord (inFlow : Bool) : Nat → List Char → Gap → Scan (List Char × Gap)
  | 0, read, g => return (read, g)
  | n + 1, read, g => do
    want 2
    match ← peek with
    | none => return (read, g)
    | some c =>
      if isBlank c || isBreak c then return (read, g)
      if ← endsPlain inFlow c then return (read, g)
      advance
      plainWord inFlow n (c :: (g.folded ++ read)) {}

/-- Reads words of a plain scalar. Outside of flow collections its lines start at least at the
column `least`. -/
def plainWords (inFlow : Bool) (least : Nat) (start : Mark) :
    Nat → List Char → Gap → Scan (List Char × Gap)
  | 0, read, g => return (read, g)
  | n + 1, read, g => do
    if ← atDocumentMark then return (read, g)
    if (← peek) = some '#' then return (read, g)
    let (read, g) ← plainWord inFlow (← bound) read g
    if !(← peek).any (fun c => isBlank c || isBreak c) then return (read, g)
    let g ← gap (checkTab) (← bound) g
    if !inFlow && (← mark).column < least then return (read, g)
    plainWords inFlow least start n read g
where
  /-- A tab can not stand where a line is to be indented. -/
  checkTab (g : Gap) : Scan Unit := do
    if g.broken && (← mark).column < least then fail start .tabInIndentation

/-- Reads a plain scalar. The second part says whether its line has ended behind it. -/
def plainScalar (inFlow : Bool) (least : Nat) : Scan (String × Bool) := do
  let (read, g) ← plainWords inFlow least (← mark) (← bound) [] {}
  return (String.ofList read.reverse, g.broken)

def escaped? (c : Char) : Option Char :=
  match c with
  | '0' => some (Char.ofNat 0)
  | 'a' => some (Char.ofNat 7)
  | 'b' => some (Char.ofNat 8)
  | 't' => some '\t'
  | 'n' => some '\n'
  | 'v' => some (Char.ofNat 11)
  | 'f' => some (Char.ofNat 12)
  | 'r' => some '\r'
  | 'e' => some (Char.ofNat 27)
  | 'N' => some (Char.ofNat 0x85)
  | '_' => some (Char.ofNat 0xA0)
  | 'L' => some (Char.ofNat 0x2028)
  | 'P' => some (Char.ofNat 0x2029)
  | c => if " \"'\\\t".toList.contains c then some c else none

def escapedDigits? (c : Char) : Option Nat :=
  match c with
  | 'x' => some 2
  | 'u' => some 4
  | 'U' => some 8
  | _ => none

def hexDigit? (c : Char) : Option Nat :=
  if c.isDigit then some (c.toNat - '0'.toNat)
  else if 'a' ≤ c ∧ c ≤ 'f' then some (c.toNat - 'a'.toNat + 10)
  else if 'A' ≤ c ∧ c ≤ 'F' then some (c.toNat - 'A'.toNat + 10)
  else none

def hexNumber (start : Mark) (count : Nat) : Scan Nat := do
  let digits ← (List.range count).mapM fun i => charAt i
  let some n := digits.foldlM (fun n c => (c.bind hexDigit?).map (16 * n + ·)) 0
    | fail start .noHexadecimal
  return n

def escape (start : Mark) : Scan Char := do
  let letter := (← charAt 1).getD (Char.ofNat 0)
  match escapedDigits? letter with
  | some count =>
    advance
    advance
    let code ← hexNumber start count
    if !code.isValidChar then fail start .invalidEscapedCode
    skipTo ((← mark).index + count)
    return Char.ofNat code
  | none =>
    let some c := escaped? letter | fail start .unknownEscape
    advance
    advance
    return c

/-- Reads a word of a quoted scalar behind what has been read. The second part says whether it ends
with an escaped line break. -/
def quotedWord (quote : Char) (start : Mark) : Nat → List Char → Scan (List Char × Bool)
  | 0, read => return (read, false)
  | n + 1, read => do
    want 2
    match ← peek with
    | none => return (read, false)
    | some c =>
      if isBlank c || isBreak c then return (read, false)
      else if c = quote then
        if quote ≠ '"' && (← charAt 1) = some quote then
          advance
          advance
          quotedWord quote start n (c :: read)
        else return (read, false)
      else if quote = '"' && c = '\\' then
        if (← charAt 1).any isBreak then
          advance
          discard newline
          return (read, true)
        else quotedWord quote start n ((← escape start) :: read)
      else
        advance
        quotedWord quote start n (c :: read)

def quotedWords (quote : Char) (start : Mark) : Nat → List Char → Scan (List Char)
  | 0, read => return read
  | n + 1, read => do
    if ← atDocumentMark then fail start .documentMarkInQuotes
    if (← peek).isNone then fail start .endInQuotes
    let (read, broken) ← quotedWord quote start (← bound) read
    if (← peek) = some quote then
      advance
      return read
    let g ← gap (fun _ => return ()) (← bound) { broken }
    quotedWords quote start n (g.folded ++ read)

def quotedScalar (quote : Char) : Scan String := do
  let start ← mark
  advance
  let read ← quotedWords quote start (← bound) []
  return String.ofList read.reverse

/-- What becomes of the line breaks at the end of a block: one is kept, none, or all. -/
inductive Chomping
  | clip
  | strip
  | keep
  deriving Repr, DecidableEq, Inhabited

def chomping? : Scan (Option Chomping) := do
  match ← peek with
  | some '+' =>
    advance
    return some .keep
  | some '-' =>
    advance
    return some .strip
  | _ => return none

def depth? (start : Mark) : Scan (Option Nat) := do
  match ← peek with
  | some c =>
    if c = '0' then fail start .zeroIndentation
    if c.isDigit then
      advance
      return some (c.toNat - '0'.toNat)
    else return none
  | none => return none

def blockHeader (start : Mark) : Scan (Chomping × Option Nat) := do
  match ← chomping? with
  | some chomping => return (chomping, ← depth? start)
  | none =>
    match ← depth? start with
    | some depth => return ((← chomping?).getD .clip, some depth)
    | none => return (.clip, none)

/-- Moves over the blanks and empty lines before a line of a block. Gives the indentation of the
block, which the first line determines if it is zero, and the line breaks in reverse. -/
def blockIndentation (start : Mark) (least : Nat) :
    Nat → Nat → Nat → List Char → Scan (Nat × List Char)
  | 0, indent, _, breaks => return (indent, breaks)
  | n + 1, indent, deepest, breaks => do
    let inside (column : Nat) : Bool := indent = 0 || column < indent
    skipSpaces inside (← bound)
    let column := (← mark).column
    let deepest := max deepest column
    if inside column && (← peek) = some '\t' then fail start .tabInBlock
    if (← peek).any isBreak then
      let b ← newline
      blockIndentation start least n indent deepest (b :: breaks)
    else if indent = 0 then return (max 1 (max deepest least), breaks)
    else return (indent, breaks)
where
  skipSpaces (inside : Nat → Bool) : Nat → Scan Unit
    | 0 => return ()
    | n + 1 => do
      if inside (← mark).column && (← peek) = some ' ' then
        advance
        skipSpaces inside n

/-- Reads the lines of a block behind what has been read. `last` is the break that ended the line
before, `breaks` are those of the empty lines behind it, and `blank` says that the line before
started with a blank. -/
def blockLines (literal : Bool) (start : Mark) (least : Nat) :
    Nat → Nat → List Char → Option Char → List Char → Bool →
      Scan (List Char × Option Char × List Char)
  | 0, _, read, last, breaks, _ => return (read, last, breaks)
  | n + 1, indent, read, last, breaks, blank => do
    match ← peek with
    | none => return (read, last, breaks)
    | some c =>
      if (← mark).column ≠ indent then return (read, last, breaks)
      let read :=
        if !literal && !blank && !isBlank c && last = some '\n' then
          if breaks.isEmpty then ' ' :: read else read
        else last.toList ++ read
      let line ← takeWhile (fun c => !isBreak c) (← bound)
      let last ← if (← peek).any isBreak then some <$> newline else pure none
      let (indent, more) ← blockIndentation start least (← bound) indent 0 []
      blockLines literal start least n indent (line.reverse ++ (breaks ++ read)) last more
        (isBlank c)

/-- Reads a block of lines. The block around it is indented by `outer`, and a line of this one at
least by `least`. -/
def blockScalar (literal : Bool) (outer least : Nat) : Scan String := do
  let start ← mark
  advance
  let (chomping, depth) ← blockHeader start
  skipWhile isBlank
  skipLineComment start.index
  if !(← peek).all isBreak then fail start .noCommentOrBreak
  if (← peek).any isBreak then discard newline
  let given := (depth.map (outer + ·)).getD 0
  let (indent, breaks) ← blockIndentation start least (← bound) given 0 []
  let (read, last, breaks) ← blockLines literal start least (← bound) indent [] none breaks false
  let tail := match chomping with
    | .clip => last.toList
    | .strip => []
    | .keep => breaks ++ last.toList
  return String.ofList (tail ++ read).reverse

end MiniPascal.Yaml.Scan
