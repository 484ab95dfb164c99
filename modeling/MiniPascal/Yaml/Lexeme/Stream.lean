import MiniPascal.Yaml.Lexeme.Property

/-!
# The lexemes of a YAML text, in order

Lexemes are read on demand and a few ahead. A scalar or a flow collection that can be the key of a
mapping is kept back until it is known whether a colon follows: on the same line, and within a
certain number of characters. Only then the mark of the key, and the start of a block mapping if
there is one, can be put before it.

If no lexeme can be read the stream stays where reading has failed, and can be read on from there.
-/
namespace MiniPascal.Yaml

/-- A place where a key may start, inside a flow collection or outside of all. -/
structure KeyStart where
  /-- How many flow collections are around it. -/
  level : Nat := 0
  possible : Bool := false
  /-- Whether something else than a key at this place is an error. -/
  required : Bool := false
  /-- How many lexemes there are before it. -/
  number : Nat := 0
  mark : Mark := {}
  deriving Repr, Inhabited

structure LexemeStream where
  cursor : Cursor
  /-- The lexemes that have been read and not been taken yet. -/
  ahead : Array Lexeme := #[{ content := .streamStart }]
  /-- How many lexemes have been taken. -/
  taken : Nat := 0
  /-- The columns of the open blocks, the innermost first. -/
  indents : List Nat := []
  /-- The places where a key may start: that of the innermost flow collection first, that outside of
  all flow collections last. -/
  keys : List KeyStart := [{}]
  /-- The lexemes that are kept back, by number, with the level of their place among the keys. -/
  keptBack : List (Nat × Nat) := []
  /-- Whether a key can start here. -/
  keyAllowed : Bool := true
  /-- The text of the comments above the next node. -/
  above : List Char := []
  deriving Inhabited

def LexemeStream.ofSource (s : Source) : LexemeStream := { cursor := .ofSource s }

def LexemeStream.flowLevel (s : LexemeStream) : Nat := (s.keys.head?.map KeyStart.level).getD 0

def LexemeStream.inFlow (s : LexemeStream) : Bool := 0 < s.flowLevel

def LexemeStream.nextNumber (s : LexemeStream) : Nat := s.taken + s.ahead.size

def LexemeStream.atFirstItem (s : LexemeStream) : Bool :=
  let last (i : Nat) := (s.ahead[s.ahead.size - i]?).map Lexeme.content
  last 2 = some .blockSequenceStart && last 1 = some .item

abbrev Lexing := EStateM Malformed LexemeStream

namespace Lexing

def keyReach : Nat := 1024

def deepest : Nat := 10000

def scan {α : Type} (m : Scan α) : Lexing α := fun s =>
  match m s.cursor with
  | .ok a cursor => .ok a { s with cursor }
  | .error e cursor => .error e { s with cursor }

def mark : Lexing Mark := return (← get).cursor.mark

def put (content : Lexeme.Content) (place : Mark) : Lexing Unit :=
  modify fun s => { s with ahead := s.ahead.push { content, mark := place } }

/-- Puts a lexeme before the one with a number, or at the end if that has been taken. -/
def putBefore (number : Nat) (content : Lexeme.Content) (place : Mark) : Lexing Unit := do
  let s ← get
  if number < s.taken then put content place
  else
    let i := number - s.taken
    set { s with ahead := s.ahead.insertIdxIfInBounds i { content, mark := place } }

def allowKey (allowed : Bool) : Lexing Unit := modify fun s => { s with keyAllowed := allowed }

def dropKey : Lexing Unit := do
  let s ← get
  match s.keys with
  | k :: outer =>
    if k.possible then
      if k.required then scan (Scan.fail k.mark .noColon)
      set { s with
        keys := { k with possible := false } :: outer
        keptBack := s.keptBack.filter (·.1 ≠ k.number) }
  | [] => return ()

def noteKey : Lexing Unit := do
  if (← get).keyAllowed then
    let s ← get
    let here := s.cursor.mark
    let k : KeyStart :=
      { level := s.flowLevel
        possible := true
        required := !s.inFlow && s.indents.head? = some here.column
        number := s.nextNumber
        mark := here }
    dropKey
    modify fun s =>
      { s with
        keys := k :: s.keys.tail
        keptBack := (k.number, s.flowLevel) :: s.keptBack }

/-- Whether a key can still end here, by its level. One that cannot is given up. -/
def keyIsOpen (level : Nat) : Lexing Bool := do
  let s ← get
  let i := s.flowLevel - level
  match s.keys[i]? with
  | none => return false
  | some k =>
    if !k.possible then return false
    let here := s.cursor.mark
    if k.mark.line < here.line || k.mark.index + keyReach < here.index then
      if k.required then scan (Scan.fail k.mark .noColon)
      set { s with keys := s.keys.set i { k with possible := false } }
      return false
    else return true

/-- Opens a block at the column of a place, unless it is open or inside a flow collection. Its
start is put before the lexeme with a number, if one is given. -/
def openBlock (number : Option Nat) (content : Lexeme.Content) (place : Mark) :
    Lexing Unit := do
  let s ← get
  if !s.inFlow && s.indents.head?.all (· < place.column) then
    set { s with indents := place.column :: s.indents }
    if deepest ≤ s.indents.length then
      scan (Scan.fail ((s.keys.head?.map KeyStart.mark).getD {}) .tooDeep)
    match number with
    | some number => putBefore number content place
    | none => put content place

/-- Closes the blocks that are indented deeper than a column, or all of them. They end before a
place, or before comments of theirs behind it. -/
def closeBlocks (column : Option Nat) (place : Mark) : Lexing Unit := do
  let s ← get
  if !s.inFlow then
    let (closed, kept) := s.indents.span fun indent => column.all (· < indent)
    let comments := s.cursor.comments.reverse
    let close (found : Array Lexeme × Mark) (indent : Nat) : Array Lexeme × Mark :=
      let place := Comment.blockEnd indent comments found.2.index found.2
      (found.1.push { content := .blockEnd, mark := place }, place)
    let (ahead, _) := closed.foldl close (s.ahead, { place with index := place.index - 1 })
    set { s with indents := kept, ahead }

/-- What surrounds comments in a gap between lexemes. A comma counts as part of what is before
it. -/
def surroundings (gap : Mark) : Lexing Scan.Surroundings := do
  let s ← get
  let last := s.ahead.back?.getD { content := .streamStart }
  let last :=
    if last.content = .comma then s.ahead[s.ahead.size - 2]?.getD last else last
  return {
    inFlow := s.inFlow
    indent := s.indents.head?.getD 0
    before := last.mark.index
    behindValue := last.content = .value
    gap }

/-- A comment that is behind a lexeme before the first item of a block sequence is above what the
item holds. -/
def liftComment : Lexing Unit := do
  let s ← get
  if s.atFirstItem && !(← scan Scan.peek).any isBreak then
    match s.cursor.comments.getLast? with
    | some c =>
      if c.place = .behind then
        let here := s.cursor.mark
        let owner := if c.start.line + 1 = here.line then here.index else c.owner
        let comments := s.cursor.comments.dropLast ++ [{ c with place := .above, owner }]
        modify fun s => { s with cursor := { s.cursor with comments } }
    | none => return ()

/-- Moves over what stands between lexemes. A tab can stand there where no key can start. If the
text that is held opens with a byte order mark, the first character of a line is passed over. -/
def toNext : Lexing Unit := do
  loop (← mark) (← scan Scan.bound)
where
  blanks : Nat → Lexing Unit
    | 0 => return ()
    | n + 1 => do
      let s ← get
      let c ← scan Scan.peek
      if c = some ' ' || (c = some '\t' && (s.inFlow || !s.keyAllowed)) then
        scan Scan.advance
        blanks n
  loop (gap : Mark) : Nat → Lexing Unit
    | 0 => return ()
    | n + 1 => do
      scan (Scan.want 1)
      if (← mark).column = 0 && (← get).cursor.opensWithMark then scan Scan.advance
      blanks (← scan Scan.bound)
      liftComment
      if (← scan Scan.peek) = some '#' then scan (Scan.skipComments (← surroundings gap))
      if (← scan Scan.peek).any isBreak then
        discard (scan Scan.newline)
        if !(← get).inFlow then allowKey true
        loop gap n

def closeAll : Lexing Unit := do
  closeBlocks none (← mark)
  dropKey
  allowKey false

def streamEnd : Lexing Unit := do
  let here ← mark
  if here.column ≠ 0 then
    modify fun s =>
      { s with cursor := { s.cursor with
          mark := { here with line := here.line + 1, column := 0 } } }
  closeAll
  put .streamEnd (← mark)

def readMark (width : Nat) (content : Lexeme.Content) : Lexing Unit := do
  let here ← mark
  scan (Scan.skipTo (here.index + width))
  put content here

def flowStart (content : Lexeme.Content) : Lexing Unit := do
  noteKey
  let here ← mark
  modify fun s =>
    { s with
      keys := { level := s.flowLevel + 1, number := s.nextNumber, mark := here } :: s.keys }
  if deepest < (← get).flowLevel then scan (Scan.fail here .tooDeep)
  allowKey true
  readMark 1 content

def flowEnd (content : Lexeme.Content) : Lexing Unit := do
  dropKey
  modify fun s =>
    match s.keys with
    | k :: outer :: more =>
      { s with keys := outer :: more, keptBack := s.keptBack.filter (·.1 ≠ k.number) }
    | _ => s
  allowKey false
  readMark 1 content

def comma : Lexing Unit := do
  dropKey
  allowKey true
  readMark 1 .comma

def item : Lexing Unit := do
  let here ← mark
  if !(← get).inFlow then
    if !(← get).keyAllowed then scan (Scan.fail here .itemNotAllowed)
    openBlock none .blockSequenceStart here
  dropKey
  allowKey true
  readMark 1 .item

def key : Lexing Unit := do
  let here ← mark
  let inFlow := (← get).inFlow
  if !inFlow then
    if !(← get).keyAllowed then scan (Scan.fail here .keyNotAllowed)
    openBlock none .blockMappingStart here
  dropKey
  allowKey !inFlow
  readMark 1 .key

/-- Reads the mark of a value. It makes a key of what is before it, unless the key has a mark of its
own. -/
def value : Lexing Unit := do
  let here ← mark
  let s ← get
  let k := s.keys.head?.getD {}
  if ← keyIsOpen s.flowLevel then
    putBefore k.number .key k.mark
    openBlock (some k.number) .blockMappingStart k.mark
    modify fun s =>
      { s with
        keys := { k with possible := false } :: s.keys.tail
        keptBack := s.keptBack.filter (·.1 ≠ k.number) }
    allowKey false
  else
    if !s.inFlow then
      if !s.keyAllowed then scan (Scan.fail here .valueNotAllowed)
      openBlock none .blockMappingStart here
    allowKey !s.inFlow
  readMark 1 .value

/-- Reads a lexeme that can be a key, behind which none can start on the same line. -/
def property (m : Scan Lexeme.Content) : Lexing Unit := do
  noteKey
  allowKey false
  let here ← mark
  put (← scan m) here

def plain : Lexing Unit := do
  noteKey
  allowKey false
  let s ← get
  let (text, broken) ← scan (Scan.plainScalar s.inFlow ((s.indents.head?.map (· + 1)).getD 0))
  if broken then allowKey true
  put (.scalar text true) s.cursor.mark

def block (literal : Bool) : Lexing Unit := do
  dropKey
  allowKey true
  let s ← get
  let least := (s.indents.head?.map (· + 1)).getD 0
  let text ← scan (Scan.blockScalar literal (s.indents.head?.getD 0) least)
  put (.scalar text false) s.cursor.mark

def ofFirst (c : Char) : Lexing Unit := do
  let inFlow := (← get).inFlow
  let alone ← scan (Scan.atGap 1)
  match c with
  | '[' => flowStart .flowSequenceStart
  | '\x7b' => flowStart .flowMappingStart
  | ']' => flowEnd .flowSequenceEnd
  | '\x7d' => flowEnd .flowMappingEnd
  | ',' => comma
  | '*' => property (Lexeme.Content.reference <$> Scan.anchorName)
  | '&' => property (Lexeme.Content.anchor <$> Scan.anchorName)
  | '!' => property Scan.tag
  | '"' => property ((Lexeme.Content.scalar · false) <$> Scan.quotedScalar '"')
  | '\'' => property ((Lexeme.Content.scalar · false) <$> Scan.quotedScalar '\'')
  | c =>
    if c = '-' && alone then item
    else if c = '?' && (inFlow || alone) then key
    else if c = ':' && (inFlow || alone) then value
    else if c = '|' && !inFlow then block true
    else if c = '>' && !inFlow then block false
    else if isBlank c || "#|>%@`".toList.contains c then scan (Scan.fail (← mark) .noLexeme)
    else plain

def next : Lexing Unit := do
  let before ← mark
  toNext
  let here ← mark
  closeBlocks (some here.column) before
  scan (Scan.want Scan.documentMarkWidth)
  match ← scan Scan.peek with
  | none => streamEnd
  | some c =>
    if here.column = 0 && c = '%' then
      closeAll
      put (← scan Scan.directive) here
    else if ← scan (Scan.atTriple '-') then
      closeAll
      readMark 3 .documentStart
    else if ← scan (Scan.atTriple '.') then
      closeAll
      readMark 3 .documentEnd
    else
      let s ← get
      let owner :=
        if c = if s.inFlow then ',' else ':' then (s.ahead.back?.map Lexeme.mark).getD here
        else here
      ofFirst c
      if ((← get).ahead.back?.map Lexeme.content) ≠ some .item then
        scan (Scan.skipLineComment owner.index)

def lookahead : Nat := 3

/-- Reads ahead until the first lexeme is certain. -/
def fill : Nat → Lexing Unit
  | 0 => return ()
  | n + 1 => do
    let s ← get
    if s.ahead.size < lookahead then
      next
      fill n
    else
      match s.keptBack.lookup s.taken with
      | some level =>
        if ← keyIsOpen level then
          next
          fill n
      | none => return ()

/-- The next lexeme, which is not taken. The comments that belong to it are handed over. -/
def peek : Lexing Lexeme := do
  fill (lookahead + (← scan Scan.bound))
  let s ← get
  let l := s.ahead[0]?.getD { content := .streamEnd, mark := s.cursor.mark }
  let (above, comments) :=
    Comment.handOver l.mark.index (l.content = .blockEnd) s.cursor.comments s.above
  set { s with above, cursor := { s.cursor with comments } }
  return l

def take : Lexing Unit :=
  modify fun s => { s with ahead := s.ahead.eraseIdxIfInBounds 0, taken := s.taken + 1 }

def changeAbove (f : List Char → List Char) : Lexing Unit :=
  modify fun s => { s with above := f s.above }

end Lexing

end MiniPascal.Yaml
