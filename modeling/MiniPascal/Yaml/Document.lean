import MiniPascal.Yaml.Lexeme.Stream
import MiniPascal.Yaml.Node

/-!
# Reading YAML documents

A document is read from the lexemes of a text. Only the first document of a text counts, and what
follows it is looked at no farther than the lexemes that are read ahead.

Behind the mark of an item that is below a comment, a lexeme that cannot be read is not the end at
once: reading goes on behind the failure, up to the start of the next node, and only another failure
takes the place of the first.
-/
namespace MiniPascal.Yaml

/-- What a name stands for: a node, or one that is not complete yet, by its number. -/
inductive Anchored
  | complete (node : Node)
  | incomplete (number : Nat) (outside : Node)
  deriving Inhabited

structure Reading where
  stream : LexemeStream
  /-- What the handles of tags stand for. -/
  handles : List (String × String) := []
  /-- The anchors, the latest first. -/
  anchors : List (String × Anchored) := []
  /-- How many anchored collections have been started. -/
  started : Nat := 0
  deriving Inhabited

structure Properties where
  anchor : Option String := none
  tag : Option String := none
  line : Nat
  deriving Repr, Inhabited

/-- The tag of a node by what is given; a lone exclamation mark gives none. -/
def Properties.tagOr (p : Properties) (own : String) : String :=
  match p.tag with
  | some tag => if tag = "!" then own else Node.shortTag tag
  | none => own

def Properties.isEmpty (p : Properties) : Bool := p.anchor.isNone && p.tag.isNone

abbrev Building := StateT Reading (Except Malformed)

namespace Building

def lex {α : Type} (m : Lexing α) : Building α := do
  let r ← get
  match m.run r.stream with
  | .ok a stream =>
    set { r with stream }
    return a
  | .error e stream => throw (stream.cursor.putOff.elim e e.behind)

def peek : Building Lexeme := lex Lexing.peek

def take : Building Unit := lex Lexing.take

def fail {α : Type} (construct : Nat) (problem : Problem) : Building α := do
  throw (.ofStructure construct (← peek).line problem)

def step : Building Lexeme := do
  take
  peek

def takeComments : Building Unit := lex (Lexing.changeAbove fun _ => [])

def peekOrPutOff : Building (Option Lexeme) := do
  let r ← get
  match Lexing.peek.run r.stream with
  | .ok l stream =>
    set { r with stream }
    return some l
  | .error e stream =>
    set { r with stream }
    lex (Lexing.scan (Scan.putOff e))
    return none

/-- Fails if a failure has been put off. This is the case wherever a part of the document starts or
ends. -/
def settle : Building Unit := do
  if let some e := (← get).stream.cursor.putOff then throw e

/-- Takes the mark of an item and looks at the lexeme behind it. Comments above an item that is a
block are comments above the block. -/
def stepIntoItem : Building Lexeme := do
  let above := (← get).stream.above.length
  take
  if 0 < above then
    let next ← peekOrPutOff
    if next.any fun l => l.content = .blockSequenceStart || l.content = .blockMappingStart then
      lex (Lexing.changeAbove (·.drop (above + 1)))
  peek

def empty (line : Nat) : Building Node := do
  settle
  return .scalar (Node.ownTag "" true) "" (line + 1)

def close : Building Unit := do
  take
  settle

def name (anchor : Option String) (a : Anchored) : Building Unit :=
  match anchor with
  | some anchor => modify fun r => { r with anchors := (anchor, a) :: r.anchors }
  | none => return ()

/-- A collection whose inside is read with its anchor known. -/
def around (anchor : Option String) (outside : Node) (inside : Building Node) : Building Node := do
  let number := (← get).started
  modify fun r => { r with started := number + 1 }
  name anchor (.incomplete number outside)
  let node ← inside
  let complete (entry : String × Anchored) : String × Anchored :=
    match entry with
    | (anchor, .incomplete n outside) =>
      (anchor, if n = number then .complete node else .incomplete n outside)
    | entry => entry
  modify fun r => { r with anchors := r.anchors.map complete }
  return node

def referenced (anchor : String) (line : Nat) : Building Node := do
  match (← get).anchors.lookup anchor with
  | some (.complete node) => return .reference anchor false node (line + 1)
  | some (.incomplete _ outside) => return .reference anchor true outside (line + 1)
  | none => throw { problem := .unknownAnchor anchor }

def expandTag (handle suffix : String) (line tagLine : Nat) : Building String := do
  if handle.isEmpty then return suffix
  match (← get).handles.lookup handle with
  | some path => return path ++ suffix
  | none => throw (.ofStructure line tagLine .undefinedHandle)

def properties : Building Properties := do
  let first ← peek
  let line := first.line
  match first.content with
  | .anchor anchor =>
    let second ← step
    match second.content with
    | .tag handle suffix =>
      discard step
      let tag ← expandTag handle suffix line second.line
      return { anchor := some anchor, tag := some tag, line }
    | _ => return { anchor := some anchor, line }
  | .tag handle suffix =>
    let second ← step
    match second.content with
    | .anchor anchor =>
      discard step
      let tag ← expandTag handle suffix line line
      return { anchor := some anchor, tag := some tag, line }
    | _ =>
      let tag ← expandTag handle suffix line line
      return { tag := some tag, line }
  | _ => return { line }

def finish (p : Properties) (node : Node) : Building Node := do
  name p.anchor (.complete node)
  return node

def startsNode (inBlock behindKey : Bool) : Lexeme.Content → Bool
  | .scalar .. | .flowSequenceStart | .flowMappingStart => true
  | .blockSequenceStart | .blockMappingStart => inBlock
  | .item => behindKey
  | _ => false

def endsBlockEntry (c : Lexeme.Content) : Bool := c = .key || c = .value || c = .blockEnd

def endsSequenceEntry (c : Lexeme.Content) : Bool := c = .comma || c = .flowSequenceEnd

def endsMappingEntry (c : Lexeme.Content) : Bool := c = .comma || c = .flowMappingEnd

mutual

/-- Reads a node. Outside of flow collections it can be a block, and behind a key an item can stand
at the column of the key. The number bounds the work. -/
def node (inBlock behindKey : Bool) : Nat → Building Node
  | 0 => fail 0 .noContent
  | n + 1 => do
    let first ← peek
    if let .reference anchor := first.content then
      takeComments
      take
      settle
      return ← referenced anchor first.line
    let p ← properties
    let l ← peek
    if p.isEmpty && !startsNode inBlock behindKey l.content then fail p.line .noContent
    settle
    let sequenceOutside : Node := .sequence (p.tagOr Node.sequenceTag) [] (p.line + 1)
    let mappingOutside : Node := .mapping (p.tagOr Node.mappingTag) [] (p.line + 1)
    let sequence (items : Building (List Node)) : Building Node :=
      around p.anchor sequenceOutside do
        return .sequence (p.tagOr Node.sequenceTag) (← items) (p.line + 1)
    let mapping (entries : Building (List (Node × Node))) : Building Node :=
      around p.anchor mappingOutside do
        return .mapping (p.tagOr Node.mappingTag) (← entries) (p.line + 1)
    match l.content, inBlock, behindKey with
    | .item, _, true => sequence (bareItems n)
    | .scalar text plain, _, _ =>
      takeComments
      take
      finish p (.scalar (p.tagOr (Node.ownTag text plain)) text (p.line + 1))
    | .flowSequenceStart, _, _ =>
      takeComments
      take
      sequence (flowItems l.line true n)
    | .flowMappingStart, _, _ =>
      takeComments
      take
      mapping (flowEntries l.line true n)
    | .blockSequenceStart, true, _ =>
      take
      sequence (blockItems l.line n)
    | .blockMappingStart, true, _ =>
      take
      mapping (blockEntries l.line n)
    | _, _, _ => finish p (.scalar (p.tagOr (Node.ownTag "" true)) "" (p.line + 1))
termination_by structural n => n

def blockItems (start : Nat) : Nat → Building (List Node)
  | 0 => return []
  | n + 1 => do
    let l ← peek
    match l.content with
    | .item =>
      let next ← stepIntoItem
      let first ←
        if next.content = .item || next.content = .blockEnd then empty l.line
        else node true false n
      return first :: (← blockItems start n)
    | .blockEnd =>
      close
      return []
    | _ => fail start .noItem
termination_by structural n => n

/-- Reads items that are no deeper than the key before them. -/
def bareItems : Nat → Building (List Node)
  | 0 => return []
  | n + 1 => do
    let l ← peek
    match l.content with
    | .item =>
      let next ← stepIntoItem
      let first ←
        if next.content = .item || endsBlockEntry next.content then empty l.line
        else node true false n
      return first :: (← bareItems n)
    | _ =>
      settle
      return []
termination_by structural n => n

def blockEntries (start : Nat) : Nat → Building (List (Node × Node))
  | 0 => return []
  | n + 1 => do
    let l ← peek
    match l.content with
    | .key =>
      let next ← step
      let k ← if endsBlockEntry next.content then empty l.line else node true true n
      let v ← blockValue n
      return (k, v) :: (← blockEntries start n)
    | .blockEnd =>
      takeComments
      close
      return []
    | _ => fail start .noKey
termination_by structural n => n

def blockValue : Nat → Building Node
  | 0 => fail 0 .noContent
  | n + 1 => do
    let l ← peek
    if l.content = .value then
      let next ← step
      if endsBlockEntry next.content then empty l.line else node true true n
    else empty l.line
termination_by structural n => n

def flowItems (start : Nat) (isFirst : Bool) : Nat → Building (List Node)
  | 0 => return []
  | n + 1 => do
    let l ← peek
    if l.content = .flowSequenceEnd then
      takeComments
      close
      return []
    let l ←
      if isFirst then pure l
      else if l.content = .comma then step
      else fail start .noCommaOrBracket
    match l.content with
    | .flowSequenceEnd =>
      takeComments
      close
      return []
    | .key =>
      take
      settle
      let pair ← flowPair n
      let entry : Node := .mapping Node.mappingTag [pair] (l.line + 1)
      return entry :: (← flowItems start false n)
    | _ =>
      let first ← node false false n
      return first :: (← flowItems start false n)
termination_by structural n => n

/-- Reads an entry that stands alone as an item of a flow sequence, behind the mark of its key. -/
def flowPair : Nat → Building (Node × Node)
  | 0 => fail 0 .noContent
  | n + 1 => do
    let l ← peek
    let k ←
      if l.content = .value || endsSequenceEntry l.content then
        take
        empty l.line
      else node false false n
    let l ← peek
    let v ←
      if l.content = .value then
        let next ← step
        if endsSequenceEntry next.content then empty next.line else node false false n
      else empty l.line
    discard peek
    settle
    return (k, v)
termination_by structural n => n

def flowEntries (start : Nat) (isFirst : Bool) : Nat → Building (List (Node × Node))
  | 0 => return []
  | n + 1 => do
    let l ← peek
    if l.content = .flowMappingEnd then
      takeComments
      close
      return []
    let l ←
      if isFirst then pure l
      else if l.content = .comma then step
      else fail start .noCommaOrBrace
    match l.content with
    | .flowMappingEnd =>
      takeComments
      close
      return []
    | .key =>
      let next ← step
      let k ←
        if next.content = .value || endsMappingEntry next.content then empty next.line
        else node false false n
      let v ← flowValue n
      return (k, v) :: (← flowEntries start false n)
    | _ =>
      let k ← node false false n
      let v ← empty (← peek).line
      return (k, v) :: (← flowEntries start false n)
termination_by structural n => n

def flowValue : Nat → Building Node
  | 0 => fail 0 .noContent
  | n + 1 => do
    let l ← peek
    if l.content = .value then
      let next ← step
      if endsMappingEntry next.content then empty next.line else node false false n
    else empty l.line
termination_by structural n => n

end

def standardHandles : List (String × String) :=
  [("!", "!"), ("!!", Node.standardPrefix)]

def directives : Nat → (versionGiven : Bool) → Building Unit
  | 0, _ => return ()
  | n + 1, versionGiven => do
    let l ← peek
    match l.content with
    | .version major minor =>
      if versionGiven then fail 0 .repeatedVersion
      if major ≠ 1 || minor ≠ 1 then fail 0 .otherVersion
      take
      directives n true
    | .tagDirective handle path =>
      if ((← get).handles.lookup handle).isSome then fail 0 .repeatedTagDirective
      modify fun r => { r with handles := r.handles ++ [(handle, path)] }
      take
      directives n versionGiven
    | _ => return ()

def isOutside : Lexeme.Content → Bool
  | .version .. => true
  | .tagDirective .. => true
  | .documentStart => true
  | .documentEnd => true
  | .streamEnd => true
  | _ => false

def document (bound : Nat) : Building (Option Node) := do
  discard peek
  settle
  let l ← step
  if l.content = .streamEnd then
    settle
    return none
  let marked := isOutside l.content && l.content ≠ .documentEnd
  if marked then
    directives bound false
    if (← peek).content ≠ .documentStart then fail 0 .noDocumentStart
    take
  else lex (Lexing.changeAbove Comment.belowEmptyLine)
  settle
  modify fun r => { r with handles := r.handles ++ standardHandles }
  let l ← peek
  let root ← if marked && isOutside l.content then empty l.line else node true false bound
  discard peek
  settle
  return some root

end Building

def read (bytes : Bytes) : Except Malformed (Option Node) := do
  let source := Source.ofBytes bytes
  let bound := 4 * source.size + 16
  let (root, _) ← (Building.document bound).run { stream := .ofSource source }
  return root

end MiniPascal.Yaml
