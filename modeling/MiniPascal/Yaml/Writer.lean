import MiniPascal.Text.Quoted
import MiniPascal.Yaml.Cursor
import MiniPascal.Yaml.Scalar

/-!
# Writing YAML

Documents are written in block style, each level two columns deeper. A string is written plain
where that reads back as the same string; it is put in double quotes if it would read as another
type or holds what only an escape can show, in single quotes if a mark of the notation stands in
the way, and as a literal block if it has several lines.
-/
namespace MiniPascal.Yaml

/-- A document to be written. Numbers and truth values are given by their text. -/
inductive Doc
  | plain (text : String)
  | string (s : String)
  | mapping (entries : List (String × Doc))
  | sequence (items : List Doc)
  deriving Repr, Inhabited

def isWritable (c : Char) : Bool :=
  let n := c.toNat
  (0x20 ≤ n && n ≤ 0x7E) || (0xA0 ≤ n && n ≤ 0xD7FF) || (0xE000 ≤ n && n ≤ 0xFFFD && n ≠ 0xFEFF)

def isReserved (c : Char) : Bool :=
  "#,[]\x7b\x7d&*!|>'\"%@`".toList.contains c

/-- Whether a colon with a blank behind it, or a hash with a blank before it, is in a text. -/
def hasInnerMark : List Char → Bool
  | ':' :: ' ' :: _ => true
  | [':'] => true
  | ' ' :: '#' :: _ => true
  | _ :: rest => hasInnerMark rest
  | [] => false

def hasMark : List Char → Bool
  | [] => false
  | c :: rest =>
    isReserved c || ((c = '?' || c = '-') && (rest.isEmpty || rest.head? = some ' ')) ||
      "---".toList.isPrefixOf (c :: rest) || "...".toList.isPrefixOf (c :: rest) ||
      hasInnerMark (c :: rest)

def hasSpaceAtBreak (before : Bool) : List Char → Bool
  | c :: d :: rest =>
    (if before then c = ' ' && isBreak d else isBreak c && d = ' ') ||
      hasSpaceAtBreak before (d :: rest)
  | _ => false

def needsEscape (c : Char) : Bool := !isWritable c && c ≠ '\n' && c ≠ '\t'

def canBeLiteral (cs : List Char) : Bool :=
  !cs.any needsEscape && cs.getLast? ≠ some ' ' && !hasSpaceAtBreak true cs

def canBeSingleQuoted (cs : List Char) : Bool :=
  !cs.any (fun c => needsEscape c || c = '\t') && !hasSpaceAtBreak true cs &&
    !hasSpaceAtBreak false cs

def canBePlain (cs : List Char) : Bool :=
  canBeSingleQuoted cs && !cs.any isBreak && cs.head? ≠ some ' ' && cs.getLast? ≠ some ' ' &&
    !hasMark cs

def startsBase60 : List Char → Bool
  | [] => false
  | c :: rest => c.isDigit && rest.all fun d => d.isDigit || d = '_'

def isBase60Place : List Char → Bool
  | [c] => c.isDigit
  | [c, d] => c.isDigit && c < '6' && d.isDigit
  | _ => false

/-- Whether a text is a number in base sixty: its places, of which there are at least two, are
divided by colons, and there can be a fraction behind the last one. -/
def isBase60 (text : List Char) : Bool :=
  let unsigned := match text with
    | '-' :: rest => rest
    | '+' :: rest => rest
    | rest => rest
  let whole := unsigned.takeWhile (· ≠ '.')
  let fraction := (unsigned.drop whole.length).drop 1
  match whole.splitOn ':' with
  | first :: second :: more =>
    startsBase60 first && (second :: more).all isBase60Place &&
      fraction.all fun c => c.isDigit || c = '_'
  | _ => false

/-- Whether a string would be read as something other than a string, here or by an older reader. -/
def isAmbiguous (s : String) : Bool :=
  tagOf s ≠ .str || oldTrueWords.contains s || oldFalseWords.contains s || isBase60 s.toList

def escapeLetter? (c : Char) : Option Char :=
  match c.toNat with
  | 0x00 => some '0'
  | 0x07 => some 'a'
  | 0x08 => some 'b'
  | 0x09 => some 't'
  | 0x0A => some 'n'
  | 0x0B => some 'v'
  | 0x0C => some 'f'
  | 0x0D => some 'r'
  | 0x1B => some 'e'
  | 0x22 => some '"'
  | 0x5C => some '\\'
  | 0x85 => some 'N'
  | 0xA0 => some '_'
  | 0x2028 => some 'L'
  | 0x2029 => some 'P'
  | _ => none

def escapeChar (c : Char) : String :=
  match escapeLetter? c with
  | some letter => String.ofList ['\\', letter]
  | none =>
    if c.toNat < 0x100 then "\\x" ++ (Text.hex 2 c.toNat).toUpper
    else if c.toNat < 0x10000 then "\\u" ++ (Text.hex 4 c.toNat).toUpper
    else "\\U" ++ (Text.hex 8 c.toNat).toUpper

def quotedChar (c : Char) : String :=
  if isWritable c && c ≠ '"' && c ≠ '\\' && !isSeparator c then String.singleton c
  else escapeChar c

/-- A string in double quotes. All of a string that starts with a byte order mark is escaped. -/
def doubleQuoted (s : String) : String :=
  let shown := if s.toList.head?.any isByteOrderMark then escapeChar else quotedChar
  "\"" ++ String.join (s.toList.map shown) ++ "\""

def pad (n : Nat) : String := String.ofList (List.replicate n ' ')

/-- The characters of a single-quoted string. A line that does not start the string is indented.
`broken` says that a line has just ended. -/
def singleQuotedFrom (indent : Nat) (broken : Bool) : List Char → String
  | [] => ""
  | c :: rest =>
    if isBreak c then String.singleton c ++ singleQuotedFrom indent true rest
    else
      (if broken then pad indent else "") ++
        (if c = '\'' then "''" else String.singleton c) ++ singleQuotedFrom indent false rest

def singleQuoted (indent : Nat) (s : String) : String :=
  "'" ++ singleQuotedFrom indent false s.toList ++ "'"

/-- The marks behind that of a literal block: its depth if the first line does not show it, and how
the line breaks at its end count. -/
def literalHeader (cs : List Char) : String :=
  (if cs.head?.any fun c => c = ' ' || isBreak c then "2" else "") ++
    match cs.reverse with
    | [] => "-"
    | [c] => if isBreak c then "+" else "-"
    | c :: d :: _ => if !isBreak c then "-" else if isBreak d then "+" else ""

/-- The lines of a literal block. `broken` says that a line has just ended, and `atHeader` that it
is the line of the header that has to end first. -/
def literalFrom (indent : Nat) (broken atHeader : Bool) : List Char → String
  | [] => ""
  | c :: rest =>
    if isBreak c then String.singleton c ++ literalFrom indent true false rest
    else
      (if atHeader then "\n" else "") ++ (if broken then pad indent else "") ++
        String.singleton c ++ literalFrom indent false false rest

def literal (indent : Nat) (s : String) : String :=
  "|" ++ literalHeader s.toList ++ literalFrom indent true true s.toList

def scalarText (indent : Nat) (s : String) : String :=
  if s.contains '\n' then if canBeLiteral s.toList then literal indent s else doubleQuoted s
  else if isAmbiguous s then doubleQuoted s
  else if canBePlain s.toList then s
  else if canBeSingleQuoted s.toList then singleQuoted indent s
  else doubleQuoted s

def endLine (text : String) : String :=
  if text.toList.getLast?.any isBreak then text else text ++ "\n"

def longestSimpleKey : Nat := 128

def isSimpleKey (key : String) : Bool :=
  key.utf8ByteSize ≤ longestSimpleKey && !key.toList.any isBreak

def Doc.isInline : Doc → Bool
  | .plain _ => true
  | .string _ => true
  | .mapping entries => entries.isEmpty
  | .sequence items => items.isEmpty

/-- A key with the colon behind it, and what leads to its value. -/
def keyText (indent : Nat) (key : String) (isInline : Bool) : String :=
  if isSimpleKey key then
    scalarText (indent + 2) key ++ ":" ++ if isInline then " " else "\n" ++ pad (indent + 2)
  else "? " ++ endLine (scalarText (indent + 2) key) ++ pad indent ++ ": "

mutual

def Doc.textAt (indent : Nat) : Doc → String
  | .plain text => text ++ "\n"
  | .string s => endLine (scalarText indent s)
  | .mapping [] => "\x7b\x7d\n"
  | .mapping (entry :: more) =>
    Doc.entryText indent entry ++ Doc.entriesText indent more
  | .sequence [] => "[]\n"
  | .sequence (item :: more) =>
    "- " ++ item.textAt (indent + 2) ++ Doc.itemsText indent more

def Doc.entryText (indent : Nat) : String × Doc → String
  | (key, value) => keyText indent key value.isInline ++ value.textAt (indent + 2)

def Doc.entriesText (indent : Nat) : List (String × Doc) → String
  | [] => ""
  | entry :: rest => pad indent ++ Doc.entryText indent entry ++ Doc.entriesText indent rest

def Doc.itemsText (indent : Nat) : List Doc → String
  | [] => ""
  | item :: rest =>
    pad indent ++ "- " ++ item.textAt (indent + 2) ++ Doc.itemsText indent rest

end

def Doc.render (d : Doc) : String := d.textAt 0

end MiniPascal.Yaml
