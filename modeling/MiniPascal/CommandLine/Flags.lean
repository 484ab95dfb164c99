import MiniPascal.Text.Blank
import MiniPascal.Text.Quoted

/-!
# Flags and commands

Flags may stand before and behind the name of the command and among its arguments; `--` ends them.
A flag is spelled with two dashes, or with one dash and a letter if it has one. A switch takes a
value only behind an equals sign; any other flag also takes the rest of its word or the next word.

The first word that is neither a flag nor the value of one names the command.
-/
namespace MiniPascal

inductive Flag
  | config
  | scope
  | stack
  | format
  | help
  deriving Repr, DecidableEq, Inhabited

namespace Flag

def name : Flag → String
  | config => "config"
  | scope => "scope"
  | stack => "stack"
  | format => "format"
  | help => "help"

def letter? : Flag → Option Char
  | config => some 'c'
  | format => some 'f'
  | help => some 'h'
  | scope | stack => none

/-- Whether the flag can stand without a value. -/
def isSwitch : Flag → Bool
  | scope | stack | help => true
  | config | format => false

def all : List Flag := [config, scope, stack, format, help]

def ofName? (s : String) : Option Flag := all.find? fun f => f.name == s

def ofLetter? (c : Char) : Option Flag := all.find? fun f => f.letter? == some c

def spelled (f : Flag) : String :=
  match f.letter? with
  | some c => "-" ++ String.singleton c ++ ", --" ++ f.name
  | none => "--" ++ f.name

end Flag

inductive Command
  | run
  | resolve
  | tokens
  | repl
  deriving Repr, DecidableEq, Inhabited

namespace Command

def name : Command → String
  | run => "run"
  | resolve => "resolve"
  | tokens => "tokens"
  | repl => "repl"

def all : List Command := [run, resolve, tokens, repl]

def ofName? (s : String) : Option Command := all.find? fun c => c.name == s

end Command

def programName : String := "spi"

inductive UsageError
  | badSyntax (word : String)
  | unknownFlag (name : String)
  | unknownLetter (letter : Char) (letters : String)
  | needsArgument (word : String)
  | letterNeedsArgument (letter : Char) (letters : String)
  | badSwitch (value : String) (flag : Flag)
  | argumentCount (wanted received : Nat)
  | unexpectedArgument (word : String) (command : Command)
  | unknownCommand (word : String) (suggestions : List String)
  deriving Repr, DecidableEq, Inhabited

namespace UsageError

def quoted (s : String) : String := Text.quote (Text.encode s)

def suggestionText (suggestions : List String) : String :=
  if suggestions.isEmpty then ""
  else "\n\nDid you mean this?\n" ++ String.join (suggestions.map fun s => "\t" ++ s ++ "\n")

def message : UsageError → String
  | badSyntax word => "bad flag syntax: " ++ word
  | unknownFlag name => "unknown flag: --" ++ name
  | unknownLetter letter letters =>
    "unknown shorthand flag: " ++ Text.quoteChar letter ++ " in -" ++ letters
  | needsArgument word => "flag needs an argument: " ++ word
  | letterNeedsArgument letter letters =>
    "flag needs an argument: " ++ Text.quoteChar letter ++ " in -" ++ letters
  | badSwitch value flag =>
    "invalid argument " ++ quoted value ++ " for " ++ quoted flag.spelled ++
      " flag: strconv.ParseBool: parsing " ++ quoted value ++ ": invalid syntax"
  | argumentCount wanted received =>
    "accepts " ++ toString wanted ++ " arg(s), received " ++ toString received
  | unexpectedArgument word command =>
    "unknown command " ++ quoted word ++ " for " ++ quoted (programName ++ " " ++ command.name)
  | unknownCommand word suggestions =>
    "unknown command " ++ quoted word ++ " for " ++ quoted programName ++ suggestionText suggestions

end UsageError

structure Flags where
  config : String := ""
  scope : Option Bool := none
  stack : Option Bool := none
  format : Option String := none
  help : Bool := false
  args : List String := []
  deriving Repr, DecidableEq, Inhabited

namespace Flags

def truth? (s : String) : Option Bool :=
  if ["1", "t", "T", "TRUE", "true", "True"].contains s then some true
  else if ["0", "f", "F", "FALSE", "false", "False"].contains s then some false
  else none

def set (f : Flags) (flag : Flag) (value : String) : Except UsageError Flags :=
  let switch (g : Bool → Flags) : Except UsageError Flags :=
    match truth? value with
    | some b => .ok (g b)
    | none => .error (.badSwitch value flag)
  match flag with
  | .config => .ok { f with config := value }
  | .format => .ok { f with format := some value }
  | .scope => switch fun b => { f with scope := some b }
  | .stack => switch fun b => { f with stack := some b }
  | .help => switch fun b => { f with help := b }

def splitValue (s : List Char) : List Char × Option (List Char) :=
  let name := s.takeWhile (· ≠ '=')
  match s.drop name.length with
  | [] => (name, none)
  | _ :: value => (name, some value)

/-- The letter that a message names where no flag has it: that of the first byte alone. -/
def firstByte (c : Char) : Char :=
  match Text.encode (String.singleton c) with
  | b :: _ => Char.ofNat b.toNat
  | [] => c

/-- Reads a word of flags behind a single dash; `next` is the word behind it. The answer says
whether that word was used up. -/
def readLetters (f : Flags) (next : Option String) : List Char → Except UsageError (Flags × Bool)
  | [] => .ok (f, false)
  | c :: rest =>
    let letters := String.ofList (c :: rest)
    if "test.".toList.isPrefixOf (c :: rest) then .ok (f, false)
    else
      match Flag.ofLetter? c with
      | none => .error (.unknownLetter (firstByte c) letters)
      | some flag =>
        match rest with
        | '=' :: d :: value => do return (← f.set flag (String.ofList (d :: value)), false)
        | _ =>
          if flag.isSwitch then do
            let f ← f.set flag "true"
            readLetters f next rest
          else
            match rest, next with
            | _ :: _, _ => do return (← f.set flag (String.ofList rest), false)
            | [], some word => do return (← f.set flag word, true)
            | [], none => .error (.letterNeedsArgument c letters)

def readName (f : Flags) (next : Option String) (spelled : List Char) :
    Except UsageError (Flags × Bool) :=
  let word := "--" ++ String.ofList spelled
  if spelled.head? = some '-' ∨ spelled.head? = some '=' then .error (.badSyntax word)
  else
    let (name, value) := splitValue spelled
    match Flag.ofName? (String.ofList name) with
    | none => .error (.unknownFlag (String.ofList name))
    | some flag =>
      match value, next with
      | some value, _ => do return (← f.set flag (String.ofList value), false)
      | none, some word =>
        if flag.isSwitch then do return (← f.set flag "true", false)
        else do return (← f.set flag word, true)
      | none, none =>
        if flag.isSwitch then do return (← f.set flag "true", false)
        else .error (.needsArgument word)

/-- Reads all flags. `used` says that the first word has been used up as a value. -/
def read (f : Flags) (used : Bool) : List String → Except UsageError Flags
  | [] => .ok f
  | word :: rest =>
    if used then read f false rest
    else
      match word.toList with
      | ['-', '-'] => .ok { f with args := f.args ++ rest }
      | '-' :: '-' :: spelled => do
        let (f, used) ← f.readName rest.head? spelled
        read f used rest
      | '-' :: c :: letters => do
        let (f, used) ← f.readLetters rest.head? (c :: letters)
        read f used rest
      | _ => read { f with args := f.args ++ [word] } false rest

/-- Whether a word is a flag whose value is the next word. The search for the command takes any
unknown flag for one. -/
def takesNext (word : String) : Bool :=
  match word.toList with
  | '-' :: '-' :: name =>
    !name.contains '=' &&
      !((Flag.ofName? (String.ofList name)).any fun f => f = .scope || f = .stack)
  | ['-', c] => c ≠ '=' && c.toNat < 0x80
  | _ => false

/-- The words that are neither flags nor values of flags, as far as the search for the command
sees them: a flag with at most one word behind it ends the search. -/
def commandWords : List String → List String
  | [] => []
  | word :: rest =>
    if word = "--" then []
    else if takesNext word then
      match rest with
      | _ :: next :: more => commandWords (next :: more)
      | _ => []
    else if word ≠ "" && !word.startsWith "-" then word :: commandWords rest
    else commandWords rest

def withoutCommand (name : String) : List String → List String
  | [] => []
  | word :: rest =>
    if word = "--" then word :: rest
    else if takesNext word then
      match rest with
      | value :: more => word :: value :: withoutCommand name more
      | [] => [word]
    else if word = name then rest
    else word :: withoutCommand name rest

end Flags

def editDistance (s t : Bytes) : Nat :=
  let nextRow (row : List Nat) (b : UInt8) : List Nat :=
    let first := row.headD 0 + 1
    let cells := (row.zip (row.tail.zip t)).foldl
      (fun (cells : List Nat × Nat) (diagonal, above, c) =>
        let cell := min (min (above + 1) (cells.2 + 1)) (diagonal + if b = c then 0 else 1)
        (cell :: cells.1, cell)) ([first], first)
    cells.1.reverse
  (s.foldl nextRow (List.range (t.length + 1))).getLastD 0

/-- The commands that a mistyped word may have meant: those within two edits, in any letter case,
and those that start with the word. -/
def suggestions (word : String) : List String :=
  let lower := String.ofList (word.toList.map Text.toLower)
  (Command.all.map Command.name ++ ["completion"]).filter fun name =>
    editDistance (Text.encode lower) (Text.encode name) ≤ 2 || lower.toList.isPrefixOf name.toList

end MiniPascal
