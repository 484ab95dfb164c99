import MiniPascal.Stage
import MiniPascal.Token.Stream

/-!
# Reading tokens on demand

The first stage moves a cursor over the source, one token at a time. Where no token can be read it
reports why.
-/
namespace MiniPascal

abbrev Lexing := Stage Diagnostic Cursor

namespace Lexing

def skip : Lexing Unit := do
  let c ← Stage.ask id
  let (opened, pos, rest) := Cursor.skipFrom none c.pos c.rest
  Stage.change fun c => { c with pos, rest }
  match opened with
  | none => return
  | some start => Stage.fail { cause := .unterminatedComment, pos := start }

def token : Lexing Token := do
  let c ← Stage.ask id
  match c.rest with
  | [] => return { kind := .endOfFile, pos := c.pos, index := c.index }
  | b :: rest =>
    match Cursor.tokenAt? b rest with
    | some (kind, lexeme, length) =>
      Stage.change fun c => c.afterToken length
      return { kind, lexeme, pos := c.pos, index := c.index }
    | none =>
      Stage.fail { cause := .invalidCharacter (Text.firstPiece b rest).1.toChar, pos := c.pos }

def next : Lexing Token := do
  skip
  token

/-- The outcomes of a number of attempts to read a token, going on after a failure. -/
def attempts : Nat → Cursor × Journal → List (Except Diagnostic Token) × Journal
  | 0, (_, j) => ([], j)
  | n + 1, s =>
    let (outcome, s) := next s
    let (outcomes, j) := attempts n s
    (outcome :: outcomes, j)

end Lexing

end MiniPascal
