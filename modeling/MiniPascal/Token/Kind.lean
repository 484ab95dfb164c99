import MiniPascal.Text.Blank

/-!
# Kinds of tokens

A token is an identifier, a numeric constant, a keyword, one of eleven marks, or the end of the
file. Kinds are numbered in the order in which they are listed here; a number outside the list is
kept as it is, so that a kind can always be named in a message.
-/
namespace MiniPascal

inductive Kind
  | endOfFile
  | invalid
  | identifier
  | integerConst
  | realConst
  | programWord
  | varWord
  | procedureWord
  | beginWord
  | endWord
  | divWord
  | integerWord
  | realWord
  | openParen
  | closeParen
  | semicolon
  | dot
  | colon
  | comma
  | assign
  | plus
  | minus
  | star
  | slash
  | other (number : Int)
  deriving Repr, DecidableEq, Inhabited

namespace Kind

def listed : List Kind :=
  [endOfFile, invalid, identifier, integerConst, realConst, programWord, varWord, procedureWord,
    beginWord, endWord, divWord, integerWord, realWord, openParen, closeParen, semicolon, dot,
    colon, comma, assign, plus, minus, star, slash]

def ofNumber (n : Int) : Kind :=
  if n < 0 then other n else listed.getD n.toNat (other n)

/-- How messages and trees name a kind. Keywords and marks are named by their spelling. -/
def text : Kind → String
  | endOfFile => "end of file"
  | invalid => "INVALID"
  | identifier => "identifier"
  | integerConst => "integer constant"
  | realConst => "real constant"
  | programWord => "PROGRAM"
  | varWord => "VAR"
  | procedureWord => "PROCEDURE"
  | beginWord => "BEGIN"
  | endWord => "END"
  | divWord => "DIV"
  | integerWord => "INTEGER"
  | realWord => "REAL"
  | openParen => "("
  | closeParen => ")"
  | semicolon => ";"
  | dot => "."
  | colon => ":"
  | comma => ","
  | assign => ":="
  | plus => "+"
  | minus => "-"
  | star => "*"
  | slash => "/"
  | other n => "Kind(" ++ toString n ++ ")"

def keywords : List Kind :=
  [programWord, varWord, procedureWord, beginWord, endWord, divWord, integerWord, realWord]

def isKeyword (k : Kind) : Bool := keywords.contains k

def isBasicType (k : Kind) : Bool := k == integerWord || k == realWord

def isLiteral (k : Kind) : Bool := k == integerConst || k == realConst

def isSign (k : Kind) : Bool := k == plus || k == minus

def isProductOp (k : Kind) : Bool := k == star || k == divWord || k == slash

def ofWord? (word : String) : Option Kind :=
  keywords.find? fun k => k.text == String.ofList (word.toList.map Text.toUpper)

end Kind

end MiniPascal
