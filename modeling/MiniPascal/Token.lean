import MiniPascal.Position
import MiniPascal.Token.Kind

/-!
# Tokens

A token has a kind, a position, and for identifiers, keywords and constants the lexeme found in
the source. Marks and the end of the file carry no lexeme.

Its `index` is its place among all tokens read so far. Tokens of different trees never share one,
which is how a node of a tree is told from an equal node elsewhere.
-/
namespace MiniPascal

structure Token where
  kind : Kind
  lexeme : Option String := none
  pos : Position
  index : Nat := 0
  deriving Repr, DecidableEq, Inhabited

namespace Token

def lexemeText (t : Token) : String := t.lexeme.getD ""

def name (t : Token) : String :=
  if t.kind = .identifier then t.lexemeText else t.kind.text

/-- The spelling of a token in a source text, keywords in upper case. -/
def text (t : Token) : String :=
  match t.kind with
  | .identifier | .integerConst | .realConst => t.lexemeText
  | .endOfFile | .invalid => ""
  | k => k.text

def joined (tokens : List Token) : String :=
  String.intercalate " " (tokens.map text)

def listing (t : Token) : String :=
  t.lexemeText ++ " | " ++ t.kind.text ++ " | " ++ t.pos.bracketed

def described (t : Token) : String :=
  match t.kind with
  | .identifier | .integerConst | .realConst => t.kind.text ++ " '" ++ t.lexemeText ++ "'"
  | .endOfFile => t.kind.text
  | k => "'" ++ k.text ++ "'"

end Token

end MiniPascal
