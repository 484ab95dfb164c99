import MiniPascal.Yaml.Mark

/-!
# Lexemes of YAML

The marks, properties and scalars that a text consists of. The start and the end of a block are
lexemes too, though only the indentation shows them, and so is the mark of a key that only the
colon behind it shows.
-/
namespace MiniPascal.Yaml

namespace Lexeme

inductive Content
  | streamStart
  | streamEnd
  | version (major minor : Nat)
  | tagDirective (handle path : String)
  | documentStart
  | documentEnd
  | blockSequenceStart
  | blockMappingStart
  | blockEnd
  | flowSequenceStart
  | flowSequenceEnd
  | flowMappingStart
  | flowMappingEnd
  | item
  | comma
  | key
  | value
  | reference (name : String)
  | anchor (name : String)
  | tag (handle suffix : String)
  | scalar (text : String) (plain : Bool)
  deriving Repr, DecidableEq, Inhabited

end Lexeme

structure Lexeme where
  content : Lexeme.Content
  mark : Mark := {}
  deriving Repr, DecidableEq, Inhabited

def Lexeme.line (l : Lexeme) : Nat := l.mark.line

end MiniPascal.Yaml
