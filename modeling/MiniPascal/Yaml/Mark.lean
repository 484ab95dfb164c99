/-!
# Places in a YAML text
-/
namespace MiniPascal.Yaml

/-- A place in a text, counted in characters from zero. -/
structure Mark where
  index : Nat := 0
  line : Nat := 0
  column : Nat := 0
  deriving Repr, DecidableEq, Inhabited

end MiniPascal.Yaml
