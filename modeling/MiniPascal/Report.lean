import MiniPascal.Config
import MiniPascal.Execution
import MiniPascal.Resolution.Annotating
import MiniPascal.Yaml.KeyOrder

/-!
# Printed results

Results are printed as text or as YAML. In YAML the keys of bindings are in the natural order, and
a real is written without the dot that sets it apart from an integer.
-/
namespace MiniPascal

def Yaml.realStyle : RealStyle :=
  { infinity := ".inf", negativeInfinity := "-.inf", notANumber := ".nan", wholeSuffix := "" }

def Value.doc : Value → Yaml.Doc
  | .int n => .plain (toString n.toInt)
  | .real x => .plain (Yaml.realStyle.text x)

namespace Bindings

def doc (b : Bindings) : Yaml.Doc :=
  .mapping ((Yaml.sortByKey b).map fun (name, value) => (name, value.doc))

def print (b : Bindings) : Format → String
  | .text => b.text
  | .yaml => b.doc.render

end Bindings

/-- An entry of a mapping that is left out if its string is empty. -/
def optionalEntry (key value : String) : List (String × Yaml.Doc) :=
  if value.isEmpty then [] else [(key, .string value)]

def Symbol.doc (s : Symbol) : Yaml.Doc :=
  .mapping ([("name", .string s.name), ("kind", .string s.sort)] ++
    optionalEntry "type" s.typeName ++ [("level", .plain (toString s.level))])

namespace Resolved

def doc (r : Resolved) : Yaml.Doc :=
  .mapping [("program", .string r.output),
    ("globals", .sequence (r.resolution.globals.symbols.map Symbol.doc))]

def print (r : Resolved) : Format → String
  | .text => r.output
  | .yaml => r.doc.render

end Resolved

namespace Token

def doc (t : Token) : Yaml.Doc :=
  .mapping ([("kind", .string t.kind.text)] ++ optionalEntry "text" t.text ++
    [("line", .plain (toString t.pos.line)), ("column", .plain (toString t.pos.column))])

def printAll (tokens : List Token) : Format → String
  | .text => String.join (tokens.map fun t => t.listing ++ "\n")
  | .yaml => (Yaml.Doc.sequence (tokens.map doc)).render

end Token

end MiniPascal
