import MiniPascal.Syntax

/-!
# Symbols

A symbol is what a name stands for: a built-in type, a variable, or a procedure with its
parameters and its block. Its level is the nesting depth of the scope that declares it. The
declaring token tells two symbols of one name apart.
-/
namespace MiniPascal

structure Variable where
  name : String
  type : Option String := none
  level : Int := 0
  token : Option Token := none
  deriving Repr, DecidableEq, Inhabited

structure Procedure where
  name : String
  level : Int := 0
  token : Option Token := none
  params : List Variable := []
  block : Block := default
  deriving Repr, Inhabited

inductive Symbol
  | builtinType (name : String) (level : Int)
  | variable (v : Variable)
  | procedure (p : Procedure)
  | other (number : Int) (name : String) (level : Int)
  deriving Repr, Inhabited

namespace Variable

def typeName (v : Variable) : String := v.type.getD ""

/-- The variable that a name declares at a level. -/
def declared (level : Int) (name type : Token) : Variable :=
  { name := name.name, type := some type.kind.text, level, token := some name }

def text (v : Variable) : String :=
  "<VarSymbol(name='" ++ v.name ++ "', type='" ++ v.typeName ++ "')>"

end Variable

namespace Procedure

/-- The procedure that a declaration at a level declares. Its parameters are one level deeper. -/
def declared (level : Int) (name : Token) (params : List Param) (block : Block) : Procedure :=
  { name := name.name, level, token := some name, block,
    params := params.map fun p => Variable.declared (level + 1) p.name p.type }

def text (p : Procedure) : String :=
  "<ProcedureSymbol(name='" ++ p.name ++ "', parameters=[" ++
    String.intercalate ", " (p.params.map Variable.text) ++ "])>"

end Procedure

namespace Symbol

def name : Symbol → String
  | .builtinType n _ => n
  | .variable v => v.name
  | .procedure p => p.name
  | .other _ n _ => n

def level : Symbol → Int
  | .builtinType _ l => l
  | .variable v => v.level
  | .procedure p => p.level
  | .other _ _ l => l

def atLevel (level : Int) : Symbol → Symbol
  | .builtinType n _ => .builtinType n level
  | .variable v => .variable { v with level }
  | .procedure p => .procedure { p with level }
  | .other k n _ => .other k n level

/-- The declaring token; built-in types have none. -/
def token : Symbol → Option Token
  | .variable v => v.token
  | .procedure p => p.token
  | .builtinType .. | .other .. => none

def typeName : Symbol → String
  | .variable v => v.typeName
  | _ => ""

def sort : Symbol → String
  | .builtinType .. => "BuiltinTypeSymbol"
  | .variable _ => "VarSymbol"
  | .procedure _ => "ProcedureSymbol"
  | .other n _ _ => "SymbolKind(" ++ toString n ++ ")"

def text : Symbol → String
  | .builtinType n _ => "<BuiltinTypeSymbol(name='" ++ n ++ "')>"
  | .variable v => v.text
  | .procedure p => p.text
  | .other _ n _ => n

/-- A symbol of which only its name and the number of its sort are known. -/
def bare (number : Int) (name : String) : Symbol :=
  match number with
  | 0 => .builtinType name 0
  | 1 => .variable { name }
  | 2 => .procedure { name }
  | n => .other n name 0

end Symbol

end MiniPascal
