import MiniPascal.Syntax.Node

/-!
# Outlines

An outline shows each node of a tree on a line of its own: its type, the position of its token,
and a one-line text in which operands stand in brackets and lists between square brackets.
-/
namespace MiniPascal

def squared (elements : List String) : String :=
  "[" ++ String.intercalate " " elements ++ "]"

def Expr.text : Expr → String
  | .number t _ => t.text
  | .variable t => t.name
  | .unary op e => op.kind.text ++ "(" ++ e.text ++ ")"
  | .binary l op r => "(" ++ l.text ++ ") " ++ op.kind.text ++ " (" ++ r.text ++ ")"

mutual

def Stmt.text : Stmt → String
  | .compound _ children => "BEGIN " ++ squared (Stmt.textAll children) ++ " END"
  | .assign target _ value => target.name ++ " := " ++ value.text
  | .call name args => "CALL: " ++ name.name ++ " - ARGS: " ++ squared (args.map Expr.text)
  | .empty => "NOOP"

def Stmt.textAll : List Stmt → List String
  | [] => []
  | s :: rest => s.text :: Stmt.textAll rest

end

def Param.text (p : Param) : String :=
  p.name.name ++ " : " ++ p.type.kind.text

def Decl.text : Decl → String
  | .variable name type => "VAR " ++ name.name ++ " : " ++ type.kind.text
  | .procedure name params _ =>
    "PROCEDURE " ++ name.name ++ " " ++ squared (params.map Param.text)

namespace Node

def label : Node → String
  | program _ => "Program"
  | block _ => "Block"
  | decl (.variable ..) => "VarDecl"
  | decl (.procedure ..) => "ProcedureDecl"
  | param _ => "Param"
  | type _ => "TypeRef"
  | stmt (.compound ..) => "Compound"
  | stmt (.assign ..) => "Assign"
  | stmt (.call ..) => "ProcedureCall"
  | stmt .empty => "NoOp"
  | expr (.number ..) => "NumberLiteral"
  | expr (.variable _) => "VarRef"
  | expr (.unary ..) => "UnaryOp"
  | expr (.binary ..) => "BinaryOp"

/-- The token at which a node stands. Blocks and empty statements stand nowhere. -/
def token? : Node → Option Token
  | program p => some p.name
  | block _ => none
  | decl d => some d.name
  | param p => some p.name
  | type t => some t
  | stmt (.compound start _) => some start
  | stmt (.assign _ op _) => some op
  | stmt (.call name _) => some name
  | stmt .empty => none
  | expr (.number t _) => some t
  | expr (.variable t) => some t
  | expr (.unary op _) => some op
  | expr (.binary _ op _) => some op

def text : Node → String
  | program p => "PROGRAM " ++ p.name.name
  | block _ => ""
  | decl d => d.text
  | param p => p.text
  | type t => t.kind.text
  | stmt s => s.text
  | expr e => e.text

def value? : Node → Option Value
  | expr (.number _ v) => some v
  | _ => none

end Node

end MiniPascal
