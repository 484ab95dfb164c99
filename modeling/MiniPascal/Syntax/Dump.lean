import MiniPascal.Syntax

/-!
# Trees as symbolic expressions

`Program.dump` writes a tree as nested lists in round brackets. Positions are left out, so that two
texts with a different layout have the same dump when their trees have the same structure.
-/
namespace MiniPascal

def bracketed (head : String) (elements : List String) : String :=
  "(" ++ String.intercalate " " (head :: elements) ++ ")"

def Expr.dump : Expr → String
  | .number t _ => t.text
  | .variable t => t.name
  | .unary op e => bracketed op.kind.text [e.dump]
  | .binary l op r => bracketed op.kind.text [l.dump, r.dump]

mutual

def Stmt.dump : Stmt → String
  | .compound _ children => bracketed "compound" (Stmt.dumpAll children)
  | .assign target _ value => bracketed "assign" [target.name, value.dump]
  | .call name args => bracketed "call" (name.name :: args.map Expr.dump)
  | .empty => "(noop)"

def Stmt.dumpAll : List Stmt → List String
  | [] => []
  | s :: rest => s.dump :: Stmt.dumpAll rest

end

/-- A type is named by the kind of its token. -/
def Param.dump (p : Param) : String :=
  bracketed "param" [p.name.name, p.type.kind.text]

mutual

def Decl.dump : Decl → String
  | .variable name type => bracketed "var" [name.name, type.kind.text]
  | .procedure name params block =>
    bracketed "procedure"
      [name.name, "(" ++ String.intercalate " " (params.map Param.dump) ++ ")", block.dump]

def Decl.dumpAll : List Decl → List String
  | [] => []
  | d :: rest => d.dump :: Decl.dumpAll rest

def Block.dump : Block → String
  | .mk decls _ body =>
    bracketed "block" (Decl.dumpAll decls ++ [bracketed "compound" (Stmt.dumpAll body)])

end

def Program.dump (p : Program) : String :=
  bracketed "program" [p.name.name, p.block.dump]

end MiniPascal
