import MiniPascal.Syntax

/-!
# The nodes of a tree

`Program.nodes` lists all nodes of a program in preorder: a node before its children, the children
in the order of the text. The variable of a declaration or of a parameter is no node of its own,
its type is. The lists of references, calls, operators and types are read off this one.
-/
namespace MiniPascal

inductive Node
  | program (p : Program)
  | block (b : Block)
  | decl (d : Decl)
  | param (p : Param)
  | type (token : Token)
  | stmt (s : Stmt)
  | expr (e : Expr)
  deriving Repr, Inhabited

def Expr.nodes : Expr → List Node
  | e@(.number ..) => [.expr e]
  | e@(.variable _) => [.expr e]
  | e@(.unary _ operand) => .expr e :: operand.nodes
  | e@(.binary l _ r) => .expr e :: (l.nodes ++ r.nodes)

mutual

def Stmt.nodes : Stmt → List Node
  | .compound start children => .stmt (.compound start children) :: Stmt.nodesAll children
  | .assign target op value =>
    .stmt (.assign target op value) :: .expr (.variable target) :: value.nodes
  | .call name args => .stmt (.call name args) :: args.flatMap Expr.nodes
  | .empty => [.stmt .empty]

def Stmt.nodesAll : List Stmt → List Node
  | [] => []
  | s :: rest => s.nodes ++ Stmt.nodesAll rest

end

mutual

def Decl.nodes : Decl → List Node
  | .variable name type => [.decl (.variable name type), .type type]
  | .procedure name params block =>
    .decl (.procedure name params block) ::
      (params.flatMap (fun p => [.param p, .type p.type]) ++ block.nodes)

def Decl.nodesAll : List Decl → List Node
  | [] => []
  | d :: rest => d.nodes ++ Decl.nodesAll rest

def Block.nodes : Block → List Node
  | .mk decls start body =>
    .block (.mk decls start body) ::
      (Decl.nodesAll decls ++ .stmt (.compound start body) :: Stmt.nodesAll body)

end

def Program.nodes (p : Program) : List Node :=
  .program p :: p.block.nodes

namespace Node

def reference? : Node → Option Token
  | expr (.variable t) => some t
  | _ => none

def call? : Node → Option Token
  | stmt (.call name _) => some name
  | _ => none

def operator? : Node → Option Token
  | expr (.unary op _) => some op
  | expr (.binary _ op _) => some op
  | _ => none

def type? : Node → Option Token
  | type t => some t
  | _ => none

end Node

namespace Program

/-- The references to variables, targets of assignments included, in preorder. -/
def references (p : Program) : List Token := p.nodes.filterMap Node.reference?

def calls (p : Program) : List Token := p.nodes.filterMap Node.call?

def operators (p : Program) : List Token := p.nodes.filterMap Node.operator?

/-- The type tokens, once for every declared name. -/
def types (p : Program) : List Token := p.nodes.filterMap Node.type?

end Program

end MiniPascal
