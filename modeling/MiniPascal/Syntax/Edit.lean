import MiniPascal.Resolution

/-!
# Edits of trees

An edit changes the operators, the types and the argument lists of a tree and keeps everything
else. A procedure that is kept in the tables of a resolution shares its block with the tree, so an
edit of the tree is an edit of the resolution too.
-/
namespace MiniPascal

structure Edit where
  operator : Token → Token := id
  type : Token → Token := id
  args : Token → List Expr → List Expr := fun _ args => args

namespace Edit

def operatorKind (index : Nat) (kind : Kind) : Edit where
  operator t := if t.index = index then { t with kind } else t

def typeKind (index : Nat) (kind : Kind) : Edit where
  type t := if t.index = index then { t with kind } else t

def repeatArg (index : Nat) : Edit where
  args name args := if name.index = index then args ++ args.getLast?.toList else args

def dropArg (index : Nat) : Edit where
  args name args := if name.index = index then args.dropLast else args

end Edit

def Expr.edit (e : Edit) : Expr → Expr
  | .number t v => .number t v
  | .variable t => .variable t
  | .unary op a => .unary (e.operator op) (a.edit e)
  | .binary l op r => .binary (l.edit e) (e.operator op) (r.edit e)

mutual

def Stmt.edit (e : Edit) : Stmt → Stmt
  | .compound start children => .compound start (Stmt.editAll e children)
  | .assign target op value => .assign target op (value.edit e)
  | .call name args => .call name (e.args name (args.map (Expr.edit e)))
  | .empty => .empty

def Stmt.editAll (e : Edit) : List Stmt → List Stmt
  | [] => []
  | s :: rest => s.edit e :: Stmt.editAll e rest

end

def Param.edit (e : Edit) (p : Param) : Param :=
  { p with type := e.type p.type }

mutual

def Decl.edit (e : Edit) : Decl → Decl
  | .variable name type => .variable name (e.type type)
  | .procedure name params block => .procedure name (params.map (Param.edit e)) (block.edit e)

def Decl.editAll (e : Edit) : List Decl → List Decl
  | [] => []
  | d :: rest => d.edit e :: Decl.editAll e rest

def Block.edit (e : Edit) : Block → Block
  | .mk decls start body => .mk (Decl.editAll e decls) start (Stmt.editAll e body)

end

def Program.edit (e : Edit) (p : Program) : Program :=
  { p with block := p.block.edit e }

def Resolution.edit (e : Edit) (r : Resolution) : Resolution :=
  { r with calls := r.calls.map fun (index, p) => (index, { p with block := p.block.edit e }) }

namespace Resolution

/-- Moves a variable to another level, in all references to it. -/
def setVariableLevel (r : Resolution) (v : Variable) (level : Int) : Resolution :=
  { r with
    references := r.references.map fun (index, w) =>
      (index, if w.token = v.token then { w with level } else w) }

/-- Moves a procedure to another level, in all calls of it. -/
def setProcedureLevel (r : Resolution) (p : Procedure) (level : Int) : Resolution :=
  { r with
    calls := r.calls.map fun (index, q) =>
      (index, if q.token = p.token then { q with level } else q) }

end Resolution

end MiniPascal
