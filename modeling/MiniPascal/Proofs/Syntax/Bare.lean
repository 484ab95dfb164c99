import MiniPascal.Proofs.Syntax.Relabel

/-!
# Trees without empty statements

Empty statements do nothing, and neither resolution nor execution depends on more of a token than
its kind and its text. What is left of a program, when its empty statements are dropped and its
tokens replaced, is all that it means. Two programs that mean the same therefore have one bare
program in common.
-/
namespace MiniPascal

def Relabeling.id : Relabeling := ⟨fun t => t, fun _ => rfl, fun _ => rfl⟩

mutual

/-- The statement with other tokens; nothing is left of an empty one. -/
def Stmt.bare (f : Relabeling) : Stmt → List Stmt
  | .compound start children => [.compound (f.toFun start) (Stmt.bareAll f children)]
  | .assign target op value => [.assign (f.toFun target) (f.toFun op) (value.relabel f)]
  | .call name args => [.call (f.toFun name) (args.map (Expr.relabel f))]
  | .empty => []

def Stmt.bareAll (f : Relabeling) : List Stmt → List Stmt
  | [] => []
  | s :: rest => s.bare f ++ Stmt.bareAll f rest

end

mutual

def Decl.bare (f : Relabeling) : Decl → Decl
  | .variable name type => .variable (f.toFun name) (f.toFun type)
  | .procedure name params block =>
    .procedure (f.toFun name) (params.map (Param.relabel f)) (block.bare f)

def Decl.bareAll (f : Relabeling) : List Decl → List Decl
  | [] => []
  | d :: rest => d.bare f :: Decl.bareAll f rest

def Block.bare (f : Relabeling) : Block → Block
  | .mk decls start body => .mk (Decl.bareAll f decls) (f.toFun start) (Stmt.bareAll f body)

end

def Program.bare (f : Relabeling) (p : Program) : Program :=
  { name := f.toFun p.name, block := p.block.bare f }

theorem Block.decls_bare (f : Relabeling) (b : Block) :
    (b.bare f).decls = Decl.bareAll f b.decls := by
  cases b
  rw [bare]
  rfl

theorem Block.body_bare (f : Relabeling) (b : Block) : (b.bare f).body = Stmt.bareAll f b.body := by
  cases b
  rw [bare]
  rfl

theorem Expr.relabel_id (e : Expr) : e.relabel .id = e := by
  induction e with
  | number | «variable» => rfl
  | unary op e ih => rw [relabel, ih]; rfl
  | binary l op r ihl ihr => rw [relabel, ihl, ihr]; rfl

section

variable (f : Relabeling)

mutual

theorem Stmt.bare_relabel : ∀ s : Stmt, (s.relabel f).bare .id = s.bare f
  | .compound start children => by
    rw [Stmt.relabel, Stmt.bare, Stmt.bare, Stmt.bareAll_relabelAll children]
    rfl
  | .assign target op value => by
    rw [Stmt.relabel, Stmt.bare, Stmt.bare, Expr.relabel_id]
    rfl
  | .call name args => by
    have hargs : (args.map (Expr.relabel f)).map (Expr.relabel .id) =
        args.map (Expr.relabel f) := by
      rw [List.map_map]
      exact List.map_congr_left fun e _ => (e.relabel f).relabel_id
    rw [Stmt.relabel, Stmt.bare, Stmt.bare, hargs]
    rfl
  | .empty => rfl

theorem Stmt.bareAll_relabelAll :
    ∀ ss : List Stmt, Stmt.bareAll .id (Stmt.relabelAll f ss) = Stmt.bareAll f ss
  | [] => rfl
  | s :: rest => by
    rw [Stmt.relabelAll, Stmt.bareAll, Stmt.bareAll, Stmt.bare_relabel s,
      Stmt.bareAll_relabelAll rest]

end

mutual

theorem Decl.bareAll_relabelAll :
    ∀ ds : List Decl, Decl.bareAll .id (Decl.relabelAll f ds) = Decl.bareAll f ds
  | [] => rfl
  | .variable name type :: rest => by
    rw [Decl.relabelAll, Decl.bareAll, Decl.bareAll, Decl.bareAll_relabelAll rest]
    rfl
  | .procedure name params block :: rest => by
    have hparams : (params.map (Param.relabel f)).map (Param.relabel .id) =
        params.map (Param.relabel f) := by
      rw [List.map_map]
      rfl
    rw [Decl.relabelAll, Decl.bareAll, Decl.bareAll, Decl.bareAll_relabelAll rest, Decl.relabel,
      Decl.bare, Decl.bare, Block.bare_relabel block, hparams]
    rfl

theorem Block.bare_relabel : ∀ b : Block, (b.relabel f).bare .id = b.bare f
  | .mk decls start body => by
    rw [Block.relabel, Block.bare, Block.bare, Decl.bareAll_relabelAll decls,
      Stmt.bareAll_relabelAll]
    rfl

end

theorem Program.bare_relabel (p : Program) : (p.relabel f).bare .id = p.bare f := by
  rw [relabel, bare, bare, p.block.bare_relabel]
  rfl

end

end MiniPascal
