import Mathlib.Data.List.Forall2
import MiniPascal.Syntax.Node

/-!
# Programs that are alike

Two programs are alike if they differ in the numbers of their constants only, and no integer stands
where the other has a real. A number may be longer than the other, so the tokens behind it may stand
elsewhere in the text; but they are the same tokens, counted from the start.

Alike programs have alike nodes in the same order.
-/
namespace MiniPascal

/-- The same token of two texts, though perhaps at another position. -/
structure Token.Alike (t t' : Token) : Prop where
  kind : t.kind = t'.kind
  lexeme : t.lexeme = t'.lexeme
  index : t.index = t'.index

theorem Token.Alike.name {t t' : Token} (h : t.Alike t') : t.name = t'.name := by
  rw [Token.name, Token.name, lexemeText, lexemeText, h.kind, h.lexeme]

/-- Of constants only the types of their values are compared. -/
inductive Expr.Alike : Expr → Expr → Prop
  | number {t t' : Token} {v v' : Value} (type : v.type = v'.type) :
      Alike (.number t v) (.number t' v')
  | variable {t t' : Token} (token : t.Alike t') : Alike (.variable t) (.variable t')
  | unary {op op' : Token} {e e' : Expr} (token : op.Alike op') (operand : Alike e e') :
      Alike (.unary op e) (.unary op' e')
  | binary {op op' : Token} {left left' right right' : Expr} (first : Alike left left')
      (token : op.Alike op') (second : Alike right right') :
      Alike (.binary left op right) (.binary left' op' right')

inductive Stmt.Alike : Stmt → Stmt → Prop
  | compound {start start' : Token} {children children' : List Stmt} (token : start.Alike start')
      (inner : List.Forall₂ Alike children children') :
      Alike (.compound start children) (.compound start' children')
  | assign {target target' op op' : Token} {value value' : Expr} (named : target.Alike target')
      (token : op.Alike op') (right : value.Alike value') :
      Alike (.assign target op value) (.assign target' op' value')
  | call {name name' : Token} {args args' : List Expr} (named : name.Alike name')
      (values : List.Forall₂ Expr.Alike args args') : Alike (.call name args) (.call name' args')
  | empty : Alike .empty .empty

structure Param.Alike (p p' : Param) : Prop where
  name : p.name.Alike p'.name
  type : p.type.Alike p'.type

mutual

inductive Decl.Alike : Decl → Decl → Prop
  | variable {name name' type type' : Token} (named : name.Alike name') (typed : type.Alike type') :
      Decl.Alike (.variable name type) (.variable name' type')
  | procedure {name name' : Token} {params params' : List Param} {block block' : Block}
      (named : name.Alike name') (formals : List.Forall₂ Param.Alike params params')
      (inner : Block.Alike block block') :
      Decl.Alike (.procedure name params block) (.procedure name' params' block')

inductive Block.Alike : Block → Block → Prop
  | mk {decls decls' : List Decl} {start start' : Token} {body body' : List Stmt}
      (declared : List.Forall₂ Decl.Alike decls decls') (token : start.Alike start')
      (stmts : List.Forall₂ Stmt.Alike body body') :
      Block.Alike (.mk decls start body) (.mk decls' start' body')

end

structure Program.Alike (p p' : Program) : Prop where
  name : p.name.Alike p'.name
  block : p.block.Alike p'.block

inductive Node.Alike : Node → Node → Prop
  | expr {e e' : Expr} (h : e.Alike e') : Alike (.expr e) (.expr e')
  | stmt {s s' : Stmt} (h : s.Alike s') : Alike (.stmt s) (.stmt s')

theorem Block.Alike.body {b b' : Block} (h : b.Alike b') :
    List.Forall₂ Stmt.Alike b.body b'.body := by
  cases h with
  | mk declared token stmts => exact stmts

theorem Decl.Alike.name {d d' : Decl} (h : d.Alike d') : d.name.Alike d'.name := by
  cases h with
  | «variable» named typed => exact named
  | procedure named formals inner => exact named

theorem Expr.Alike.nodes {e e' : Expr} (h : e.Alike e') :
    List.Forall₂ Node.Alike e.nodes e'.nodes := by
  induction h with
  | number type => exact .cons (.expr (.number type)) .nil
  | «variable» token => exact .cons (.expr (.variable token)) .nil
  | unary token operand ih => exact .cons (.expr (.unary token operand)) ih
  | binary first token second ihf ihs =>
    exact .cons (.expr (.binary first token second)) (List.rel_append ihf ihs)

theorem Expr.Alike.flatMap_nodes {es es' : List Expr} (h : List.Forall₂ Expr.Alike es es') :
    List.Forall₂ Node.Alike (es.flatMap Expr.nodes) (es'.flatMap Expr.nodes) :=
  List.rel_flatMap h fun _ _ => Expr.Alike.nodes

mutual

theorem Stmt.Alike.nodes : ∀ {s s' : Stmt}, s.Alike s' → List.Forall₂ Node.Alike s.nodes s'.nodes
  | _, _, .compound token inner =>
    .cons (.stmt (.compound token inner)) (Stmt.Alike.nodesAll inner)
  | _, _, .assign named token right =>
    .cons (.stmt (.assign named token right)) (.cons (.expr (.variable named)) right.nodes)
  | _, _, .call named values =>
    .cons (.stmt (.call named values)) (Expr.Alike.flatMap_nodes values)
  | _, _, .empty => .cons (.stmt .empty) .nil

theorem Stmt.Alike.nodesAll : ∀ {ss ss' : List Stmt}, List.Forall₂ Stmt.Alike ss ss' →
    List.Forall₂ Node.Alike (Stmt.nodesAll ss) (Stmt.nodesAll ss')
  | _, _, .nil => .nil
  | _, _, .cons h rest => List.rel_append h.nodes (Stmt.Alike.nodesAll rest)

end

instance (t t' : Token) : Decidable (t.Alike t') :=
  decidable_of_iff (t.kind = t'.kind ∧ t.lexeme = t'.lexeme ∧ t.index = t'.index)
    ⟨fun h => ⟨h.1, h.2.1, h.2.2⟩, fun h => ⟨h.kind, h.lexeme, h.index⟩⟩

def listsAlike {α : Type} (check : α → α → Bool) : List α → List α → Bool
  | [], [] => true
  | a :: rest, b :: rest' => check a b && listsAlike check rest rest'
  | _, _ => false

def Expr.isAlike : Expr → Expr → Bool
  | .number _ v, .number _ v' => v.type == v'.type
  | .variable t, .variable t' => decide (t.Alike t')
  | .unary op e, .unary op' e' => decide (op.Alike op') && e.isAlike e'
  | .binary left op right, .binary left' op' right' =>
    left.isAlike left' && decide (op.Alike op') && right.isAlike right'
  | _, _ => false

mutual

def Stmt.isAlike : Stmt → Stmt → Bool
  | .compound start children, .compound start' children' =>
    decide (start.Alike start') && Stmt.areAlike children children'
  | .assign target op value, .assign target' op' value' =>
    decide (target.Alike target') && decide (op.Alike op') && value.isAlike value'
  | .call name args, .call name' args' =>
    decide (name.Alike name') && listsAlike Expr.isAlike args args'
  | .empty, .empty => true
  | _, _ => false

def Stmt.areAlike : List Stmt → List Stmt → Bool
  | [], [] => true
  | s :: rest, s' :: rest' => s.isAlike s' && Stmt.areAlike rest rest'
  | _, _ => false

end

def Param.isAlike (p p' : Param) : Bool :=
  decide (p.name.Alike p'.name) && decide (p.type.Alike p'.type)

mutual

def Decl.isAlike : Decl → Decl → Bool
  | .variable name type, .variable name' type' =>
    decide (name.Alike name') && decide (type.Alike type')
  | .procedure name params block, .procedure name' params' block' =>
    decide (name.Alike name') && listsAlike Param.isAlike params params' && block.isAlike block'
  | _, _ => false

def Decl.areAlike : List Decl → List Decl → Bool
  | [], [] => true
  | d :: rest, d' :: rest' => d.isAlike d' && Decl.areAlike rest rest'
  | _, _ => false

def Block.isAlike : Block → Block → Bool
  | .mk decls start body, .mk decls' start' body' =>
    Decl.areAlike decls decls' && decide (start.Alike start') && Stmt.areAlike body body'

end

def Program.isAlike (p p' : Program) : Bool :=
  decide (p.name.Alike p'.name) && p.block.isAlike p'.block

theorem forall₂_of_listsAlike {α : Type} {check : α → α → Bool} {rel : α → α → Prop}
    (hcheck : ∀ a b, check a b = true → rel a b) {l l' : List α}
    (h : listsAlike check l l' = true) : List.Forall₂ rel l l' := by
  fun_induction listsAlike check l l' with
  | case1 => exact .nil
  | case2 a rest b rest' ih =>
    obtain ⟨ha, hrest⟩ := Bool.and_eq_true_iff.mp h
    exact .cons (hcheck a b ha) (ih hrest)
  | case3 => cases h

theorem Expr.alike_of_isAlike (e e' : Expr) (h : e.isAlike e' = true) : e.Alike e' := by
  fun_induction Expr.isAlike e e' with
  | case1 => exact .number (beq_iff_eq.mp h)
  | case2 => exact .variable (of_decide_eq_true h)
  | case3 op e op' e' ih =>
    obtain ⟨hop, he⟩ := Bool.and_eq_true_iff.mp h
    exact .unary (of_decide_eq_true hop) (ih he)
  | case4 left op right left' op' right' ihl ihr =>
    simp only [Bool.and_eq_true, decide_eq_true_eq] at h
    exact .binary (ihl h.1.1) h.1.2 (ihr h.2)
  | case5 => cases h

mutual

theorem Stmt.alike_of_isAlike : ∀ s s' : Stmt, s.isAlike s' = true → s.Alike s'
  | .compound start children, s', h => by
    cases s' with
    | compound start' children' =>
      simp only [Stmt.isAlike, Bool.and_eq_true, decide_eq_true_eq] at h
      exact .compound h.1 (Stmt.alike_of_areAlike children children' h.2)
    | assign | call | empty => cases h
  | .assign target op value, s', h => by
    cases s' with
    | assign target' op' value' =>
      simp only [Stmt.isAlike, Bool.and_eq_true, decide_eq_true_eq] at h
      exact .assign h.1.1 h.1.2 (value.alike_of_isAlike value' h.2)
    | compound | call | empty => cases h
  | .call name args, s', h => by
    cases s' with
    | call name' args' =>
      simp only [Stmt.isAlike, Bool.and_eq_true, decide_eq_true_eq] at h
      exact .call h.1 (forall₂_of_listsAlike Expr.alike_of_isAlike h.2)
    | compound | assign | empty => cases h
  | .empty, s', h => by
    cases s' with
    | empty => exact .empty
    | compound | assign | call => cases h

theorem Stmt.alike_of_areAlike :
    ∀ ss ss' : List Stmt, Stmt.areAlike ss ss' = true → List.Forall₂ Stmt.Alike ss ss'
  | [], [], _ => .nil
  | [], _ :: _, h => by cases h
  | _ :: _, [], h => by cases h
  | s :: rest, s' :: rest', h => by
    obtain ⟨hs, hrest⟩ := Bool.and_eq_true_iff.mp h
    exact .cons (s.alike_of_isAlike s' hs) (Stmt.alike_of_areAlike rest rest' hrest)

end

theorem Param.alike_of_isAlike (p p' : Param) (h : p.isAlike p' = true) : p.Alike p' := by
  obtain ⟨hname, htype⟩ := Bool.and_eq_true_iff.mp h
  exact ⟨of_decide_eq_true hname, of_decide_eq_true htype⟩

mutual

theorem Decl.alike_of_isAlike : ∀ d d' : Decl, d.isAlike d' = true → d.Alike d'
  | .variable name type, d', h => by
    cases d' with
    | «variable» name' type' =>
      simp only [Decl.isAlike, Bool.and_eq_true, decide_eq_true_eq] at h
      exact .variable h.1 h.2
    | procedure => cases h
  | .procedure name params block, d', h => by
    cases d' with
    | procedure name' params' block' =>
      simp only [Decl.isAlike, Bool.and_eq_true, decide_eq_true_eq] at h
      exact .procedure h.1.1 (forall₂_of_listsAlike Param.alike_of_isAlike h.1.2)
        (Block.alike_of_isAlike block block' h.2)
    | «variable» => cases h

theorem Decl.alike_of_areAlike :
    ∀ ds ds' : List Decl, Decl.areAlike ds ds' = true → List.Forall₂ Decl.Alike ds ds'
  | [], [], _ => .nil
  | [], _ :: _, h => by cases h
  | _ :: _, [], h => by cases h
  | d :: rest, d' :: rest', h => by
    obtain ⟨hd, hrest⟩ := Bool.and_eq_true_iff.mp h
    exact .cons (d.alike_of_isAlike d' hd) (Decl.alike_of_areAlike rest rest' hrest)

theorem Block.alike_of_isAlike : ∀ b b' : Block, b.isAlike b' = true → b.Alike b'
  | .mk decls start body, .mk decls' start' body', h => by
    simp only [Block.isAlike, Bool.and_eq_true, decide_eq_true_eq] at h
    exact .mk (Decl.alike_of_areAlike decls decls' h.1.1) h.1.2
      (Stmt.alike_of_areAlike body body' h.2)

end

theorem Program.alike_of_isAlike {p p' : Program} (h : p.isAlike p' = true) : p.Alike p' := by
  obtain ⟨hname, hblock⟩ := Bool.and_eq_true_iff.mp h
  exact ⟨of_decide_eq_true hname, p.block.alike_of_isAlike p'.block hblock⟩

end MiniPascal
