import MiniPascal.Proofs.Grammar.Unambiguous
import MiniPascal.Syntax.Dump

/-!
# Trees with other tokens

Replacing every token by one of the same kind and text turns a derivation into a derivation, and its
tree into the tree with the tokens replaced. Constants keep their values, and a dump, which shows no
more of a token than its kind and its text, stays the same. Two lists of tokens that agree in kinds
and texts are related by such a replacement if no token occurs twice in the first.
-/
namespace MiniPascal

/-- A replacement of tokens that keeps their kinds and texts. -/
structure Relabeling where
  toFun : Token → Token
  kind (t : Token) : (toFun t).kind = t.kind
  text (t : Token) : (toFun t).text = t.text

def Token.plain (t : Token) : Token :=
  { kind := t.kind, lexeme := some t.text, pos := default }

theorem Token.plain_inj {t t' : Token} (h : t.plain = t'.plain) :
    t.kind = t'.kind ∧ t.text = t'.text := by
  have hlexeme : t.plain.lexeme = t'.plain.lexeme := by rw [h]
  have hkind : t.plain.kind = t'.plain.kind := by rw [h]
  exact ⟨hkind, Option.some.inj hlexeme⟩

theorem Token.map_plain_inj {tokens tokens' : List Token} :
    tokens.map plain = tokens'.map plain ↔
      tokens.map (fun t => (t.kind, t.text)) = tokens'.map fun t => (t.kind, t.text) := by
  constructor
  · intro h
    have hpairs := congrArg (List.map fun t => (t.kind, t.lexemeText)) h
    rw [List.map_map, List.map_map] at hpairs
    exact hpairs
  · intro h
    have hplain := congrArg
      (List.map fun x : Kind × String =>
        ({ kind := x.1, lexeme := some x.2, pos := default } : Token)) h
    rw [List.map_map, List.map_map] at hplain
    exact hplain

namespace Relabeling

variable (f : Relabeling)

/-- Names and constants are spelled by their lexemes. -/
theorem lexemeText {t : Token} (h : t.kind = .identifier ∨ t.kind.isLiteral = true) :
    (f.toFun t).lexemeText = t.lexemeText := by
  have htext := f.text t
  unfold Token.text at htext
  rw [f.kind] at htext
  rcases h with h | h
  · rw [h] at htext
    exact htext
  · simp only [Kind.isLiteral, Bool.or_eq_true, beq_iff_eq] at h
    rcases h with h | h <;> rw [h] at htext <;> exact htext

theorem name (t : Token) : (f.toFun t).name = t.name := by
  unfold Token.name
  rw [f.kind]
  split
  · next h => exact f.lexemeText (.inl h)
  · rfl

theorem constant {t : Token} (h : t.kind.isLiteral = true) :
    Grammar.constant (f.toFun t) = Grammar.constant t := by
  rw [Grammar.constant, Grammar.constant, f.kind, f.lexemeText (.inr h)]

end Relabeling

/-- Tokens that agree in kinds and texts are related by a replacement. -/
theorem exists_relabeling {tokens tokens' : List Token} (hnodup : tokens.Nodup)
    (h : tokens.map Token.plain = tokens'.map Token.plain) :
    ∃ f : Relabeling, tokens.map f.toFun = tokens' := by
  induction tokens generalizing tokens' with
  | nil =>
    cases tokens' with
    | nil => exact ⟨⟨id, fun _ => rfl, fun _ => rfl⟩, rfl⟩
    | cons t' rest' => cases h
  | cons t rest ih =>
    cases tokens' with
    | nil => cases h
    | cons t' rest' =>
      obtain ⟨ht, hrest⟩ := List.cons.inj h
      obtain ⟨hmem, hnodup⟩ := List.nodup_cons.mp hnodup
      obtain ⟨f, hf⟩ := ih hnodup hrest
      obtain ⟨hkind, htext⟩ := Token.plain_inj ht
      refine ⟨⟨fun u => if u = t then t' else f.toFun u, fun u => ?_, fun u => ?_⟩, ?_⟩
      · split
        · next hu => rw [hu, hkind]
        · exact f.kind u
      · split
        · next hu => rw [hu, htext]
        · exact f.text u
      · rw [List.map_cons, ← hf]
        dsimp only
        rw [if_pos rfl]
        refine congrArg (t' :: ·) (List.map_congr_left fun u hu => if_neg ?_)
        rintro rfl
        exact hmem hu

def Expr.relabel (f : Relabeling) : Expr → Expr
  | .number t v => .number (f.toFun t) v
  | .variable t => .variable (f.toFun t)
  | .unary op e => .unary (f.toFun op) (e.relabel f)
  | .binary l op r => .binary (l.relabel f) (f.toFun op) (r.relabel f)

mutual

def Stmt.relabel (f : Relabeling) : Stmt → Stmt
  | .compound start children => .compound (f.toFun start) (Stmt.relabelAll f children)
  | .assign target op value => .assign (f.toFun target) (f.toFun op) (value.relabel f)
  | .call name args => .call (f.toFun name) (args.map (Expr.relabel f))
  | .empty => .empty

def Stmt.relabelAll (f : Relabeling) : List Stmt → List Stmt
  | [] => []
  | s :: rest => s.relabel f :: Stmt.relabelAll f rest

end

def Param.relabel (f : Relabeling) (p : Param) : Param :=
  { name := f.toFun p.name, type := f.toFun p.type }

mutual

def Decl.relabel (f : Relabeling) : Decl → Decl
  | .variable name type => .variable (f.toFun name) (f.toFun type)
  | .procedure name params block =>
    .procedure (f.toFun name) (params.map (Param.relabel f)) (block.relabel f)

def Decl.relabelAll (f : Relabeling) : List Decl → List Decl
  | [] => []
  | d :: rest => d.relabel f :: Decl.relabelAll f rest

def Block.relabel (f : Relabeling) : Block → Block
  | .mk decls start body =>
    .mk (Decl.relabelAll f decls) (f.toFun start) (Stmt.relabelAll f body)

end

def Program.relabel (f : Relabeling) (p : Program) : Program :=
  { name := f.toFun p.name, block := p.block.relabel f }

section Dump

variable (f : Relabeling)

theorem Expr.dump_relabel (e : Expr) : (e.relabel f).dump = e.dump := by
  induction e with
  | number t v => exact f.text t
  | «variable» t => exact f.name t
  | unary op e ih => rw [relabel, dump, dump, ih, f.kind]
  | binary l op r ihl ihr => rw [relabel, dump, dump, ihl, ihr, f.kind]

theorem Expr.map_dump_relabel (es : List Expr) :
    (es.map (Expr.relabel f)).map dump = es.map dump := by
  rw [List.map_map]
  exact List.map_congr_left fun e _ => e.dump_relabel f

mutual

theorem Stmt.dump_relabel : ∀ s : Stmt, (s.relabel f).dump = s.dump
  | .compound start children => by
    rw [Stmt.relabel, Stmt.dump, Stmt.dump, Stmt.dumpAll_relabelAll children]
  | .assign target op value => by
    rw [Stmt.relabel, Stmt.dump, Stmt.dump, f.name, value.dump_relabel]
  | .call name args => by
    rw [Stmt.relabel, Stmt.dump, Stmt.dump, f.name, Expr.map_dump_relabel]
  | .empty => rfl

theorem Stmt.dumpAll_relabelAll :
    ∀ ss : List Stmt, Stmt.dumpAll (Stmt.relabelAll f ss) = Stmt.dumpAll ss
  | [] => rfl
  | s :: rest => by
    rw [Stmt.relabelAll, Stmt.dumpAll, Stmt.dumpAll, Stmt.dump_relabel s,
      Stmt.dumpAll_relabelAll rest]

end

theorem Param.dump_relabel (p : Param) : (p.relabel f).dump = p.dump := by
  rw [relabel, dump, dump, f.name, f.kind]

mutual

theorem Decl.dumpAll_relabelAll :
    ∀ ds : List Decl, Decl.dumpAll (Decl.relabelAll f ds) = Decl.dumpAll ds
  | [] => rfl
  | .variable name type :: rest => by
    rw [Decl.relabelAll, Decl.dumpAll, Decl.dumpAll, Decl.dumpAll_relabelAll rest, Decl.relabel,
      Decl.dump, Decl.dump, f.name, f.kind]
  | .procedure name params block :: rest => by
    have hparams : (params.map (Param.relabel f)).map Param.dump = params.map Param.dump := by
      rw [List.map_map]
      exact List.map_congr_left fun p _ => p.dump_relabel f
    rw [Decl.relabelAll, Decl.dumpAll, Decl.dumpAll, Decl.dumpAll_relabelAll rest, Decl.relabel,
      Decl.dump, Decl.dump, f.name, hparams, Block.dump_relabel block]

theorem Block.dump_relabel : ∀ b : Block, (b.relabel f).dump = b.dump
  | .mk decls start body => by
    rw [Block.relabel, Block.dump, Block.dump, Decl.dumpAll_relabelAll decls,
      Stmt.dumpAll_relabelAll]

end

theorem Program.dump_relabel (p : Program) : (p.relabel f).dump = p.dump := by
  rw [relabel, dump, dump, f.name, p.block.dump_relabel]

end Dump

theorem Decl.relabelAll_append (f : Relabeling) (front back : List Decl) :
    Decl.relabelAll f (front ++ back) = Decl.relabelAll f front ++ Decl.relabelAll f back := by
  induction front with
  | nil => rfl
  | cons d rest ih => rw [List.cons_append, relabelAll, relabelAll, ih, List.cons_append]

theorem Decl.relabelAll_variables (f : Relabeling) (ps : List Param) :
    Decl.relabelAll f (ps.map fun p => .variable p.name p.type) =
      (ps.map (Param.relabel f)).map fun p => .variable p.name p.type := by
  induction ps with
  | nil => rfl
  | cons p rest ih => exact congrArg (_ :: ·) ih

namespace Grammar

theorem relabel_joined (f : Relabeling) (first : Expr) (rest : List (Token × Expr)) :
    (joined first rest).relabel f =
      joined (first.relabel f) (rest.map fun link => (f.toFun link.1, link.2.relabel f)) := by
  induction rest generalizing first with
  | nil => rfl
  | cons link rest ih => exact ih _

def Nonterminal.relabel (f : Relabeling) : {n : Nonterminal} → n.Tree → n.Tree
  | program, p => p.relabel f
  | block, b => b.relabel f
  | declarations, ds | varDecls, ds => Decl.relabelAll f ds
  | procedureDecl, d => d.relabel f
  | formals, ps | item .group, ps => ps.map (Param.relabel f)
  | compound, c => (f.toFun c.1, Stmt.relabelAll f c.2)
  | assignment, s | procCall, s | item .statement, s => s.relabel f
  | actuals, es | sequence .expr, es => es.map (Expr.relabel f)
  | operand _, e | item .expr, e => e.relabel f
  | chain _, rest => rest.map fun link => (f.toFun link.1, link.2.relabel f)
  | item .name, t => f.toFun t
  | sequence .name, ts => ts.map f.toFun
  | sequence .group, groups => groups.map fun ps => ps.map (Param.relabel f)
  | sequence .statement, ss => Stmt.relabelAll f ss

theorem Nonterminal.relabel_singleton (f : Relabeling) {i : Item} (a : i.Tree) :
    relabel f (n := .sequence i) [a] = [relabel f (n := .item i) a] := by
  cases i <;> rfl

theorem Nonterminal.relabel_cons (f : Relabeling) {i : Item} (a : i.Tree) (rest : List i.Tree) :
    relabel f (n := .sequence i) (a :: rest) =
      relabel f (n := .item i) a :: relabel f (n := .sequence i) rest := by
  cases i <;> rfl

namespace Derivation

def leaf (f : Relabeling) {k : Kind} (t : Terminal k) : Terminal k :=
  ⟨f.toFun t.1, (f.kind _).trans t.2⟩

def leafIn (f : Relabeling) {p : Kind → Bool} (t : TerminalIn p) : TerminalIn p :=
  ⟨f.toFun t.1, by rw [f.kind]; exact t.2⟩

def relabel (f : Relabeling) : {n : Nonterminal} → Derivation n → Derivation n
  | _, .program head ident mark body dot =>
    .program (leaf f head) (leaf f ident) (leaf f mark) (body.relabel f) (leaf f dot)
  | _, .block decls body => .block (decls.relabel f) (body.relabel f)
  | _, .noDeclarations => .noDeclarations
  | _, .varSection head first rest =>
    .varSection (leaf f head) (first.relabel f) (rest.relabel f)
  | _, .procedure first rest => .procedure (first.relabel f) (rest.relabel f)
  | _, .lastVarDecl first mark => .lastVarDecl (first.relabel f) (leaf f mark)
  | _, .moreVarDecls first mark rest =>
    .moreVarDecls (first.relabel f) (leaf f mark) (rest.relabel f)
  | _, .group names colon type => .group (names.relabel f) (leaf f colon) (leafIn f type)
  | _, .name t => .name (leaf f t)
  | _, .procedureDecl head ident params mark body last =>
    .procedureDecl (leaf f head) (leaf f ident) (params.relabel f) (leaf f mark) (body.relabel f)
      (leaf f last)
  | _, .noFormals => .noFormals
  | _, .formals left groups right => .formals (leaf f left) (groups.relabel f) (leaf f right)
  | _, .compound start children stop =>
    .compound (leaf f start) (children.relabel f) (leaf f stop)
  | _, .nested c => .nested (c.relabel f)
  | _, .assigning a => .assigning (a.relabel f)
  | _, .calling c => .calling (c.relabel f)
  | _, .nothing => .nothing
  | _, .assignment target op value =>
    .assignment (leaf f target) (leaf f op) (value.relabel f)
  | _, .procCall ident left args right =>
    .procCall (leaf f ident) (leaf f left) (args.relabel f) (leaf f right)
  | _, .noActuals => .noActuals
  | _, .actuals args => .actuals (args.relabel f)
  | _, .expr first rest => .expr (first.relabel f) (rest.relabel f)
  | _, .term first rest => .term (first.relabel f) (rest.relabel f)
  | _, .noLink => .noLink
  | _, .link op right rest => .link (leafIn f op) (right.relabel f) (rest.relabel f)
  | _, .signed op inner => .signed (leafIn f op) (inner.relabel f)
  | _, .number t => .number (leafIn f t)
  | _, .parenthesized left inner right =>
    .parenthesized (leaf f left) (inner.relabel f) (leaf f right)
  | _, .reference t => .reference (leaf f t)
  | _, .one first => .one (first.relabel f)
  | _, .more first mark rest => .more (first.relabel f) (leaf f mark) (rest.relabel f)

variable (f : Relabeling) {n : Nonterminal}

theorem yield_relabel (d : Derivation n) : (d.relabel f).yield = d.yield.map f.toFun := by
  induction d <;>
    simp only [relabel, yield, leaf, leafIn, List.map_append, List.map_cons, List.map_nil, *]

theorem tree_relabel (d : Derivation n) : (d.relabel f).tree = Nonterminal.relabel f d.tree := by
  induction d
  case group names colon type ih =>
    simp only [relabel, tree, leafIn, Nonterminal.relabel, ih, List.map_map]
    rfl
  case number t =>
    simp only [relabel, tree, leafIn, Nonterminal.relabel, Expr.relabel, f.constant t.2]
  case one i first ih => rw [relabel, tree, tree, ih, Nonterminal.relabel_singleton]
  case more i first mark rest ih ih' =>
    rw [relabel, tree, tree, ih, ih', Nonterminal.relabel_cons]
  all_goals
    simp only [relabel, tree, leaf, leafIn, Nonterminal.relabel, Program.relabel, Block.relabel,
      Decl.relabel, Decl.relabelAll, Decl.relabelAll_append, Decl.relabelAll_variables,
      Stmt.relabel, Expr.relabel, relabel_joined, List.map_cons, List.map_nil, List.map_flatten, *]

end Derivation

theorem inRange_relabel (f : Relabeling) {tokens : List Token} (h : InRange tokens) :
    InRange (tokens.map f.toFun) := by
  intro t' ht' hl
  obtain ⟨t, ht, rfl⟩ := List.mem_map.mp ht'
  rw [f.kind] at hl
  rw [f.constant hl]
  exact h t ht hl

end Grammar

end MiniPascal
