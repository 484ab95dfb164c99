import MiniPascal.Proofs.Parser.Language
import MiniPascal.Syntax.Node

/-!
# The nodes of the programs that are read

The tokens by which a program declares names or uses them all have different indices, since they are
some of the tokens of its text. They are identifiers, types are basic types, and the operators
between operands are signs and product operators. All this is shown for the trees of all
derivations.
-/
namespace MiniPascal

/-- Statements in sequence: the last one is dealt with first, and a compound statement after its
children. -/
@[elab_as_elim]
theorem Stmt.sequence_induction {motive : List Stmt → Prop} (nil : motive [])
    (compound : ∀ start children rest, motive children → motive rest →
      motive (.compound start children :: rest))
    (assign : ∀ target op value rest, motive rest → motive (.assign target op value :: rest))
    (call : ∀ name args rest, motive rest → motive (.call name args :: rest))
    (empty : ∀ rest, motive rest → motive (.empty :: rest)) : ∀ ss, motive ss
  | [] => nil
  | .compound start children :: rest =>
    compound start children rest (sequence_induction nil compound assign call empty children)
      (sequence_induction nil compound assign call empty rest)
  | .assign target op value :: rest =>
    assign target op value rest (sequence_induction nil compound assign call empty rest)
  | .call name args :: rest =>
    call name args rest (sequence_induction nil compound assign call empty rest)
  | .empty :: rest => empty rest (sequence_induction nil compound assign call empty rest)

namespace Node

def use? : Node → Option Token
  | expr (.variable t) => some t
  | stmt (.call name _) => some name
  | _ => none

def name? : Node → Option Token
  | decl d => some d.name
  | param p => some p.name
  | node => node.use?

def indices (f : Node → Option Token) (nodes : List Node) : List Nat :=
  (nodes.filterMap f).map Token.index

def Known : Node → Prop
  | expr (.binary _ op _) => op.kind.isSign = true ∨ op.kind.isProductOp = true
  | _ => True

/-- What a node is made of: its names and constants are among the tokens, its type is a basic type,
and its operators and keywords are such. -/
def Lexical (tokens : List Token) : Node → Prop
  | program p => p.name ∈ tokens ∧ p.name.kind = .identifier
  | decl d => d.name ∈ tokens ∧ d.name.kind = .identifier
  | param p => p.name ∈ tokens ∧ p.name.kind = .identifier
  | type t => t.kind.isBasicType = true
  | stmt (.call t _) | expr (.variable t) => t ∈ tokens ∧ t.kind = .identifier
  | stmt (.compound start _) => start.kind = .beginWord
  | stmt (.assign _ op _) => op.kind = .assign
  | expr (.number t v) =>
    t ∈ tokens ∧ t.kind.isLiteral = true ∧ v = (Grammar.constant t).getD default
  | expr (.unary op _) => op.kind.isSign = true
  | expr (.binary _ op _) => op.kind.isSign = true ∨ op.kind.isProductOp = true
  | block _ | stmt .empty => True

theorem Lexical.known {tokens : List Token} {node : Node} (h : node.Lexical tokens) :
    node.Known := by
  unfold Known
  split
  · exact h
  · trivial

variable (f : Node → Option Token)

@[simp] theorem indices_nil : indices f [] = [] := rfl

@[simp] theorem indices_append (front back : List Node) :
    indices f (front ++ back) = indices f front ++ indices f back := by
  simp only [indices, List.filterMap_append, List.map_append]

theorem indices_cons_of_none {node : Node} (h : f node = none) (rest : List Node) :
    indices f (node :: rest) = indices f rest := by
  simp only [indices, List.filterMap_cons_none h]

theorem indices_cons_of_some {node : Node} {t : Token} (h : f node = some t) (rest : List Node) :
    indices f (node :: rest) = t.index :: indices f rest := by
  simp only [indices, List.filterMap_cons_some h, List.map_cons]

theorem indices_sublist {g : Node → Option Token} (h : ∀ node t, f node = some t → g node = some t)
    (nodes : List Node) : (indices f nodes).Sublist (indices g nodes) := by
  induction nodes with
  | nil => exact .slnil
  | cons node rest ih =>
    cases hf : f node with
    | none =>
      rw [indices_cons_of_none f hf]
      cases hg : g node with
      | none =>
        rw [indices_cons_of_none g hg]
        exact ih
      | some t =>
        rw [indices_cons_of_some g hg]
        exact ih.cons _
    | some t =>
      rw [indices_cons_of_some f hf, indices_cons_of_some g (h node t hf)]
      exact ih.cons_cons _

end Node

theorem Expr.uses_binary (left : Expr) (op : Token) (right : Expr) :
    Node.indices Node.use? (Expr.binary left op right).nodes =
      Node.indices Node.use? left.nodes ++ Node.indices Node.use? right.nodes := by
  rw [Expr.nodes, Node.indices_cons_of_none Node.use? rfl, Node.indices_append]

theorem Stmt.uses_assign (target op : Token) (value : Expr) :
    Node.indices Node.use? (Stmt.assign target op value).nodes =
      target.index :: Node.indices Node.use? value.nodes := by
  rw [Stmt.nodes, Node.indices_cons_of_none Node.use? rfl, Node.indices_cons_of_some Node.use? rfl]

theorem Stmt.uses_call (name : Token) (args : List Expr) :
    Node.indices Node.use? (Stmt.call name args).nodes =
      name.index :: Node.indices Node.use? (args.flatMap Expr.nodes) := by
  rw [Stmt.nodes, Node.indices_cons_of_some Node.use? rfl]

theorem Stmt.uses_compound (start : Token) (children : List Stmt) :
    Node.indices Node.use? (Stmt.compound start children).nodes =
      Node.indices Node.use? (Stmt.nodesAll children) := by
  rw [Stmt.nodes, Node.indices_cons_of_none Node.use? rfl]

theorem Decl.uses_procedure (name : Token) (params : List Param) (block : Block) :
    Node.indices Node.use? (Decl.procedure name params block).nodes =
      Node.indices Node.use? block.nodes := by
  have hparams : Node.indices Node.use?
      (params.flatMap fun p => [.param p, .type p.type]) = [] := by
    induction params with
    | nil => rfl
    | cons p rest ih =>
      rw [List.flatMap_cons, Node.indices_append, ih]
      rfl
  rw [Decl.nodes, Node.indices_cons_of_none Node.use? rfl, Node.indices_append, hparams,
    List.nil_append]

theorem Block.uses_mk (decls : List Decl) (start : Token) (body : List Stmt) :
    Node.indices Node.use? (Block.mk decls start body).nodes =
      Node.indices Node.use? (Decl.nodesAll decls) ++
        Node.indices Node.use? (Stmt.nodesAll body) := by
  rw [Block.nodes, Node.indices_cons_of_none Node.use? rfl, Node.indices_append,
    Node.indices_cons_of_none Node.use? rfl]

namespace Grammar

def Nonterminal.nodes : {n : Nonterminal} → n.Tree → List Node
  | program, p => p.nodes
  | block, b => b.nodes
  | declarations, ds | varDecls, ds => Decl.nodesAll ds
  | procedureDecl, d => d.nodes
  | formals, ps | item .group, ps => ps.flatMap fun p => [.param p, .type p.type]
  | compound, c => .stmt (.compound c.1 c.2) :: Stmt.nodesAll c.2
  | assignment, s | procCall, s | item .statement, s => s.nodes
  | actuals, es | sequence .expr, es => es.flatMap Expr.nodes
  | operand _, e | item .expr, e => e.nodes
  | chain _, rest => rest.flatMap fun link => link.2.nodes
  | item .name, _ | sequence .name, _ => []
  | sequence .group, groups => groups.flatten.flatMap fun p => [.param p, .type p.type]
  | sequence .statement, ss => Stmt.nodesAll ss

theorem nodesAll_append (front back : List Decl) :
    Decl.nodesAll (front ++ back) = Decl.nodesAll front ++ Decl.nodesAll back := by
  induction front with
  | nil => rfl
  | cons d rest ih => rw [List.cons_append, Decl.nodesAll, ih, Decl.nodesAll, List.append_assoc]

theorem names_params (ps : List Param) :
    Node.indices Node.name? (ps.flatMap fun p => [.param p, .type p.type]) =
      ps.map fun p => p.name.index := by
  induction ps with
  | nil => rfl
  | cons p rest ih =>
    rw [List.flatMap_cons, Node.indices_append, ih]
    rfl

theorem names_variables (ps : List Param) :
    Node.indices Node.name? (Decl.nodesAll (ps.map fun p => .variable p.name p.type)) =
      ps.map fun p => p.name.index := by
  induction ps with
  | nil => rfl
  | cons p rest ih =>
    rw [List.map_cons, Decl.nodesAll, Node.indices_append, ih]
    rfl

theorem names_joined (first : Expr) (rest : List (Token × Expr)) :
    Node.indices Node.name? (joined first rest).nodes =
      Node.indices Node.name? first.nodes ++
        Node.indices Node.name? (rest.flatMap fun link => link.2.nodes) := by
  unfold joined
  induction rest generalizing first with
  | nil => simp only [List.foldl_nil, List.flatMap_nil, Node.indices_nil, List.append_nil]
  | cons link rest ih =>
    rw [List.foldl_cons, ih, Expr.nodes, Node.indices_cons_of_none Node.name? rfl,
      Node.indices_append, List.flatMap_cons, Node.indices_append, List.append_assoc]

theorem Nonterminal.nodes_nil (i : Item) : nodes (n := .sequence i) [] = [] := by
  cases i <;> rfl

theorem Nonterminal.nodes_cons {i : Item} (first : i.Tree) (rest : List i.Tree) :
    nodes (n := .sequence i) (first :: rest) =
      nodes (n := .item i) first ++ nodes (n := .sequence i) rest := by
  cases i with
  | name => rfl
  | group => simp only [nodes, List.flatten_cons, List.flatMap_append]
  | statement => simp only [nodes, Stmt.nodesAll]
  | expr => simp only [nodes, List.flatMap_cons]

variable {tokens : List Token}

theorem lexical_variables {ps : List Param}
    (h : ∀ node ∈ ps.flatMap fun p => [Node.param p, Node.type p.type], node.Lexical tokens) :
    ∀ node ∈ Decl.nodesAll (ps.map fun p => .variable p.name p.type), node.Lexical tokens := by
  induction ps with
  | nil =>
    intro node hnode
    cases hnode
  | cons p rest ih =>
    rw [List.flatMap_cons, List.forall_mem_append, List.forall_mem_cons,
      List.forall_mem_singleton] at h
    rw [List.map_cons, Decl.nodesAll, Decl.nodes, List.forall_mem_append, List.forall_mem_cons,
      List.forall_mem_singleton]
    exact ⟨h.1, ih h.2⟩

theorem lexical_joined {first : Expr} {rest : List (Token × Expr)}
    (hfirst : ∀ node ∈ first.nodes, node.Lexical tokens)
    (hops : ∀ link ∈ rest, link.1.kind.isSign = true ∨ link.1.kind.isProductOp = true)
    (hrest : ∀ node ∈ rest.flatMap fun link => link.2.nodes, node.Lexical tokens) :
    ∀ node ∈ (joined first rest).nodes, node.Lexical tokens := by
  unfold joined
  induction rest generalizing first with
  | nil => exact hfirst
  | cons link rest ih =>
    rw [List.flatMap_cons, List.forall_mem_append] at hrest
    rw [List.forall_mem_cons] at hops
    refine ih ?_ hops.2 hrest.2
    rw [Expr.nodes, List.forall_mem_cons, List.forall_mem_append]
    exact ⟨hops.1, hfirst, hrest.1⟩

namespace Derivation

open Nonterminal (nodes nodes_nil nodes_cons)

theorem identifiers_sublist (d : Derivation (.sequence .name)) :
    (d.tree.map Token.index).Sublist (d.yield.map Token.index) := by
  match d with
  | .one (.name t) => exact List.Sublist.refl _
  | .more (.name t) mark rest => exact ((identifiers_sublist rest).cons _).cons_cons _

/-- Names are declared and used by tokens of the text, in the order of the text. -/
theorem names_sublist {n : Nonterminal} (d : Derivation n) :
    (Node.indices Node.name? (nodes d.tree)).Sublist (d.yield.map Token.index) := by
  induction d with
  | program head ident mark body dot ih =>
    simp only [yield, List.map_cons, List.map_append]
    exact (((ih.trans (List.sublist_append_left _ _)).cons _).cons _).cons _
  | block decls body ihd ihb =>
    cases body with
    | compound start children stop =>
      rw [tree, nodes, Block.nodes, Node.indices_cons_of_none Node.name? rfl, Node.indices_append,
        yield, List.map_append]
      exact ihd.append ihb
  | noDeclarations => exact .slnil
  | varSection head first rest ihf ihr =>
    simp only [tree, nodes, nodesAll_append, Node.indices_append]
    simp only [yield, List.map_cons, List.map_append]
    exact (ihf.append ihr).cons _
  | procedure first rest ihf ihr =>
    simp only [tree, nodes, Decl.nodesAll, Node.indices_append]
    rw [yield, List.map_append]
    exact ihf.append ihr
  | lastVarDecl first mark ih =>
    rw [tree, nodes, names_variables, ← names_params, yield, List.map_append]
    exact ih.trans (List.sublist_append_left _ _)
  | moreVarDecls first mark rest ihf ihr =>
    simp only [tree, nodes, nodesAll_append, Node.indices_append]
    rw [names_variables, ← names_params, yield, List.map_append]
    exact ihf.append (ihr.cons _)
  | group names colon type ih =>
    rw [tree, nodes, names_params, List.map_map, yield, List.map_append]
    exact (identifiers_sublist names).trans (List.sublist_append_left _ _)
  | name t => exact List.nil_sublist _
  | procedureDecl head ident params mark body last ihp ihb =>
    rw [tree, nodes, Decl.nodes, Node.indices_cons_of_some Node.name? rfl, Node.indices_append]
    simp only [yield, List.map_cons, List.map_append]
    have hbody := (ihb.trans (List.sublist_append_left _ [last.1.index])).cons mark.1.index
    exact ((ihp.append hbody).cons_cons _).cons _
  | noFormals => exact .slnil
  | formals left groups right ih =>
    simp only [yield, List.map_cons, List.map_append]
    exact (ih.trans (List.sublist_append_left _ _)).cons _
  | compound start children stop ih =>
    rw [tree, nodes, Node.indices_cons_of_none Node.name? rfl]
    simp only [yield, List.map_cons, List.map_append]
    exact (ih.trans (List.sublist_append_left _ _)).cons _
  | nested c ih =>
    rw [tree, nodes, Stmt.nodes]
    exact ih
  | assigning a ih => exact ih
  | calling c ih => exact ih
  | nothing => exact .slnil
  | assignment target op value ih =>
    rw [tree, nodes, Stmt.nodes, Node.indices_cons_of_none Node.name? rfl,
      Node.indices_cons_of_some Node.name? rfl]
    exact (ih.cons _).cons_cons _
  | procCall ident left args right ih =>
    rw [tree, nodes, Stmt.nodes, Node.indices_cons_of_some Node.name? rfl]
    simp only [yield, List.map_cons, List.map_append]
    exact ((ih.trans (List.sublist_append_left _ _)).cons _).cons_cons _
  | noActuals => exact .slnil
  | actuals args ih => exact ih
  | expr first rest ihf ihr =>
    rw [tree, nodes, names_joined, yield, List.map_append]
    exact ihf.append ihr
  | term first rest ihf ihr =>
    rw [tree, nodes, names_joined, yield, List.map_append]
    exact ihf.append ihr
  | noLink => exact .slnil
  | link op right rest iho ihr =>
    simp only [tree, nodes, List.flatMap_cons, Node.indices_append]
    simp only [yield, List.map_cons, List.map_append]
    exact (iho.append ihr).cons _
  | signed op inner ih => exact ih.cons _
  | number t => exact List.nil_sublist _
  | parenthesized left inner right ih =>
    simp only [yield, List.map_cons, List.map_append]
    exact (ih.trans (List.sublist_append_left _ _)).cons _
  | reference t => exact List.Sublist.refl _
  | one first ih =>
    rw [tree, nodes_cons, nodes_nil, List.append_nil]
    exact ih
  | more first mark rest ihf ihr =>
    rw [tree, nodes_cons, Node.indices_append]
    simp only [yield, List.map_cons, List.map_append]
    exact ihf.append (ihr.cons _)

theorem joins_of_mem_chain {o : Operand} (d : Derivation (.chain o)) :
    ∀ link ∈ d.tree, o.joins link.1.kind = true := by
  match d with
  | .noLink =>
    intro link h
    cases h
  | .link op right rest =>
    intro link h
    rcases List.mem_cons.mp h with rfl | h
    · exact op.2
    · exact joins_of_mem_chain rest link h

theorem lexical_identifiers (d : Derivation (.sequence .name)) :
    ∀ t ∈ d.tree, t ∈ d.yield ∧ t.kind = .identifier := by
  match d with
  | .one (.name t) => exact List.forall_mem_singleton.mpr ⟨List.mem_cons_self, t.2⟩
  | .more (.name t) mark rest =>
    refine List.forall_mem_cons.mpr ⟨⟨List.mem_cons_self, t.2⟩, fun t' ht' => ?_⟩
    obtain ⟨hmem, hkind⟩ := lexical_identifiers rest t' ht'
    exact ⟨List.mem_cons_of_mem _ (List.mem_cons_of_mem _ hmem), hkind⟩

theorem lexical {n : Nonterminal} (d : Derivation n) (h : d.yield ⊆ tokens) :
    ∀ node ∈ nodes d.tree, node.Lexical tokens := by
  induction d with
  | program head ident mark body dot ih =>
    simp only [yield, List.cons_subset, List.append_subset] at h
    obtain ⟨_, hident, _, hbody, _⟩ := h
    exact List.forall_mem_cons.mpr ⟨⟨hident, ident.2⟩, ih hbody⟩
  | block decls body ihd ihb =>
    obtain ⟨hdecls, hbody⟩ := List.append_subset.mp h
    cases body with
    | compound start children stop =>
      rw [tree, nodes, Block.nodes, List.forall_mem_cons, List.forall_mem_append]
      exact ⟨trivial, ihd hdecls, ihb hbody⟩
  | varSection head first rest ihf ihr =>
    obtain ⟨hfirst, hrest⟩ := List.append_subset.mp (List.subset_of_cons_subset h)
    rw [tree, nodes, nodesAll_append, List.forall_mem_append]
    exact ⟨ihf hfirst, ihr hrest⟩
  | procedure first rest ihf ihr =>
    obtain ⟨hfirst, hrest⟩ := List.append_subset.mp h
    rw [tree, nodes, Decl.nodesAll, List.forall_mem_append]
    exact ⟨ihf hfirst, ihr hrest⟩
  | lastVarDecl first mark ih => exact lexical_variables (ih (List.append_subset.mp h).1)
  | moreVarDecls first mark rest ihf ihr =>
    obtain ⟨hfirst, hrest⟩ := List.append_subset.mp h
    rw [tree, nodes, nodesAll_append, List.forall_mem_append]
    exact ⟨lexical_variables (ihf hfirst), ihr (List.subset_of_cons_subset hrest)⟩
  | group names colon type ih =>
    intro node hnode
    obtain ⟨p, hp, hnode⟩ := List.mem_flatMap.mp hnode
    obtain ⟨ident, hident, rfl⟩ := List.mem_map.mp hp
    obtain ⟨hmem, hkind⟩ := lexical_identifiers names ident hident
    simp only [List.mem_cons, List.not_mem_nil, or_false] at hnode
    rcases hnode with rfl | rfl
    · exact ⟨(List.append_subset.mp h).1 hmem, hkind⟩
    · exact type.2
  | procedureDecl head ident params mark body last ihp ihb =>
    simp only [yield, List.cons_subset, List.append_subset] at h
    obtain ⟨_, hident, hparams, _, hbody, _⟩ := h
    rw [tree, nodes, Decl.nodes, List.forall_mem_cons, List.forall_mem_append]
    exact ⟨⟨hident, ident.2⟩, ihp hparams, ihb hbody⟩
  | formals left groups right ih =>
    exact ih (List.append_subset.mp (List.subset_of_cons_subset h)).1
  | compound start children stop ih =>
    have hchildren := (List.append_subset.mp (List.subset_of_cons_subset h)).1
    exact List.forall_mem_cons.mpr ⟨start.2, ih hchildren⟩
  | nested c ih =>
    rw [tree, nodes, Stmt.nodes]
    exact ih h
  | assigning a ih => exact ih h
  | calling c ih => exact ih h
  | nothing => exact List.forall_mem_singleton.mpr trivial
  | assignment target op value ih =>
    simp only [yield, List.cons_subset] at h
    obtain ⟨htarget, _, hvalue⟩ := h
    rw [tree, nodes, Stmt.nodes, List.forall_mem_cons, List.forall_mem_cons]
    exact ⟨op.2, ⟨htarget, target.2⟩, ih hvalue⟩
  | procCall ident left args right ih =>
    simp only [yield, List.cons_subset, List.append_subset] at h
    obtain ⟨hident, _, hargs, _⟩ := h
    rw [tree, nodes, Stmt.nodes, List.forall_mem_cons]
    exact ⟨⟨hident, ident.2⟩, ih hargs⟩
  | actuals args ih => exact ih h
  | expr first rest ihf ihr =>
    obtain ⟨hfirst, hrest⟩ := List.append_subset.mp h
    exact lexical_joined (ihf hfirst) (fun link hlink => .inl (joins_of_mem_chain rest link hlink))
      (ihr hrest)
  | term first rest ihf ihr =>
    obtain ⟨hfirst, hrest⟩ := List.append_subset.mp h
    exact lexical_joined (ihf hfirst) (fun link hlink => .inr (joins_of_mem_chain rest link hlink))
      (ihr hrest)
  | link op right rest iho ihr =>
    obtain ⟨hright, hrest⟩ := List.append_subset.mp (List.subset_of_cons_subset h)
    rw [tree, nodes, List.flatMap_cons, List.forall_mem_append]
    exact ⟨iho hright, ihr hrest⟩
  | signed op inner ih =>
    exact List.forall_mem_cons.mpr ⟨op.2, ih (List.subset_of_cons_subset h)⟩
  | number t => exact List.forall_mem_singleton.mpr ⟨h List.mem_cons_self, t.2, rfl⟩
  | parenthesized left inner right ih =>
    exact ih (List.append_subset.mp (List.subset_of_cons_subset h)).1
  | reference t => exact List.forall_mem_singleton.mpr ⟨h List.mem_cons_self, t.2⟩
  | one first ih =>
    rw [tree, nodes_cons, nodes_nil, List.append_nil]
    exact ih h
  | more first mark rest ihf ihr =>
    obtain ⟨hfirst, hrest⟩ := List.append_subset.mp h
    rw [tree, nodes_cons, List.forall_mem_append]
    exact ⟨ihf hfirst, ihr (List.subset_of_cons_subset hrest)⟩
  | noDeclarations | name _ | noFormals | noActuals | noLink =>
    intro node hnode
    cases hnode

end Derivation

end Grammar

namespace Program

variable {file : String} {source : Bytes} {index : Nat} {p : Program}

/-- No two names in a program that was read have the same index. -/
theorem nodup_names (h : Program.ofSource file source index = .ok p) :
    (Node.indices Node.name? p.nodes).Nodup := by
  obtain ⟨d, hd, rfl⟩ := exists_derivation h
  have hnodup := TokenStream.nodup_index_ofSource file source index
  rw [hd] at hnodup
  exact hnodup.sublist d.names_sublist

theorem nodup_uses (h : Program.ofSource file source index = .ok p) :
    (Node.indices Node.use? p.nodes).Nodup := by
  refine (nodup_names h).sublist (Node.indices_sublist _ (fun node t hnode => ?_) _)
  unfold Node.use? at hnode
  split at hnode
  · exact hnode
  · exact hnode
  · cases hnode

/-- The names in a program that was read are identifiers of its text. -/
theorem lexical_nodes (h : Program.ofSource file source index = .ok p) :
    ∀ node ∈ p.nodes, node.Lexical (TokenStream.ofSource file source index).tokens := by
  obtain ⟨d, hd, rfl⟩ := exists_derivation h
  rw [hd]
  exact d.lexical (List.Subset.refl _)

theorem known_nodes (h : Program.ofSource file source index = .ok p) :
    ∀ node ∈ p.nodes, node.Known := by
  exact fun node hnode => (lexical_nodes h node hnode).known

end Program

end MiniPascal
