import MiniPascal.Proofs.Resolution

/-!
# The nesting of routines

A routine of a program is a path: a procedure, the procedure around it, and so on outwards; the
empty path is the program itself. The scopes in which a routine is resolved follow its path: each
holds symbols that the routine at its place declares, so that a name stands for a symbol declared
by the routine or by one around it.

Every symbol of a program that was read is declared by one routine only, since the tokens that
declare names have different indices.
-/
namespace MiniPascal

/-- The procedures of a path are declared inside each other, and the innermost has the block. -/
inductive Program.Nests (p : Program) : List Procedure → Block → Prop
  | program : p.Nests [] p.block
  | procedure {path : List Procedure} {block inner : Block} {name : Token} {params : List Param}
      (outer : p.Nests path block) (declared : .procedure name params inner ∈ block.decls) :
      p.Nests (.declared (path.length + 1) name params inner :: path) inner

/-- The routine of a path declares a symbol, as a parameter or in its block. The level of the
symbol is the depth of the routine. -/
inductive Program.Declares (p : Program) : List Procedure → Symbol → Prop
  | ofVariable {path : List Procedure} {block : Block} {name type : Token}
      (routine : p.Nests path block) (declared : .variable name type ∈ block.decls) :
      p.Declares path (.variable (.declared (path.length + 1) name type))
  | ofProcedure {path : List Procedure} {block inner : Block} {name : Token} {params : List Param}
      (routine : p.Nests path block) (declared : .procedure name params inner ∈ block.decls) :
      p.Declares path (.procedure (.declared (path.length + 1) name params inner))
  | ofParam {path : List Procedure} {block : Block} {q : Procedure} {v : Variable}
      (routine : p.Nests (q :: path) block) (declared : v ∈ q.params) :
      p.Declares (q :: path) (.variable v)

namespace Program

variable {p : Program} {path : List Procedure} {block : Block} {symbol : Symbol} {r : Resolution}

theorem Declares.level_eq (h : p.Declares path symbol) : symbol.level = path.length + 1 := by
  cases h with
  | ofVariable routine declared => rfl
  | ofProcedure routine declared => rfl
  | ofParam routine declared =>
    cases routine with
    | procedure outer _ =>
      obtain ⟨q, _, rfl⟩ := List.mem_map.mp declared
      rfl

/-- A declared procedure is a routine one level deeper. -/
theorem Declares.nests {q : Procedure} (h : p.Declares path (.procedure q)) :
    p.Nests (q :: path) q.block := by
  cases h with
  | ofProcedure routine declared => exact .procedure routine declared

/-- A scope belongs to the routine of a path: all its symbols but the built-in types are declared
there. -/
def Owns (p : Program) (path : List Procedure) (s : Scope) : Prop :=
  s.level = path.length + 1 ∧
    ∀ symbol ∈ s.symbols, p.Declares path symbol ∨ ∃ name level, symbol = .builtinType name level

def Describes (p : Program) : List Procedure → List Scope → Prop
  | _, [] => False
  | [], s :: outer => p.Owns [] s ∧ outer = []
  | q :: path, s :: outer => p.Owns (q :: path) s ∧ p.Describes path outer

section

variable {s s' : Scope} {outer scopes : List Scope}

theorem Describes.owns (h : p.Describes path (s :: outer)) : p.Owns path s := by
  cases path with
  | nil => exact h.1
  | cons q path => exact h.1

theorem Describes.replace (h : p.Describes path (s :: outer)) (hs : p.Owns path s') :
    p.Describes path (s' :: outer) := by
  cases path with
  | nil => exact ⟨hs, h.2⟩
  | cons q path => exact ⟨hs, h.2⟩

/-- What a name stands for is declared by the routine or by one around it. -/
theorem Describes.lookup (h : p.Describes path scopes) {x : String}
    (hx : scopes.findSome? (fun s => s.find? x) = some symbol) :
    ∃ path', path' <:+ path ∧
      (p.Declares path' symbol ∨ ∃ name level, symbol = .builtinType name level) := by
  induction path generalizing scopes with
  | nil =>
    cases scopes with
    | nil => cases hx
    | cons s outer =>
      obtain ⟨howns, rfl⟩ := h
      rw [List.findSome?_cons] at hx
      split at hx
      · next found hfind =>
        cases hx
        exact ⟨[], List.suffix_refl _, howns.2 _ (Scope.mem_of_find? hfind).1⟩
      · cases hx
  | cons q path ih =>
    cases scopes with
    | nil => cases hx
    | cons s outer =>
      obtain ⟨howns, houter⟩ := h
      rw [List.findSome?_cons] at hx
      split at hx
      · next found hfind =>
        cases hx
        exact ⟨q :: path, List.suffix_refl _, howns.2 _ (Scope.mem_of_find? hfind).1⟩
      · obtain ⟨path', hsuffix, hsymbol⟩ := ih houter hx
        exact ⟨path', hsuffix.trans (List.suffix_cons q path), hsymbol⟩

theorem Owns.insert {S : Scopes} (h : p.Owns path S.current) (hd : p.Declares path symbol) :
    p.Owns path (S.insert symbol).current := by
  have hlevel : symbol.level = S.current.level := hd.level_eq.trans h.1.symm
  cases hfind : S.current.find? symbol.name with
  | some found =>
    have hsame : S.insert symbol = S := by
      simp only [Scopes.insert, Scope.insert?, hfind, Option.getD_none]
    rw [hsame]
    exact h
  | none =>
    rw [Scopes.insert_eq_append hfind hlevel]
    exact ⟨h.1, List.forall_mem_append.mpr ⟨h.2, List.forall_mem_singleton.mpr (.inl hd)⟩⟩

end

theorem Describes.insert {S : Scopes} (h : p.Describes path S.toList)
    (hd : p.Declares path symbol) : p.Describes path (S.insert symbol).toList :=
  h.replace (h.owns.insert hd)

theorem Describes.insertAll {S : Scopes} (h : p.Describes path S.toList) {symbols : List Symbol}
    (hd : ∀ symbol ∈ symbols, p.Declares path symbol) :
    p.Describes path (S.insertAll symbols).toList := by
  unfold Scopes.insertAll
  induction symbols generalizing S with
  | nil => exact h
  | cons symbol rest ih =>
    obtain ⟨hsymbol, hrest⟩ := List.forall_mem_cons.mp hd
    exact ih (h.insert hsymbol) hrest

theorem declares_of_mem_procedureSymbols (hn : p.Nests path block) {decls : List Decl}
    (hd : ∀ d ∈ decls, d ∈ block.decls)
    (h : symbol ∈ Decl.procedureSymbols (path.length + 1) decls) : p.Declares path symbol := by
  induction decls with
  | nil => cases h
  | cons d rest ih =>
    obtain ⟨hdecl, hrest⟩ := List.forall_mem_cons.mp hd
    match d with
    | .variable name type => exact ih hrest h
    | .procedure name params inner =>
      rcases List.mem_cons.mp h with rfl | h
      · exact .ofProcedure hn hdecl
      · exact ih hrest h

theorem Describes.declare {S : Scopes} (h : p.Describes path S.toList) (hn : p.Nests path block)
    {d : Decl} (hd : d ∈ block.decls) : p.Describes path (S.declare d).toList := by
  match d with
  | .procedure name params inner => exact h
  | .variable name type =>
    have hlevel : S.current.level = path.length + 1 := h.owns.1
    rw [Scopes.declare, hlevel]
    exact h.insert (.ofVariable hn hd)

theorem Describes.withProcedures {S : Scopes} (h : p.Describes path S.toList)
    (hn : p.Nests path block) : p.Describes path (S.withProcedures block.decls).toList := by
  have hlevel : S.current.level = path.length + 1 := h.owns.1
  rw [Scopes.withProcedures, hlevel]
  exact h.insertAll fun symbol hs => declares_of_mem_procedureSymbols hn (fun _ hd => hd) hs

theorem Describes.declareAll {S : Scopes} (h : p.Describes path S.toList) (hn : p.Nests path block)
    {decls : List Decl} (hd : ∀ d ∈ decls, d ∈ block.decls) :
    p.Describes path (decls.foldl Scopes.declare S).toList := by
  induction decls generalizing S with
  | nil => exact h
  | cons d rest ih =>
    obtain ⟨hdecl, hrest⟩ := List.forall_mem_cons.mp hd
    exact ih (h.declare hn hdecl) hrest

theorem Describes.inside {S : Scopes} (h : p.Describes path S.toList) {name : Token}
    {params : List Param} {inner : Block}
    (hn : p.Nests (.declared (path.length + 1) name params inner :: path) inner) :
    p.Describes (.declared (path.length + 1) name params inner :: path)
      (S.inside name params).toList := by
  have hlevel : S.current.level = path.length + 1 := h.owns.1
  have henter : p.Describes (.declared (path.length + 1) name params inner :: path)
      (S.enter name.name).toList := by
    refine ⟨⟨?_, List.forall_mem_nil _⟩, h⟩
    rw [Scopes.enter, hlevel]
    rfl
  refine henter.insertAll fun symbol hs => ?_
  rw [hlevel] at hs
  obtain ⟨q, hq, rfl⟩ := List.mem_map.mp hs
  exact .ofParam hn (List.mem_map.mpr ⟨q, hq, rfl⟩)

theorem describes_inside_of_allResolved {S : Scopes} (h : p.Describes path S.toList)
    (hn : p.Nests path block) {decls : List Decl} (hd : ∀ d ∈ decls, d ∈ block.decls)
    (hr : Decl.AllResolved r S decls) {name : Token} {params : List Param} {inner : Block}
    (hmem : .procedure name params inner ∈ decls) :
    ∃ S' : Scopes, p.Describes (.declared (path.length + 1) name params inner :: path) S'.toList ∧
      inner.Resolved r S' := by
  induction decls generalizing S with
  | nil => cases hmem
  | cons d rest ih =>
    obtain ⟨hdecl, hrest⟩ := List.forall_mem_cons.mp hd
    rw [Decl.AllResolved] at hr
    rcases List.mem_cons.mp hmem with rfl | hmem
    · rw [Decl.Resolved] at hr
      exact ⟨_, h.inside (.procedure hn hdecl), hr.1.2⟩
    · exact ih (h.declare hn hdecl) hrest hr.2 hmem

/-- Every routine is resolved in scopes that follow its path. -/
theorem Nests.describes (hn : p.Nests path block) (hr : p.block.Resolved r .globals) :
    ∃ S : Scopes, p.Describes path S.toList ∧ block.Resolved r S := by
  induction hn with
  | program =>
    refine ⟨.globals, ⟨⟨rfl, fun symbol hs => .inr ?_⟩, rfl⟩, hr⟩
    exact Scopes.builtin_of_mem_globals hs
  | @procedure path block inner name params outer declared ih =>
    obtain ⟨S, hS, hresolved⟩ := ih
    cases block with
    | mk decls start body =>
      rw [Block.Resolved] at hresolved
      exact describes_inside_of_allResolved (hS.withProcedures outer) outer (fun _ hd => hd)
        hresolved.2.1 declared

/-- The body of a routine is resolved in scopes that follow its path. -/
theorem Nests.describes_body (hn : p.Nests path block) (hr : p.block.Resolved r .globals) :
    ∃ S : Scopes, p.Describes path S.toList ∧
      ∀ node ∈ Stmt.nodesAll block.body, node.Resolved r S := by
  obtain ⟨S, hS, hresolved⟩ := hn.describes hr
  cases block with
  | mk decls start body =>
    rw [Block.Resolved] at hresolved
    exact ⟨S.body decls, (hS.withProcedures hn).declareAll hn fun _ hd => hd, hresolved.2.2⟩

end Program

mutual

/-- The tokens by which a declaration declares names, each with the path of the routine that it
declares the name in. -/
def Decl.sites (path : List Procedure) : Decl → List (Token × List Procedure)
  | .variable name _ => [(name, path)]
  | .procedure name params inner =>
    let inside := .declared (path.length + 1) name params inner :: path
    (name, path) :: (params.map (fun p => (p.name, inside)) ++ inner.sites inside)

def Decl.sitesAll (path : List Procedure) : List Decl → List (Token × List Procedure)
  | [] => []
  | d :: rest => d.sites path ++ Decl.sitesAll path rest

def Block.sites (path : List Procedure) : Block → List (Token × List Procedure)
  | .mk decls _ _ => Decl.sitesAll path decls

end

mutual

theorem Decl.sites_sublist (path : List Procedure) : ∀ d : Decl,
    ((d.sites path).map fun site => site.1.index).Sublist (Node.indices Node.name? d.nodes)
  | .variable name type => List.Sublist.refl _
  | .procedure name params inner => by
    rw [Decl.nodes, Node.indices_cons_of_some Node.name? rfl, Node.indices_append,
      Grammar.names_params, Decl.sites, List.map_cons, List.map_append, List.map_map]
    exact (List.Sublist.append (.refl _) (Block.sites_sublist _ inner)).cons_cons _

theorem Decl.sitesAll_sublist (path : List Procedure) : ∀ decls : List Decl,
    ((Decl.sitesAll path decls).map fun site => site.1.index).Sublist
      (Node.indices Node.name? (Decl.nodesAll decls))
  | [] => .slnil
  | d :: rest => by
    rw [Decl.nodesAll, Node.indices_append, Decl.sitesAll, List.map_append]
    exact (Decl.sites_sublist path d).append (Decl.sitesAll_sublist path rest)

theorem Block.sites_sublist (path : List Procedure) : ∀ b : Block,
    ((b.sites path).map fun site => site.1.index).Sublist (Node.indices Node.name? b.nodes)
  | .mk decls start body => by
    rw [Block.nodes, Node.indices_cons_of_none Node.name? rfl, Node.indices_append, Block.sites]
    exact (Decl.sitesAll_sublist path decls).trans (List.sublist_append_left _ _)

end

theorem Block.sites_of_mem {path : List Procedure} {b : Block} {d : Decl} (h : d ∈ b.decls) :
    d.sites path ⊆ b.sites path := by
  cases b with
  | mk decls start body =>
    rw [Block.sites]
    induction decls with
    | nil => cases h
    | cons first rest ih =>
      rw [Decl.sitesAll]
      rcases List.mem_cons.mp h with rfl | h
      · exact List.subset_append_left _ _
      · exact List.Subset.trans (ih h) (List.subset_append_right _ _)

namespace Program

variable {p : Program} {path path' : List Procedure} {block : Block} {symbol : Symbol}

theorem Nests.sites_subset (h : p.Nests path block) : block.sites path ⊆ p.block.sites [] := by
  induction h with
  | program => exact List.Subset.refl _
  | procedure outer declared ih =>
    refine List.Subset.trans ?_ (List.Subset.trans (Block.sites_of_mem declared) ih)
    rw [Decl.sites]
    exact List.subset_cons_of_subset _ (List.subset_append_right _ _)

theorem Declares.mem_sites (h : p.Declares path symbol) :
    ∃ t, symbol.token = some t ∧ (t, path) ∈ p.block.sites [] := by
  cases h with
  | ofVariable routine declared =>
    exact ⟨_, rfl, routine.sites_subset (Block.sites_of_mem declared List.mem_cons_self)⟩
  | ofProcedure routine declared =>
    refine ⟨_, rfl, routine.sites_subset (Block.sites_of_mem declared ?_)⟩
    rw [Decl.sites]
    exact List.mem_cons_self
  | ofParam routine declared =>
    cases routine with
    | procedure outer hdecl =>
      obtain ⟨param, hparam, rfl⟩ := List.mem_map.mp declared
      refine ⟨param.name, rfl, outer.sites_subset (Block.sites_of_mem hdecl ?_)⟩
      rw [Decl.sites]
      exact List.mem_cons_of_mem _ (List.mem_append_left _ (List.mem_map_of_mem hparam))

/-- The routine of a path declares a symbol, and no other routine does. -/
def SoleDeclarer (p : Program) (path : List Procedure) (symbol : Symbol) : Prop :=
  ∀ path', p.Declares path' symbol ↔ path' = path

theorem Declares.sole {file : String} {source : Bytes} {index : Nat} (h : p.Declares path symbol)
    (hp : Program.ofSource file source index = .ok p) : p.SoleDeclarer path symbol := by
  have hnodup : ((p.block.sites []).map fun site => site.1.index).Nodup := by
    have hnames := nodup_names hp
    rw [Program.nodes, Node.indices_cons_of_none Node.name? rfl] at hnames
    exact hnames.sublist (Block.sites_sublist [] p.block)
  intro path'
  constructor
  · intro h'
    obtain ⟨t, ht, hmem⟩ := h.mem_sites
    obtain ⟨t', ht', hmem'⟩ := h'.mem_sites
    obtain rfl : t = t' := Option.some.inj (ht.symm.trans ht')
    exact (Prod.mk.inj (List.inj_on_of_nodup_map hnodup hmem' hmem rfl)).2
  · rintro rfl
    exact h

end Program

end MiniPascal
