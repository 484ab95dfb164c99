import MiniPascal.Proofs.Resolution.Visible

/-!
# The tables of a resolution

Resolving a program enters every reference and every call that it has, and nothing else, each once.
The entry of a use is the symbol of the innermost declaration of its name that is visible at the
use. The level of the symbol is the depth of the routine that declares it, where the program has
depth one and a procedure is one deeper than the routine around it.
-/
namespace MiniPascal

namespace Table

variable {α : Type} {new new' : List Nat} {t t' t'' : Table α}

def keys (t : Table α) : List Nat := t.map Prod.fst

/-- Entries were made for some indices; there is still at most one for each index. -/
structure Gains (t : Table α) (new : List Nat) (t' : Table α) : Prop where
  mem : ∀ i, i ∈ t'.keys ↔ i ∈ t.keys ∨ i ∈ new
  nodup : t.keys.Nodup → t'.keys.Nodup

theorem gains_nil (t : Table α) : t.Gains [] t :=
  ⟨fun i => by simp only [List.not_mem_nil, or_false], id⟩

theorem Gains.trans (h : t.Gains new t') (h' : t'.Gains new' t'') : t.Gains (new ++ new') t'' := by
  refine ⟨fun i => ?_, fun ht => h'.nodup (h.nodup ht)⟩
  rw [h'.mem, h.mem, List.mem_append, or_assoc]

theorem Gains.perm (h : t.Gains new t') (hp : new.Perm new') : t.Gains new' t' :=
  ⟨fun i => by rw [h.mem, hp.mem_iff], h.nodup⟩

theorem gains_insert (t : Table α) (i : Nat) (a : α) : t.Gains [i] (t.insert i a) := by
  have hkeys : (t.insert i a).keys = i :: t.keys.filter (· != i) := by
    simp only [keys, insert, List.map_cons, List.filter_map, Function.comp_def]
  refine ⟨fun j => ?_, fun ht => ?_⟩
  · rw [hkeys, List.mem_cons, List.mem_filter, List.mem_singleton]
    by_cases hj : j = i <;> simp [hj]
  · rw [hkeys, List.nodup_cons]
    exact ⟨fun hi => by simp at hi, ht.filter _⟩

end Table

theorem Node.use?_of_reference? {node : Node} {t : Token} (h : node.reference? = some t) :
    node.use? = some t := by
  unfold reference? at h
  split at h
  · exact h
  · cases h

theorem Node.use?_of_call? {node : Node} {t : Token} (h : node.call? = some t) :
    node.use? = some t := by
  unfold call? at h
  split at h
  · exact h
  · cases h

namespace Resolver

variable {α β : Type} {nodes nodes' : List Node} {x : Resolver α}

def Enters (nodes : List Node) (x : Resolver α) : Prop :=
  ∀ ⦃f a f'⦄, x f = (.ok a, f') →
    f.references.Gains (Node.indices Node.reference? nodes) f'.references ∧
      f.calls.Gains (Node.indices Node.call? nodes) f'.calls

theorem Enters.perm (h : Enters nodes x) (hp : nodes.Perm nodes') : Enters nodes' x := by
  intro f a f' hx
  obtain ⟨hreferences, hcalls⟩ := h hx
  exact ⟨hreferences.perm ((hp.filterMap _).map _), hcalls.perm ((hp.filterMap _).map _)⟩

/-- Nodes that use no name are of no account. -/
theorem Enters.cons {node : Node} (h : Enters nodes x) (hnode : node.use? = none) :
    Enters (node :: nodes) x := by
  have hreference : node.reference? = none := by
    refine Option.eq_none_iff_forall_ne_some.mpr fun t ht => ?_
    cases hnode.symm.trans (Node.use?_of_reference? ht)
  have hcall : node.call? = none := by
    refine Option.eq_none_iff_forall_ne_some.mpr fun t ht => ?_
    cases hnode.symm.trans (Node.use?_of_call? ht)
  intro f a f' hx
  rw [Node.indices_cons_of_none _ hreference, Node.indices_cons_of_none _ hcall]
  exact h hx

theorem Enters.bind {g : α → Resolver β} (hx : Enters nodes x)
    (hg : ∀ a, Enters nodes' (g a)) : Enters (nodes ++ nodes') (x >>= g) := by
  intro f b f' h
  obtain ⟨a, f₁, h₁, h₂⟩ := Stateful.bind_eq_ok.mp h
  obtain ⟨hreferences, hcalls⟩ := hx h₁
  obtain ⟨hreferences', hcalls'⟩ := hg a h₂
  rw [Node.indices_append, Node.indices_append]
  exact ⟨hreferences.trans hreferences', hcalls.trans hcalls'⟩

/-- A last step without entries. -/
theorem Enters.last {g : α → Resolver β} (hx : Enters nodes x) (hg : ∀ a, Enters [] (g a)) :
    Enters nodes (x >>= g) :=
  (hx.bind hg).perm (.of_eq (List.append_nil nodes))

theorem enters_pure (a : α) : Enters [] (pure a) := by
  intro f b f' h
  obtain ⟨rfl, rfl⟩ := Stateful.pure_eq_ok.mp h
  exact ⟨Table.gains_nil _, Table.gains_nil _⟩

theorem enters_fail (t : Token) (c : Cause) : Enters nodes (fail t c : Resolver α) := by
  intro f a f' h
  exact absurd h Stateful.throw_ne_ok

theorem enters_note (e : ScopeEvent) : Enters [] (note e) := by
  intro f a f' h
  have hf := Stateful.modify_eq_ok.mp h
  subst hf
  exact ⟨Table.gains_nil _, Table.gains_nil _⟩

theorem enters_insert (S : Scopes) (symbol : Symbol) : Enters [] (insert S symbol) :=
  (enters_note _).bind fun _ => enters_pure _

theorem enters_enter (S : Scopes) (name : String) : Enters [] (enter S name) :=
  (enters_note _).bind fun _ => enters_pure _

theorem enters_type (S : Scopes) (t : Token) : Enters [] (type S t) := by
  unfold type
  split
  · exact enters_pure ()
  · exact enters_fail t _

theorem enters_types (S : Scopes) (ps : List Param) : Enters [] (types S ps) := by
  induction ps with
  | nil => exact enters_pure ()
  | cons p rest ih => exact (enters_type S p.type).bind fun _ => ih

theorem enters_reference (S : Scopes) (t : Token) :
    Enters [.expr (.variable t)] (reference S t) := by
  unfold reference
  refine (enters_note _).bind fun _ => ?_
  split
  · intro f a f' h
    have hf := Stateful.modify_eq_ok.mp h
    subst hf
    exact ⟨Table.gains_insert _ _ _, Table.gains_nil _⟩
  · exact enters_fail t _

theorem enters_expression (S : Scopes) : ∀ e : Expr, Enters e.nodes (expression S e)
  | .number .. => (enters_pure ()).cons rfl
  | .variable t => enters_reference S t
  | .unary _ e => (enters_expression S e).cons rfl
  | .binary left _ right =>
    ((enters_expression S left).bind fun _ => enters_expression S right).cons rfl

theorem enters_expressions (S : Scopes) (es : List Expr) :
    Enters (es.flatMap Expr.nodes) (expressions S es) := by
  induction es with
  | nil => exact enters_pure ()
  | cons e rest ih => exact (enters_expression S e).bind fun _ => ih

theorem enters_call (S : Scopes) (name : Token) (args : List Expr) :
    Enters (Stmt.call name args).nodes (call S name args) := by
  have hentry (p : Procedure) : Enters [.stmt (.call name args)]
      (modify fun f => { f with calls := f.calls.insert name.index p }) := by
    intro f a f' h
    have hf := Stateful.modify_eq_ok.mp h
    subst hf
    exact ⟨Table.gains_nil _, Table.gains_insert _ _ _⟩
  unfold call
  refine (enters_note _).bind fun _ => ?_
  split
  · next p hp =>
    split
    · exact ((enters_expressions S args).bind fun _ => hentry p).perm List.perm_append_comm
    · exact enters_fail name _
  · exact enters_fail name _

theorem enters_statements (S : Scopes) (ss : List Stmt) :
    Enters (Stmt.nodesAll ss) (statements S ss) := by
  induction ss using Stmt.sequence_induction with
  | nil => exact enters_pure ()
  | compound start children rest ihc ihr =>
    rw [Stmt.nodesAll, Stmt.nodes]
    exact (ihc.bind fun _ => ihr).cons rfl
  | assign target op value rest ih =>
    rw [Stmt.nodesAll, Stmt.nodes]
    have hassign := (enters_expression S value).bind fun _ => enters_reference S target
    exact ((hassign.perm List.perm_append_comm).cons rfl).bind fun _ => ih
  | call name args rest ih =>
    rw [Stmt.nodesAll]
    exact (enters_call S name args).bind fun _ => ih
  | empty rest ih =>
    rw [Stmt.nodesAll, Stmt.nodes]
    exact ((enters_pure ()).cons rfl).bind fun _ => ih

theorem enters_noRepetition (S : Scopes) (decls : List Decl) :
    Enters [] (noRepetition S decls) := by
  unfold noRepetition
  split
  · next t ht => exact enters_fail t _
  · exact enters_pure ()

theorem enters_procedures (S : Scopes) (decls : List Decl) : Enters [] (procedures S decls) := by
  induction decls generalizing S with
  | nil => exact enters_pure S
  | cons d rest ih =>
    cases d with
    | «variable» name type => exact ih S
    | procedure name params block =>
      exact (enters_types S params).bind fun _ => (enters_insert S _).bind fun S' => ih S'

theorem enters_params (S : Scopes) (ps : List Param) : Enters [] (params S ps) := by
  induction ps generalizing S with
  | nil => exact enters_pure S
  | cons p rest ih =>
    rw [params]
    split
    · exact enters_fail p.name _
    · exact (enters_insert S _).bind fun S' => ih S'

theorem enters_formals {ps : List Param} (h : Enters nodes x) :
    Enters ((ps.flatMap fun p => [.param p, .type p.type]) ++ nodes) x := by
  induction ps with
  | nil => exact h
  | cons p rest ih => exact (ih.cons rfl).cons rfl

mutual

theorem enters_declaration (S : Scopes) : ∀ d : Decl, Enters d.nodes (declaration S d)
  | .variable name type => by
    rw [Decl.nodes]
    exact (((enters_type S type).bind fun _ => enters_insert S _).cons rfl).cons rfl
  | .procedure name params block => by
    rw [Decl.nodes]
    refine Enters.cons ?_ rfl
    refine enters_formals ((enters_enter S name.name).bind fun inner =>
      (enters_params inner params).bind fun inner' => ?_)
    exact (enters_block inner' block).last fun _ => (enters_note _).bind fun _ => enters_pure S

theorem enters_declarations (S : Scopes) : ∀ decls : List Decl,
    Enters (Decl.nodesAll decls) (declarations S decls)
  | [] => enters_pure S
  | d :: rest => (enters_declaration S d).bind fun S' => enters_declarations S' rest

theorem enters_block (S : Scopes) : ∀ b : Block, Enters b.nodes (block S b)
  | .mk decls start body => by
    rw [Block.nodes]
    refine Enters.cons ?_ rfl
    refine (enters_noRepetition S decls).bind fun _ => (enters_procedures S decls).bind fun S' => ?_
    refine (enters_declarations S' decls).bind fun S'' => Enters.cons ?_ rfl
    exact (enters_statements S'' body).last fun _ => enters_pure S''

end

theorem enters_program (p : Program) : Enters p.nodes (program p) := by
  have hinserts (S : Scopes) : Enters [] (inserts S builtins) :=
    (enters_insert S _).bind fun S₁ => (enters_insert S₁ _).bind fun S₂ => enters_pure S₂
  refine Enters.cons ?_ rfl
  refine (enters_note _).bind fun _ => (hinserts _).bind fun S => ?_
  exact (enters_block S p.block).last fun S' => (enters_note _).bind fun _ => enters_pure S'.current

end Resolver

/-- The tables have entries for the references and the calls of the program, and no others. -/
theorem Program.keys_of_resolve {p : Program} {r : Resolution} (h : p.resolve.1 = .ok r)
    (hn : (Node.indices Node.use? p.nodes).Nodup) :
    r.references.keys.Perm (p.references.map Token.index) ∧
      r.calls.keys.Perm (p.calls.map Token.index) := by
  have hreferences : (Node.indices Node.reference? p.nodes).Nodup :=
    hn.sublist (Node.indices_sublist _ (fun _ _ => Node.use?_of_reference?) _)
  have hcalls : (Node.indices Node.call? p.nodes).Nodup :=
    hn.sublist (Node.indices_sublist _ (fun _ _ => Node.use?_of_call?) _)
  unfold Program.resolve at h
  split at h
  · next globals f hrun =>
    cases h
    obtain ⟨hgains, hgains'⟩ := Resolver.enters_program p hrun
    constructor
    · refine (List.perm_ext_iff_of_nodup (hgains.nodup List.nodup_nil) hreferences).mpr fun i => ?_
      exact (hgains.mem i).trans (or_iff_right List.not_mem_nil)
    · refine (List.perm_ext_iff_of_nodup (hgains'.nodup List.nodup_nil) hcalls).mpr fun i => ?_
      exact (hgains'.mem i).trans (or_iff_right List.not_mem_nil)
  · cases h

structure Placed where
  depth : Nat
  decl : Decl

namespace Placed

def symbol (d : Placed) : Symbol := d.decl.symbol d.depth

def innermost? (visible : List Placed) (x : String) : Option Placed :=
  visible.find? fun d => d.decl.name.name == x

theorem innermost?_append (front back : List Placed) (x : String) :
    innermost? (front ++ back) x = (innermost? front x).or (innermost? back x) :=
  List.find?_append

/-- What is visible in the block of a routine at a depth, behind the declarations `before`. -/
def visible (depth : Nat) (outer : List Placed) (params : List Param) (decls before : List Decl) :
    List Placed :=
  (decls.filter Decl.isProcedure ++ before.filter Decl.isVariable).map (mk depth) ++
    ((params.map Param.decl).map (mk depth) ++ outer)

end Placed

/-- A node of the body of a routine, or of the body of a procedure inside it, with what is visible
there. The routine is at the given depth, and `outer` is visible around it. -/
inductive Block.Sees : Nat → List Placed → List Param → Block → Node → List Placed → Prop
  | body {depth : Nat} {outer : List Placed} {params : List Param} {decls : List Decl}
      {start : Token} {body : List Stmt} {node : Node} (hnode : node ∈ Stmt.nodesAll body) :
      Sees depth outer params (.mk decls start body) node
        (Placed.visible depth outer params decls decls)
  | procedure {depth : Nat} {outer visible : List Placed} {params ps : List Param}
      {decls before after : List Decl} {start name : Token} {body : List Stmt} {block : Block}
      {node : Node} (hdecls : decls = before ++ .procedure name ps block :: after)
      (inner : Sees (depth + 1) (Placed.visible depth outer params decls before) ps block node
        visible) :
      Sees depth outer params (.mk decls start body) node visible

def Program.Sees (p : Program) (node : Node) (visible : List Placed) : Prop :=
  p.block.Sees 1 [] [] node visible

/-- The tables have for a use of a name the symbol of the innermost visible declaration of the
name. The level of this symbol is the depth of the routine that declares it. -/
def Node.Bound (r : Resolution) (visible : List Placed) : Node → Prop
  | .expr (.variable t) => ∃ depth name type,
      Placed.innermost? visible t.name = some ⟨depth, .variable name type⟩ ∧
        r.references.find? t.index = some (.declared depth name type)
  | .stmt (.call t args) => ∃ depth name params block,
      Placed.innermost? visible t.name = some ⟨depth, .procedure name params block⟩ ∧
        args.length = params.length ∧
        r.calls.find? t.index = some (.declared depth name params block)
  | _ => True

theorem Decl.AllResolved.resolved_behind {r : Resolution} {S : Scopes}
    {decls before after : List Decl} {d : Decl} (h : Decl.AllResolved r S decls)
    (hdecls : decls = before ++ d :: after) :
    d.Resolved r (before.foldl Scopes.declare S) := by
  subst hdecls
  induction before generalizing S with
  | nil =>
    rw [List.nil_append, Decl.AllResolved] at h
    exact h.1
  | cons d' before ih =>
    rw [List.cons_append, Decl.AllResolved] at h
    exact ih h.2

namespace Scopes

variable {S : Scopes} {depth : Nat} {visible : List Placed}

/-- The scopes of a routine at a depth hold the visible declarations; beyond these they know the
built-in types only. -/
structure Reflects (S : Scopes) (depth : Nat) (visible : List Placed) : Prop where
  level : S.current.level = depth
  lookup : ∀ x, S.lookup x =
    ((Placed.innermost? visible x).map Placed.symbol).or (globals.lookup x)

theorem reflects_globals : globals.Reflects 1 [] :=
  ⟨rfl, fun _ => (Option.none_or).symm⟩

theorem Reflects.append (h : S.Reflects depth visible) {more : List Decl}
    (hfresh : S.Fresh (more.map fun d => d.name.name)) :
    (S.append (more.map (Decl.symbol depth))).Reflects depth
      (more.map (Placed.mk depth) ++ visible) := by
  refine ⟨h.level, fun x => ?_⟩
  have hmore : (more.map (Decl.symbol depth)).find? (fun symbol => symbol.name == x) =
      (Placed.innermost? (more.map (Placed.mk depth)) x).map Placed.symbol := by
    rw [Decl.find?_symbol, Placed.innermost?, List.find?_map, Option.map_map]
    rfl
  rw [lookup_append (by rw [Decl.map_name_symbol]; exact hfresh.2), hmore, h.lookup,
    Placed.innermost?_append, Option.map_or, Option.or_assoc]

theorem Reflects.enter (h : S.Reflects depth visible) (name : String) :
    (S.enter name).Reflects (depth + 1) visible := by
  refine ⟨?_, h.lookup⟩
  rw [Scopes.enter, h.level]
  rfl

theorem Reflects.inside (h : S.Reflects depth visible) (name : Token) {params : List Param}
    (hdistinct : (params.map fun p => p.name.name).Nodup) :
    (S.inside name params).Reflects (depth + 1)
      ((params.map Param.decl).map (Placed.mk (depth + 1)) ++ visible) := by
  rw [inside_eq_append name hdistinct, Param.symbols_eq, h.level]
  refine (h.enter name.name).append ((fresh_enter _).mpr ?_)
  rw [List.map_map]
  exact hdistinct

theorem Reflects.behind {outer : List Placed} {params : List Param} {decls before after : List Decl}
    (h : S.Reflects depth ((params.map Param.decl).map (Placed.mk depth) ++ outer))
    (hdecls : decls = before ++ after) (hfresh : S.Fresh (decls.map fun d => d.name.name)) :
    (before.foldl declare (S.withProcedures decls)).Reflects depth
      (Placed.visible depth outer params decls before) := by
  obtain ⟨hmore, hscopes⟩ := declared_behind hdecls hfresh
  rw [hscopes, h.level]
  exact h.append hmore

/-- What a name stands for is declared, unless it is a built-in type. -/
theorem Reflects.exists_placed (h : S.Reflects depth visible) {x : String} {symbol : Symbol}
    (hx : S.lookup x = some symbol) (hs : ∀ name level, symbol ≠ .builtinType name level) :
    ∃ d, Placed.innermost? visible x = some d ∧ d.symbol = symbol := by
  rw [h.lookup] at hx
  cases hd : Placed.innermost? visible x with
  | some d =>
    rw [hd] at hx
    exact ⟨d, rfl, Option.some.inj hx⟩
  | none =>
    rw [hd, Option.map_none, Option.none_or] at hx
    obtain ⟨name, level, heq⟩ := builtin_of_mem_globals (mem_of_lookup rfl hx)
    exact absurd heq (hs name level)

theorem Reflects.bound (h : S.Reflects depth visible) {r : Resolution} {node : Node}
    (hr : node.Resolved r S) : node.Bound r visible := by
  unfold Node.Resolved at hr
  split at hr
  · next t =>
    obtain ⟨v, hv, hentry⟩ := hr
    obtain ⟨⟨depth', d⟩, hd, hsymbol⟩ := h.exists_placed hv fun _ _ => Symbol.noConfusion
    cases d with
    | «variable» name type =>
      cases hsymbol
      exact ⟨depth', name, type, hd, hentry⟩
    | procedure name params block => cases hsymbol
  · next t args =>
    obtain ⟨p, hp, hlength, hentry⟩ := hr
    obtain ⟨⟨depth', d⟩, hd, hsymbol⟩ := h.exists_placed hp fun _ _ => Symbol.noConfusion
    cases d with
    | «variable» name type => cases hsymbol
    | procedure name params block =>
      cases hsymbol
      rw [Procedure.declared, List.length_map] at hlength
      exact ⟨depth', name, params, block, hd, hlength, hentry⟩
  · next hreference hcall =>
    unfold Node.Bound
    split
    · exact absurd rfl (hreference _)
    · exact absurd rfl (hcall _ _)
    · trivial

end Scopes

/-- A resolution that fits a block binds every use of a name to what is visible there. -/
theorem Block.Sees.bound {depth : Nat} {outer visible : List Placed} {params : List Param}
    {b : Block} {node : Node} (h : b.Sees depth outer params node visible) {r : Resolution}
    {S : Scopes} (hr : b.Resolved r S)
    (hS : S.Reflects depth ((params.map Param.decl).map (Placed.mk depth) ++ outer)) :
    node.Bound r visible := by
  induction h generalizing S with
  | @body depth outer params decls start body node hnode =>
    rw [Block.Resolved] at hr
    obtain ⟨hfresh, _, hbody⟩ := hr
    exact (hS.behind (List.append_nil decls).symm hfresh).bound (hbody node hnode)
  | @procedure depth outer visible params ps decls before after start name body block node hdecls
      inner ih =>
    rw [Block.Resolved] at hr
    obtain ⟨hfresh, hall, _⟩ := hr
    have hprocedure := hall.resolved_behind hdecls
    rw [Decl.Resolved] at hprocedure
    exact ih hprocedure.2 ((hS.behind hdecls hfresh).inside name hprocedure.1)

theorem Param.use?_eq_none {params : List Param} {node : Node}
    (h : node ∈ params.flatMap fun p => [Node.param p, Node.type p.type]) : node.use? = none := by
  obtain ⟨p, _, hnode⟩ := List.mem_flatMap.mp h
  simp only [List.mem_cons, List.not_mem_nil, or_false] at hnode
  rcases hnode with rfl | rfl <;> rfl

mutual

/-- Names are used in bodies only. -/
theorem Block.exists_sees {node : Node} (huse : node.use? ≠ none) (depth : Nat)
    (outer : List Placed) (params : List Param) : ∀ b : Block, node ∈ b.nodes →
      ∃ visible, b.Sees depth outer params node visible
  | .mk decls start body, hnode => by
    rw [Block.nodes, List.mem_cons, List.mem_append, List.mem_cons] at hnode
    rcases hnode with rfl | hnode | rfl | hnode
    · exact absurd rfl huse
    · obtain ⟨before, name, ps, block, after, hdecls, hinner⟩ :=
        Decl.exists_sees huse (depth + 1) (Placed.visible depth outer params decls) decls hnode
      obtain ⟨visible, hsees⟩ := hinner
      exact ⟨visible, .procedure hdecls hsees⟩
    · exact absurd rfl huse
    · exact ⟨_, .body hnode⟩

theorem Decl.exists_sees {node : Node} (huse : node.use? ≠ none) (depth : Nat)
    (view : List Decl → List Placed) : ∀ decls : List Decl, node ∈ Decl.nodesAll decls →
      ∃ before name ps block after, decls = before ++ .procedure name ps block :: after ∧
        ∃ visible, block.Sees depth (view before) ps node visible
  | [], hnode => by cases hnode
  | .variable name type :: rest, hnode => by
    simp only [Decl.nodesAll, Decl.nodes, List.cons_append, List.nil_append, List.mem_cons] at hnode
    rcases hnode with rfl | rfl | hnode
    · exact absurd rfl huse
    · exact absurd rfl huse
    · obtain ⟨before, name', ps, block, after, rfl, hinner⟩ :=
        Decl.exists_sees huse depth (fun before => view (.variable name type :: before)) rest hnode
      exact ⟨_ :: before, name', ps, block, after, rfl, hinner⟩
  | .procedure name ps block :: rest, hnode => by
    rw [Decl.nodesAll, Decl.nodes, List.mem_append, List.mem_cons, List.mem_append] at hnode
    rcases hnode with (rfl | hnode | hnode) | hnode
    · exact absurd rfl huse
    · exact absurd (Param.use?_eq_none hnode) huse
    · exact ⟨[], name, ps, block, rest, rfl, Block.exists_sees huse depth _ ps block hnode⟩
    · obtain ⟨before, name', ps', block', after, rfl, hinner⟩ :=
        Decl.exists_sees huse depth (fun before => view (.procedure name ps block :: before)) rest
          hnode
      exact ⟨_ :: before, name', ps', block', after, rfl, hinner⟩

end

namespace Program

/-- The tables have exactly the references and the calls of a program, which their indices tell
apart from each other and from the names that are declared. Each is a node that sees some
declarations, and its entry is the symbol of the innermost one of its name. -/
theorem tables_are_exact {file : String} {source : Bytes} {index : Nat} {p : Program}
    {r : Resolution} (hp : Program.ofSource file source index = .ok p) (hr : p.resolve.1 = .ok r) :
    (Node.indices Node.name? p.nodes).Nodup ∧
      r.references.keys.Perm (p.references.map Token.index) ∧
      r.calls.keys.Perm (p.calls.map Token.index) ∧
      (∀ node ∈ p.nodes, node.use? ≠ none → ∃ visible, p.Sees node visible) ∧
      ∀ node visible, p.Sees node visible → node.Bound r visible := by
  have huses := nodup_uses hp
  obtain ⟨hreferences, hcalls⟩ := keys_of_resolve hr huses
  refine ⟨nodup_names hp, hreferences, hcalls, fun node hnode huse => ?_, fun node visible h => ?_⟩
  · rw [Program.nodes, List.mem_cons] at hnode
    rcases hnode with rfl | hnode
    · exact absurd rfl huse
    · exact Block.exists_sees huse 1 [] [] p.block hnode
  · exact h.bound (resolved hr huses) Scopes.reflects_globals

/-- The procedure `g` reads the `x` of the program, because the `x` of `f` is declared behind it,
and calls its own `h`. -/
theorem tables_are_exact_behind :
    let source := ("program p; var x : real; procedure h; begin end; procedure f; procedure g; " ++
      "procedure h(y : real); begin y := x end; begin h(x) end; var x : real; begin h() end; " ++
      "begin end.").toList.map fun c => c.toNat.toUInt8
    ∃ p r, Program.ofSource "p.pas" source = .ok p ∧ p.resolve.1 = .ok r ∧
      (r.references.map fun entry => (entry.1, entry.2.level)) = [(37, 1), (29, 4), (31, 1)] ∧
      (r.calls.map fun entry => (entry.1, entry.2.level)) = [(47, 1), (35, 3)] ∧
      r.references.keys.Perm (p.references.map Token.index) ∧
      ∀ node ∈ p.nodes, node.use? ≠ none →
        ∃ visible, p.Sees node visible ∧ node.Bound r visible := by
  intro source
  obtain ⟨p, r, hp, hr, hlevels⟩ : ∃ p r, Program.ofSource "p.pas" source = .ok p ∧
      p.resolve.1 = .ok r ∧
      decide ((r.references.map fun entry => (entry.1, entry.2.level)) =
          [(37, 1), (29, 4), (31, 1)] ∧
        (r.calls.map fun entry => (entry.1, entry.2.level)) = [(47, 1), (35, 3)]) = true :=
    exists_resolved (by decide +kernel)
  obtain ⟨_, hreferences, _, hsees, hbound⟩ := tables_are_exact hp hr
  obtain ⟨hlevels, hlevels'⟩ := of_decide_eq_true hlevels
  refine ⟨p, r, hp, hr, hlevels, hlevels', hreferences, fun node hnode huse => ?_⟩
  obtain ⟨visible, h⟩ := hsees node hnode huse
  exact ⟨visible, h, hbound node visible h⟩

end Program

end MiniPascal
