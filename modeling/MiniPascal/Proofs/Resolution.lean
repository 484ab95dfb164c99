import MiniPascal.Proofs.Scope
import MiniPascal.Proofs.Stateful
import MiniPascal.Proofs.Syntax.Nodes

/-!
# What a resolution finds

A resolution fits a block if every name that is used in it, in the bodies of its procedures too,
stands for the symbol that the tables have for it, where names are looked up in the scopes around
their use.

Resolving settles the entries of the names that are used and keeps all others. Where no two uses
share an index, nothing that was settled is overwritten later, so that the resolution of a program
that was read fits the program.
-/
namespace MiniPascal

namespace Table

variable {α : Type}

theorem find?_insert_self (t : Table α) (i : Nat) (a : α) : (t.insert i a).find? i = some a := by
  simp only [insert, find?, List.lookup_cons_self]

theorem find?_filter_of_ne {i j : Nat} (h : j ≠ i) (t : Table α) :
    List.lookup j (t.filter (·.1 != i)) = List.lookup j t := by
  induction t with
  | nil => rfl
  | cons entry rest ih =>
    obtain ⟨k, a⟩ := entry
    by_cases hk : k = i
    · have hjk : (j == k) = false := beq_eq_false_iff_ne.mpr (hk ▸ h)
      rw [List.filter_cons_of_neg (by simp [hk]), ih, List.lookup_cons, hjk]
    · rw [List.filter_cons_of_pos (by simp [hk]), List.lookup_cons, List.lookup_cons, ih]

theorem find?_insert_of_ne {i j : Nat} (h : j ≠ i) (t : Table α) (a : α) :
    (t.insert i a).find? j = t.find? j := by
  have hij : (j == i) = false := beq_eq_false_iff_ne.mpr h
  simp only [insert, find?, List.lookup_cons, hij, find?_filter_of_ne h]

end Table

/-- A use of a name stands for what the tables say: a variable, or a procedure with as many
parameters as there are arguments. -/
def Node.Resolved (r : Resolution) (S : Scopes) : Node → Prop
  | .expr (.variable t) =>
    ∃ v, S.lookup t.name = some (.variable v) ∧ r.references.find? t.index = some v
  | .stmt (.call name args) =>
    ∃ p, S.lookup name.name = some (.procedure p) ∧ args.length = p.params.length ∧
      r.calls.find? name.index = some p
  | _ => True

namespace Scopes

/-- The scopes behind a declaration; procedures are known already. -/
def declare (S : Scopes) : Decl → Scopes
  | .variable name type => S.insert (.variable (.declared S.current.level name type))
  | .procedure .. => S

def withProcedures (S : Scopes) (decls : List Decl) : Scopes :=
  S.insertAll (Decl.procedureSymbols S.current.level decls)

def body (S : Scopes) (decls : List Decl) : Scopes :=
  decls.foldl declare (S.withProcedures decls)

def inside (S : Scopes) (name : Token) (params : List Param) : Scopes :=
  (S.enter name.name).insertAll (Param.symbols (S.current.level + 1) params)

theorem Fresh.symbols {S : Scopes} {decls : List Decl}
    (h : S.Fresh (decls.map fun d => d.name.name)) :
    S.Fresh ((Decl.procedureSymbols S.current.level decls).map Symbol.name ++
      (Decl.variableSymbols S.current.level decls).map Symbol.name) := by
  rw [← List.map_append]
  exact h.perm (Decl.symbols_perm S.current.level decls).symm

theorem withProcedures_eq_append {S : Scopes} {decls : List Decl}
    (h : S.Fresh (decls.map fun d => d.name.name)) :
    S.withProcedures decls = S.append (Decl.procedureSymbols S.current.level decls) :=
  insertAll_eq_append h.symbols.left fun _ => Decl.level_of_mem_procedureSymbols

theorem foldl_declare_eq_append {S : Scopes} {decls : List Decl}
    (h : S.Fresh ((Decl.variableSymbols S.current.level decls).map Symbol.name)) :
    decls.foldl declare S = S.append (Decl.variableSymbols S.current.level decls) := by
  induction decls generalizing S with
  | nil => exact S.append_nil.symm
  | cons d rest ih =>
    match d with
    | .procedure name params block => exact ih h
    | .variable name type =>
      let symbol : Symbol := .variable (.declared S.current.level name type)
      have hdeclare : S.declare (.variable name type) = S.append [symbol] :=
        insert_eq_append (h.2 _ List.mem_cons_self) rfl
      rw [List.foldl_cons, hdeclare, ih (Fresh.append [symbol] h), append_append]
      rfl

/-- The body of a block sees all declarations of the block in the innermost scope. -/
theorem body_eq_append {S : Scopes} {decls : List Decl}
    (h : S.Fresh (decls.map fun d => d.name.name)) :
    S.body decls = S.append (Decl.procedureSymbols S.current.level decls ++
      Decl.variableSymbols S.current.level decls) := by
  rw [body, withProcedures_eq_append h, foldl_declare_eq_append h.symbols.append, append_append]
  rfl

/-- The block of a procedure sees the parameters in a scope of its own. -/
theorem inside_eq_append {S : Scopes} {params : List Param} (name : Token)
    (h : (params.map fun p => p.name.name).Nodup) :
    S.inside name params =
      (S.enter name.name).append (Param.symbols (S.current.level + 1) params) := by
  refine insertAll_eq_append ((fresh_enter _).mpr ?_) fun _ => Param.level_of_mem_symbols
  rw [Param.symbols, List.map_map]
  exact h

end Scopes

mutual

def Decl.Resolved (r : Resolution) (S : Scopes) : Decl → Prop
  | .variable .. => True
  | .procedure name params block =>
    (params.map fun p => p.name.name).Nodup ∧ block.Resolved r (S.inside name params)

def Decl.AllResolved (r : Resolution) (S : Scopes) : List Decl → Prop
  | [] => True
  | d :: rest => d.Resolved r S ∧ Decl.AllResolved r (S.declare d) rest

/-- A resolution fits a block; no name is declared twice in it. -/
def Block.Resolved (r : Resolution) (S : Scopes) : Block → Prop
  | .mk decls _ body =>
    S.Fresh (decls.map fun d => d.name.name) ∧
      Decl.AllResolved r (S.withProcedures decls) decls ∧
      ∀ node ∈ Stmt.nodesAll body, node.Resolved r (S.body decls)

end

theorem Block.Resolved.fresh {r : Resolution} {S : Scopes} {b : Block} (h : b.Resolved r S) :
    S.Fresh (b.decls.map fun d => d.name.name) := by
  cases b with
  | mk decls start body =>
    rw [Block.Resolved] at h
    exact h.1

namespace Resolver

variable {α β : Type} {uses uses' : List Nat} {x : Resolver α} {P Q : α → Resolution → Prop}

def Agrees (uses : List Nat) (f : Findings) (r : Resolution) : Prop :=
  ∀ i ∈ uses, r.references.find? i = f.references.find? i ∧ r.calls.find? i = f.calls.find? i

def Keeps (uses : List Nat) (f f' : Findings) : Prop :=
  ∀ i, i ∉ uses → f'.references.find? i = f.references.find? i ∧
    f'.calls.find? i = f.calls.find? i

/-- Success settles the entries of some indices and keeps all others. The entries settle `P`: it
holds of the answer and every resolution that has them. -/
def Settles (uses : List Nat) (x : Resolver α) (P : α → Resolution → Prop) : Prop :=
  ∀ ⦃f a f'⦄, x f = (.ok a, f') →
    Keeps uses f f' ∧ (uses.Nodup → ∀ r, Agrees uses f' r → P a r)

theorem Settles.mono (h : Settles uses x P) (hPQ : ∀ a r, P a r → Q a r) : Settles uses x Q := by
  intro f a f' hx
  obtain ⟨hk, hP⟩ := h hx
  exact ⟨hk, fun hn r hr => hPQ a r (hP hn r hr)⟩

theorem Settles.perm (h : Settles uses x P) (hp : uses.Perm uses') : Settles uses' x P := by
  intro f a f' hx
  obtain ⟨hk, hP⟩ := h hx
  refine ⟨fun i hi => hk i fun hi' => hi (hp.mem_iff.mp hi'), fun hn r hr => ?_⟩
  exact hP (hp.nodup_iff.mpr hn) r fun i hi => hr i (hp.mem_iff.mp hi)

/-- What was settled first is not overwritten, since no use occurs twice. -/
theorem Settles.bind {g : α → Resolver β} {R : α → β → Resolution → Prop}
    (hx : Settles uses x P) (hg : ∀ a, Settles uses' (g a) (R a)) :
    Settles (uses ++ uses') (x >>= g) fun b r => ∃ a, P a r ∧ R a b r := by
  intro f b f' h
  obtain ⟨a, f₁, h₁, h₂⟩ := Stateful.bind_eq_ok.mp h
  obtain ⟨hk₁, hP⟩ := hx h₁
  obtain ⟨hk₂, hR⟩ := hg a h₂
  constructor
  · intro i hi
    rw [List.mem_append, not_or] at hi
    obtain ⟨h₁, h₁'⟩ := hk₁ i hi.1
    obtain ⟨h₂, h₂'⟩ := hk₂ i hi.2
    exact ⟨h₂.trans h₁, h₂'.trans h₁'⟩
  · intro hn r hr
    obtain ⟨hn₁, hn₂, hdisjoint⟩ := List.nodup_append.mp hn
    -- an index that `x` has settled is none of those that `g` settles
    refine ⟨a, hP hn₁ r fun i hi => ?_, hR hn₂ r fun i hi => hr i (List.mem_append_right _ hi)⟩
    obtain ⟨h₁, h₁'⟩ := hr i (List.mem_append_left _ hi)
    obtain ⟨h₂, h₂'⟩ := hk₂ i fun hi' => hdisjoint i hi i hi' rfl
    exact ⟨h₁.trans h₂, h₁'.trans h₂'⟩

theorem Settles.bind_silent {g : α → Resolver β} {R : α → β → Resolution → Prop}
    (hx : Settles uses x P) (hg : ∀ a, Settles [] (g a) (R a)) :
    Settles uses (x >>= g) fun b r => ∃ a, P a r ∧ R a b r :=
  (hx.bind hg).perm (.of_eq (List.append_nil uses))

theorem settles_pure (a : α) : Settles [] (pure a) fun b _ => b = a := by
  intro f b f' h
  obtain ⟨rfl, rfl⟩ := Stateful.pure_eq_ok.mp h
  exact ⟨fun i _ => ⟨rfl, rfl⟩, fun _ r _ => rfl⟩

theorem settles_fail (t : Token) (c : Cause) : Settles uses (fail t c : Resolver α) P := by
  intro f a f' h
  exact absurd h Stateful.throw_ne_ok

theorem note_settles (e : ScopeEvent) : Settles [] (note e) fun _ _ => True := by
  intro f a f' h
  have hf := Stateful.modify_eq_ok.mp h
  subst hf
  exact ⟨fun i _ => ⟨rfl, rfl⟩, fun _ r _ => trivial⟩

theorem insert_settles (S : Scopes) (symbol : Symbol) :
    Settles [] (insert S symbol) fun S' _ => S' = S.insert symbol :=
  ((note_settles _).bind_silent fun _ => settles_pure _).mono fun _ _ ⟨_, _, h⟩ => h

theorem type_settles (S : Scopes) (t : Token) : Settles [] (type S t) fun _ _ => True := by
  unfold type
  split
  · exact (settles_pure ()).mono fun _ _ _ => trivial
  · exact settles_fail t _

theorem types_settles (S : Scopes) (ps : List Param) : Settles [] (types S ps) fun _ _ => True := by
  induction ps with
  | nil => exact (settles_pure ()).mono fun _ _ _ => trivial
  | cons p rest ih =>
    exact ((type_settles S p.type).bind_silent fun _ => ih).mono fun _ _ _ => trivial

theorem insertReference_settles (i : Nat) (v : Variable) :
    Settles [i] (modify fun f => { f with references := f.references.insert i v })
      fun _ r => r.references.find? i = some v := by
  intro f a f' h
  have hf := Stateful.modify_eq_ok.mp h
  subst hf
  refine ⟨fun j hj => ⟨?_, rfl⟩, fun _ r hr => ?_⟩
  · exact Table.find?_insert_of_ne (fun h => hj (List.mem_singleton.mpr h)) _ _
  · exact (hr i List.mem_cons_self).1.trans (Table.find?_insert_self f.references i v)

theorem insertCall_settles (i : Nat) (p : Procedure) :
    Settles [i] (modify fun f => { f with calls := f.calls.insert i p })
      fun _ r => r.calls.find? i = some p := by
  intro f a f' h
  have hf := Stateful.modify_eq_ok.mp h
  subst hf
  refine ⟨fun j hj => ⟨rfl, ?_⟩, fun _ r hr => ?_⟩
  · exact Table.find?_insert_of_ne (fun h => hj (List.mem_singleton.mpr h)) _ _
  · exact (hr i List.mem_cons_self).2.trans (Table.find?_insert_self f.calls i p)

theorem reference_settles (S : Scopes) (t : Token) :
    Settles [t.index] (reference S t) fun _ r => (Node.expr (.variable t)).Resolved r S := by
  unfold reference
  refine ((note_settles _).bind fun _ => ?_).mono fun _ _ ⟨_, _, h⟩ => h
  split
  · next v hv => exact (insertReference_settles t.index v).mono fun _ _ h => ⟨v, hv, h⟩
  · exact settles_fail t _

theorem expression_settles (S : Scopes) : ∀ e : Expr,
    Settles (Node.indices Node.use? e.nodes) (expression S e)
      fun _ r => ∀ node ∈ e.nodes, node.Resolved r S
  | .number t v =>
    (settles_pure ()).mono fun _ _ _ => List.forall_mem_singleton.mpr trivial
  | .variable t => (reference_settles S t).mono fun _ _ h => List.forall_mem_singleton.mpr h
  | .unary op e =>
    (expression_settles S e).mono fun _ _ h => List.forall_mem_cons.mpr ⟨trivial, h⟩
  | .binary left op right => by
    rw [Expr.uses_binary]
    refine ((expression_settles S left).bind fun _ => expression_settles S right).mono ?_
    rintro _ r ⟨_, hleft, hright⟩
    rw [Expr.nodes, List.forall_mem_cons, List.forall_mem_append]
    exact ⟨trivial, hleft, hright⟩

theorem expressions_settles (S : Scopes) (es : List Expr) :
    Settles (Node.indices Node.use? (es.flatMap Expr.nodes)) (expressions S es)
      fun _ r => ∀ node ∈ es.flatMap Expr.nodes, node.Resolved r S := by
  induction es with
  | nil => exact (settles_pure ()).mono fun _ _ _ => List.forall_mem_nil _
  | cons e rest ih =>
    rw [List.flatMap_cons, Node.indices_append]
    refine ((expression_settles S e).bind fun _ => ih).mono ?_
    rintro _ r ⟨_, he, hrest⟩
    exact List.forall_mem_append.mpr ⟨he, hrest⟩

theorem call_settles (S : Scopes) (name : Token) (args : List Expr) :
    Settles (Node.indices Node.use? (Stmt.call name args).nodes) (call S name args)
      fun _ r => ∀ node ∈ (Stmt.call name args).nodes, node.Resolved r S := by
  rw [Stmt.uses_call]
  unfold call
  refine ((note_settles _).bind fun _ => ?_).mono fun _ _ ⟨_, _, h⟩ => h
  split
  · next p hp =>
    split
    · next hlen =>
      have hsettles := (expressions_settles S args).bind fun _ => insertCall_settles name.index p
      refine (hsettles.perm List.perm_append_comm).mono ?_
      rintro _ r ⟨_, hargs, hcall⟩
      rw [Stmt.nodes, List.forall_mem_cons]
      exact ⟨⟨p, hp, hlen, hcall⟩, hargs⟩
    · exact settles_fail name _
  · exact settles_fail name _

theorem statements_settles (S : Scopes) (ss : List Stmt) :
    Settles (Node.indices Node.use? (Stmt.nodesAll ss)) (statements S ss)
      fun _ r => ∀ node ∈ Stmt.nodesAll ss, node.Resolved r S := by
  induction ss using Stmt.sequence_induction with
  | nil => exact (settles_pure ()).mono fun _ _ _ => List.forall_mem_nil _
  | compound start children rest ihc ihr =>
    rw [Stmt.nodesAll, Node.indices_append, Stmt.uses_compound]
    refine (ihc.bind fun _ => ihr).mono ?_
    rintro _ r ⟨_, hchildren, hrest⟩
    rw [Stmt.nodes, List.forall_mem_append, List.forall_mem_cons]
    exact ⟨⟨trivial, hchildren⟩, hrest⟩
  | assign target op value rest ih =>
    rw [Stmt.nodesAll, Node.indices_append, Stmt.uses_assign]
    have hvalue := (expression_settles S value).bind fun _ => reference_settles S target
    refine ((hvalue.perm List.perm_append_comm).bind fun _ => ih).mono ?_
    rintro _ r ⟨_, ⟨_, hvalue, htarget⟩, hrest⟩
    rw [Stmt.nodes, List.forall_mem_append, List.forall_mem_cons, List.forall_mem_cons]
    exact ⟨⟨trivial, htarget, hvalue⟩, hrest⟩
  | call name args rest ih =>
    rw [Stmt.nodesAll, Node.indices_append]
    refine ((call_settles S name args).bind fun _ => ih).mono ?_
    rintro _ r ⟨_, hcall, hrest⟩
    exact List.forall_mem_append.mpr ⟨hcall, hrest⟩
  | empty rest ih =>
    rw [Stmt.nodesAll, Node.indices_append]
    refine ((settles_pure ()).bind fun _ => ih).mono ?_
    rintro _ r ⟨_, _, hrest⟩
    exact List.forall_mem_append.mpr ⟨List.forall_mem_singleton.mpr trivial, hrest⟩

theorem firstRepeated_eq_none {taken : List String} {ts : List Token}
    (h : firstRepeated taken ts = none) :
    (ts.map Token.name).Nodup ∧ ∀ x ∈ ts.map Token.name, x ∉ taken := by
  induction ts generalizing taken with
  | nil => exact ⟨List.nodup_nil, List.forall_mem_nil _⟩
  | cons t rest ih =>
    rw [firstRepeated] at h
    split at h
    · cases h
    · next ht =>
      obtain ⟨hnodup, hnew⟩ := ih h
      refine ⟨List.nodup_cons.mpr ⟨fun hmem => ?_, hnodup⟩, List.forall_mem_cons.mpr ⟨?_, ?_⟩⟩
      · exact hnew _ hmem List.mem_cons_self
      · simpa using ht
      · exact fun x hx hx' => hnew x hx (List.mem_cons_of_mem _ hx')

theorem fresh_of_firstRepeated {S : Scopes} {ts : List Token}
    (h : firstRepeated (S.current.symbols.map Symbol.name) ts = none) :
    S.Fresh (ts.map Token.name) := by
  obtain ⟨hnodup, hnew⟩ := firstRepeated_eq_none h
  exact ⟨hnodup, fun x hx => Scope.find?_eq_none_iff.mpr (hnew x hx)⟩

theorem noRepetition_settles (S : Scopes) (decls : List Decl) :
    Settles [] (noRepetition S decls) fun _ _ => S.Fresh (decls.map fun d => d.name.name) := by
  unfold noRepetition
  split
  · next t ht => exact settles_fail t _
  · next h =>
    have hfresh := fresh_of_firstRepeated h
    rw [List.map_map] at hfresh
    exact (settles_pure ()).mono fun _ _ _ => hfresh

theorem procedures_settles (S : Scopes) (decls : List Decl) :
    Settles [] (procedures S decls) fun S' _ => S' = S.withProcedures decls := by
  unfold Scopes.withProcedures Scopes.insertAll
  induction decls generalizing S with
  | nil => exact settles_pure S
  | cons d rest ih =>
    match d with
    | .variable name type => exact ih S
    | .procedure name params block =>
      have hinsert := (insert_settles S (.procedure (.declared S.current.level name params block)))
      refine ((types_settles S params).bind_silent fun _ => hinsert.bind_silent ih).mono ?_
      rintro S' _ ⟨_, _, S₁, rfl, rfl⟩
      rw [Scopes.level_insert]
      rfl

theorem params_settles (S : Scopes) (ps : List Param) :
    Settles [] (params S ps) fun S' _ => S.Fresh (ps.map fun p => p.name.name) ∧
      S' = S.insertAll (Param.symbols S.current.level ps) := by
  unfold Scopes.insertAll Param.symbols
  induction ps generalizing S with
  | nil =>
    refine (settles_pure S).mono fun S' _ h => ⟨⟨List.nodup_nil, List.forall_mem_nil _⟩, h⟩
  | cons p rest ih =>
    rw [params]
    split
    · exact settles_fail p.name _
    · next hnew =>
      have hfind : S.current.find? p.name.name = none := by
        rw [← Option.not_isSome_iff_eq_none]
        exact hnew
      let symbol : Symbol := .variable (.declared S.current.level p.name p.type)
      have happend : S.insert symbol = S.append [symbol] := Scopes.insert_eq_append hfind rfl
      refine ((insert_settles S symbol).bind_silent ih).mono ?_
      rintro S' _ ⟨S₁, rfl, hfresh, rfl⟩
      refine ⟨?_, ?_⟩
      · rw [happend] at hfresh
        have hname : symbol.name = p.name.name := rfl
        rw [List.map_cons, ← hname]
        exact hfresh.cons hfind
      · rw [Scopes.level_insert]
        rfl

theorem enter_settles (S : Scopes) (name : String) :
    Settles [] (enter S name) fun S' _ => S' = S.enter name :=
  ((note_settles _).bind_silent fun _ => settles_pure _).mono fun _ _ ⟨_, _, h⟩ => h

mutual

theorem declaration_settles (S : Scopes) : ∀ d : Decl,
    Settles (Node.indices Node.use? d.nodes) (declaration S d)
      fun S' r => d.Resolved r S ∧ S' = S.declare d
  | .variable name type => by
    refine ((type_settles S type).bind_silent fun _ => insert_settles S _).mono ?_
    rintro S' _ ⟨_, _, h⟩
    exact ⟨trivial, h⟩
  | .procedure name params block => by
    rw [Decl.uses_procedure]
    have hlast (inner S' : Scopes) : Settles [] (do leave inner; return S') fun S'' _ => S'' = S' :=
      ((note_settles _).bind_silent fun _ => settles_pure S').mono fun _ _ ⟨_, _, h⟩ => h
    have hblock (inner : Scopes) := (block_settles inner block).bind_silent fun inner' =>
      hlast inner' S
    refine ((enter_settles S name.name).bind fun inner =>
      (params_settles inner params).bind hblock).mono ?_
    rintro S' r ⟨_, rfl, _, ⟨hfresh, rfl⟩, _, hblock, rfl⟩
    exact ⟨⟨(Scopes.fresh_enter _).mp hfresh, hblock⟩, rfl⟩

theorem declarations_settles (S : Scopes) : ∀ decls : List Decl,
    Settles (Node.indices Node.use? (Decl.nodesAll decls)) (declarations S decls)
      fun S' r => Decl.AllResolved r S decls ∧ S' = decls.foldl Scopes.declare S
  | [] => (settles_pure S).mono fun _ _ h => ⟨trivial, h⟩
  | d :: rest => by
    rw [Decl.nodesAll, Node.indices_append]
    refine ((declaration_settles S d).bind fun S' => declarations_settles S' rest).mono ?_
    rintro S' r ⟨_, ⟨hd, rfl⟩, hrest, rfl⟩
    exact ⟨⟨hd, hrest⟩, rfl⟩

theorem block_settles (S : Scopes) : ∀ b : Block,
    Settles (Node.indices Node.use? b.nodes) (block S b) fun _ r => b.Resolved r S
  | .mk decls start body => by
    rw [Block.uses_mk]
    have hbody (S' : Scopes) := (statements_settles S' body).bind_silent fun _ => settles_pure S'
    refine ((noRepetition_settles S decls).bind fun _ => (procedures_settles S decls).bind fun S' =>
      (declarations_settles S' decls).bind hbody).mono ?_
    rintro _ r ⟨_, hfresh, _, rfl, _, ⟨hdecls, rfl⟩, _, hbody, _⟩
    exact ⟨hfresh, hdecls, hbody⟩

end

end Resolver

def Scopes.globals : Scopes :=
  { current := { name := "global", symbols := Resolver.builtins.map (Symbol.atLevel 1) } }

theorem Resolver.program_settles (p : Program) :
    Settles (Node.indices Node.use? p.nodes) (program p)
      fun _ r => p.block.Resolved r .globals := by
  have hinserts (S : Scopes) : Settles [] (inserts S builtins) fun S' _ =>
      S' = builtins.foldl Scopes.insert S := by
    refine ((insert_settles S _).bind_silent fun S₁ =>
      (insert_settles S₁ _).bind_silent fun S₂ => settles_pure S₂).mono ?_
    rintro S' _ ⟨_, rfl, _, rfl, rfl⟩
    rfl
  have hlast (S : Scopes) : Settles [] (do leave S; return S.current) fun _ _ => True :=
    ((note_settles _).bind_silent fun _ => settles_pure S.current).mono fun _ _ _ => trivial
  refine ((note_settles _).bind fun _ => (hinserts _).bind fun S =>
    (block_settles S p.block).bind_silent hlast).mono ?_
  rintro _ r ⟨_, _, S, rfl, _, hblock, _⟩
  exact hblock

theorem Scopes.builtin_of_mem_globals {symbol : Symbol} (h : symbol ∈ globals.current.symbols) :
    ∃ name level, symbol = .builtinType name level := by
  simp only [globals, Resolver.builtins, List.map_cons, List.map_nil, List.mem_cons,
    List.not_mem_nil, or_false, Symbol.atLevel] at h
  rcases h with rfl | rfl
  · exact ⟨_, _, rfl⟩
  · exact ⟨_, _, rfl⟩

theorem Scopes.leveled_globals : globals.Leveled := by
  refine ⟨rfl, ?_, trivial⟩
  decide

/-- The resolution of a program fits it, if no two uses of names share an index. -/
theorem Program.resolved {p : Program} {r : Resolution} (h : p.resolve.1 = .ok r)
    (hn : (Node.indices Node.use? p.nodes).Nodup) : p.block.Resolved r .globals := by
  unfold Program.resolve at h
  split at h
  · next globals f hrun =>
    cases h
    exact (Resolver.program_settles p hrun).2 hn _ fun i _ => ⟨rfl, rfl⟩
  · cases h

theorem eq_ok_of_toOption {ε α : Type} {x : Except ε α} {a : α} (h : x.toOption = some a) :
    x = .ok a := by
  cases x with
  | error e => cases h
  | ok b =>
    cases h
    rfl

/-- Reads and resolves a text by evaluation. -/
theorem Program.exists_resolved {file : String} {source : Bytes} {P : Program → Resolution → Bool}
    (h : ((Program.ofSource file source).toOption.any fun p =>
      p.resolve.1.toOption.any (P p)) = true) :
    ∃ p r, Program.ofSource file source = .ok p ∧ p.resolve.1 = .ok r ∧ P p r = true := by
  obtain ⟨p, hp, h⟩ := (Option.any_eq_true _ _).mp h
  obtain ⟨r, hr, h⟩ := (Option.any_eq_true _ _).mp h
  exact ⟨p, r, eq_ok_of_toOption hp, eq_ok_of_toOption hr, h⟩

end MiniPascal
