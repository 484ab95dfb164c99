import MiniPascal.Proofs.Resolution.Tables
import MiniPascal.Proofs.Syntax.Alike

/-!
# Resolving alike programs

In alike programs the same uses of names see alike declarations, so that the innermost visible
declaration of a name is that of an alike symbol. What the tables of one program have under an index
the tables of the other have too, procedures with alike blocks.
-/
namespace MiniPascal

structure Variable.Alike (v v' : Variable) : Prop where
  name : v.name = v'.name
  level : v.level = v'.level

structure Procedure.Alike (p p' : Procedure) : Prop where
  name : p.name = p'.name
  level : p.level = p'.level
  params : p.params.map Variable.name = p'.params.map Variable.name
  block : p.block.Alike p'.block

structure Resolution.Matches (r r' : Resolution) : Prop where
  references : ∀ i v, r.references.find? i = some v →
    ∃ v', r'.references.find? i = some v' ∧ v.Alike v'
  calls : ∀ i p, r.calls.find? i = some p → ∃ p', r'.calls.find? i = some p' ∧ p.Alike p'

structure Placed.Alike (d d' : Placed) : Prop where
  depth : d.depth = d'.depth
  decl : d.decl.Alike d'.decl

/-- What stands between two parts of a list has its counterpart between those of the parts. -/
theorem exists_of_forall₂_append_cons {α β : Type} {rel : α → β → Prop} {front back : List α}
    {a : α} {l : List β} (h : List.Forall₂ rel (front ++ a :: back) l) :
    ∃ front' b back', l = front' ++ b :: back' ∧ List.Forall₂ rel front front' ∧ rel a b ∧
      List.Forall₂ rel back back' := by
  induction front generalizing l with
  | nil =>
    cases h with
    | cons ha hback => exact ⟨[], _, _, rfl, .nil, ha, hback⟩
  | cons c front ih =>
    cases h with
    | cons hc hrest =>
      obtain ⟨front', b, back', rfl, hfront, hb, hback⟩ := ih hrest
      exact ⟨_ :: front', b, back', rfl, .cons hc hfront, hb, hback⟩

theorem exists_mem_of_forall₂ {α β : Type} {rel : α → β → Prop} {l : List α} {l' : List β} {a : α}
    (h : List.Forall₂ rel l l') (ha : a ∈ l) : ∃ b ∈ l', rel a b := by
  obtain ⟨front, back, rfl⟩ := List.append_of_mem ha
  obtain ⟨front', b, back', rfl, _, hb, _⟩ := exists_of_forall₂_append_cons h
  exact ⟨b, List.mem_append_right _ List.mem_cons_self, hb⟩

theorem Decl.Alike.isProcedure {d d' : Decl} (h : d.Alike d') :
    d.isProcedure = true ↔ d'.isProcedure = true := by
  cases h <;> exact Iff.rfl

theorem Decl.Alike.isVariable {d d' : Decl} (h : d.Alike d') :
    d.isVariable = true ↔ d'.isVariable = true := by
  cases h <;> exact Iff.rfl

namespace Placed

variable {outer outer' seen seen' : List Placed} {params params' : List Param}
  {decls decls' before before' : List Decl}

theorem forall₂_mk (depth : Nat) (h : List.Forall₂ Decl.Alike decls decls') :
    List.Forall₂ Placed.Alike (decls.map (mk depth)) (decls'.map (mk depth)) :=
  List.rel_map (fun _ _ hd => ⟨rfl, hd⟩) h

theorem forall₂_visible (depth : Nat) (houter : List.Forall₂ Placed.Alike outer outer')
    (hparams : List.Forall₂ Param.Alike params params')
    (hdecls : List.Forall₂ Decl.Alike decls decls')
    (hbefore : List.Forall₂ Decl.Alike before before') :
    List.Forall₂ Placed.Alike (visible depth outer params decls before)
      (visible depth outer' params' decls' before') := by
  have hformals : List.Forall₂ Decl.Alike (params.map Param.decl) (params'.map Param.decl) :=
    List.rel_map (fun _ _ hp => .variable hp.name hp.type) hparams
  have hprocedures : List.Forall₂ Decl.Alike (decls.filter Decl.isProcedure)
      (decls'.filter Decl.isProcedure) := List.rel_filter (fun _ _ h => h.isProcedure) hdecls
  have hvariables : List.Forall₂ Decl.Alike (before.filter Decl.isVariable)
      (before'.filter Decl.isVariable) := List.rel_filter (fun _ _ h => h.isVariable) hbefore
  exact List.rel_append (forall₂_mk depth (List.rel_append hprocedures hvariables))
    (List.rel_append (forall₂_mk depth hformals) houter)

theorem exists_innermost? (h : List.Forall₂ Placed.Alike seen seen') {x : String} {d : Placed}
    (hd : innermost? seen x = some d) : ∃ d', innermost? seen' x = some d' ∧ d.Alike d' := by
  induction h with
  | nil => cases hd
  | @cons e e' rest rest' he hrest ih =>
    have hname : (e'.decl.name.name == x) = (e.decl.name.name == x) := by
      rw [he.decl.name.name]
    rw [innermost?, List.find?_cons] at hd ⊢
    rw [hname]
    split at hd
    · cases hd
      exact ⟨e', rfl, he⟩
    · exact ih hd

end Placed

/-- An alike node of the other block sees alike declarations. -/
theorem Block.Sees.alike {depth : Nat} {outer visible : List Placed} {params : List Param}
    {b : Block} {node : Node} (h : b.Sees depth outer params node visible) :
    ∀ {outer' : List Placed} {params' : List Param} {b' : Block},
      List.Forall₂ Placed.Alike outer outer' → List.Forall₂ Param.Alike params params' →
      b.Alike b' → ∃ node' visible', b'.Sees depth outer' params' node' visible' ∧
        node.Alike node' ∧ List.Forall₂ Placed.Alike visible visible' := by
  induction h with
  | @body depth outer params decls start body node hnode =>
    rintro outer' params' _ houter hparams ⟨hdecls, _, hbody⟩
    obtain ⟨node', hnode', halike⟩ := exists_mem_of_forall₂ (Stmt.Alike.nodesAll hbody) hnode
    have hvisible := Placed.forall₂_visible depth houter hparams hdecls hdecls
    exact ⟨node', _, .body hnode', halike, hvisible⟩
  | @procedure depth outer visible params ps decls before after start name body block node hsplit
      inner ih =>
    rintro outer' params' _ houter hparams ⟨hdecls, _, hbody⟩
    have hparts := hdecls
    rw [hsplit] at hparts
    obtain ⟨before', d', after', hsplit', hbefore, hd, _⟩ := exists_of_forall₂_append_cons hparts
    cases hd with
    | procedure named formals hblock =>
      have hvisible := Placed.forall₂_visible depth houter hparams hdecls hbefore
      obtain ⟨node', visible', hsees, halike⟩ := ih hvisible formals hblock
      exact ⟨node', visible', .procedure hsplit' hsees, halike⟩

variable {file file' : String} {source source' : Bytes} {index : Nat} {p p' : Program}
  {r r' : Resolution}

theorem Program.Alike.exists_sees (h : p.Alike p') {node : Node} {visible : List Placed}
    (hnode : p.Sees node visible) : ∃ node' visible', p'.Sees node' visible' ∧
      node.Alike node' ∧ List.Forall₂ Placed.Alike visible visible' :=
  Block.Sees.alike hnode .nil .nil h.block

theorem Program.exists_sees {node : Node} (hnode : node ∈ p.nodes) (huse : node.use? ≠ none) :
    ∃ visible, p.Sees node visible := by
  rw [Program.nodes, List.mem_cons] at hnode
  rcases hnode with rfl | hnode
  · exact absurd rfl huse
  · exact Block.exists_sees huse 1 [] [] p.block hnode

theorem Program.Sees.bound {node : Node} {visible : List Placed} (h : p.Sees node visible)
    (hp : Program.ofSource file source index = .ok p) (hr : p.resolve.1 = .ok r) :
    node.Bound r visible :=
  Block.Sees.bound h (resolved hr (nodup_uses hp)) Scopes.reflects_globals

theorem Table.mem_keys_of_find? {α : Type} {t : Table α} {i : Nat} {a : α}
    (h : t.find? i = some a) : i ∈ t.keys := by
  obtain ⟨front, back, rfl, _⟩ := List.lookup_eq_some_iff.mp h
  exact List.mem_map.mpr ⟨(i, a), List.mem_append_right _ List.mem_cons_self, rfl⟩

/-- An entry for a reference is that of the innermost declaration seen by a reference. -/
theorem Program.exists_reference (hp : Program.ofSource file source index = .ok p)
    (hr : p.resolve.1 = .ok r) {i : Nat} {v : Variable} (hv : r.references.find? i = some v) :
    ∃ t visible depth name type, t.index = i ∧ p.Sees (.expr (.variable t)) visible ∧
      Placed.innermost? visible t.name = some ⟨depth, .variable name type⟩ ∧
      v = .declared depth name type := by
  have hkeys := (keys_of_resolve hr (nodup_uses hp)).1
  obtain ⟨t, ht, rfl⟩ := List.mem_map.mp (hkeys.mem_iff.mp (Table.mem_keys_of_find? hv))
  obtain ⟨node, hnode, hreference⟩ := List.mem_filterMap.mp ht
  unfold Node.reference? at hreference
  split at hreference
  · cases hreference
    obtain ⟨visible, hsees⟩ := exists_sees hnode (Option.some_ne_none _)
    obtain ⟨depth, name, type, hd, hentry⟩ := hsees.bound hp hr
    exact ⟨t, visible, depth, name, type, rfl, hsees, hd, Option.some.inj (hv.symm.trans hentry)⟩
  · cases hreference

/-- An entry for a call is that of the innermost declaration seen by a call. -/
theorem Program.exists_call (hp : Program.ofSource file source index = .ok p)
    (hr : p.resolve.1 = .ok r) {i : Nat} {q : Procedure} (hq : r.calls.find? i = some q) :
    ∃ t args visible depth name params block, t.index = i ∧ p.Sees (.stmt (.call t args)) visible ∧
      Placed.innermost? visible t.name = some ⟨depth, .procedure name params block⟩ ∧
      q = .declared depth name params block := by
  have hkeys := (keys_of_resolve hr (nodup_uses hp)).2
  obtain ⟨t, ht, rfl⟩ := List.mem_map.mp (hkeys.mem_iff.mp (Table.mem_keys_of_find? hq))
  obtain ⟨node, hnode, hcall⟩ := List.mem_filterMap.mp ht
  unfold Node.call? at hcall
  split at hcall
  · next name args =>
    cases hcall
    obtain ⟨visible, hsees⟩ := exists_sees hnode (Option.some_ne_none _)
    obtain ⟨depth, name, params, block, hd, _, hentry⟩ := hsees.bound hp hr
    exact ⟨t, args, visible, depth, name, params, block, rfl, hsees, hd,
      Option.some.inj (hq.symm.trans hentry)⟩
  · cases hcall

theorem Procedure.alike_declared (depth : Nat) {name name' : Token} {params params' : List Param}
    {block block' : Block} (hname : name.Alike name')
    (hparams : List.Forall₂ Param.Alike params params') (hblock : block.Alike block') :
    (Procedure.declared depth name params block).Alike (.declared depth name' params' block') := by
  refine ⟨hname.name, rfl, ?_, hblock⟩
  rw [Procedure.declared, Procedure.declared, List.map_map, List.map_map]
  induction hparams with
  | nil => rfl
  | cons hp hrest ih => exact congrArg₂ List.cons hp.name.name ih

/-- The tables of alike programs agree. -/
theorem Program.Alike.matches (h : p.Alike p') (hp : Program.ofSource file source index = .ok p)
    (hp' : Program.ofSource file' source' index = .ok p') (hr : p.resolve.1 = .ok r)
    (hr' : p'.resolve.1 = .ok r') : r.Matches r' := by
  constructor
  · intro i v hv
    obtain ⟨t, visible, depth, name, type, rfl, hsees, hd, rfl⟩ := exists_reference hp hr hv
    obtain ⟨node', visible', hsees', hnode, hvisible⟩ := h.exists_sees hsees
    obtain ⟨⟨depth', d'⟩, hd', hdepth, hdecl⟩ := Placed.exists_innermost? hvisible hd
    cases hnode with
    | expr hexpr =>
      cases hexpr with
      | «variable» token =>
        obtain ⟨depth'', name', type', hinner, hentry⟩ := hsees'.bound hp' hr'
        rw [← token.name, hd'] at hinner
        cases hinner
        cases hdepth
        cases hdecl with
        | «variable» named typed =>
          rw [token.index]
          exact ⟨_, hentry, named.name, rfl⟩
  · intro i q hq
    obtain ⟨t, args, visible, depth, name, params, block, rfl, hsees, hd, rfl⟩ :=
      exists_call hp hr hq
    obtain ⟨node', visible', hsees', hnode, hvisible⟩ := h.exists_sees hsees
    obtain ⟨⟨depth', d'⟩, hd', hdepth, hdecl⟩ := Placed.exists_innermost? hvisible hd
    cases hnode with
    | stmt hstmt =>
      cases hstmt with
      | call token values =>
        obtain ⟨depth'', name', params', block', hinner, _, hentry⟩ := hsees'.bound hp' hr'
        rw [← token.name, hd'] at hinner
        cases hinner
        cases hdepth
        cases hdecl with
        | procedure named formals inner =>
          rw [token.index]
          exact ⟨_, hentry, Procedure.alike_declared depth named formals inner⟩

end MiniPascal
