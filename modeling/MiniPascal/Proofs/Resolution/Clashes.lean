import MiniPascal.Proofs.Resolution.Bodies
import MiniPascal.Proofs.Resolution.Tables
import MiniPascal.Proofs.Resolution.Thorough
import MiniPascal.Proofs.Resolution.WellScoped

/-!
# Names that are declared twice

The names of a routine are its parameters and then the declarations of its block, in the order of
the text. Coming to a routine, the resolver looks for a name that equals an earlier one before it
looks at anything inside the block: procedures become known before variables, but the first
repetition is that of the text.
-/
namespace MiniPascal

/-- The first of some names that equals one before it. -/
def FirstRepeated (ts : List Token) (t : Token) : Prop :=
  ∃ before after, ts = before ++ t :: after ∧ (before.map Token.name).Nodup ∧
    t.name ∈ before.map Token.name

namespace Param

theorem map_name (ps : List Param) :
    (ps.map name).map Token.name = ps.map fun p => p.name.name :=
  List.map_map

theorem map_name_symbols (level : Int) (ps : List Param) :
    (symbols level ps).map Symbol.name = (ps.map name).map Token.name := by
  rw [symbols, List.map_map, List.map_map]
  rfl

end Param

def Findings.inserted (f : Findings) (names : List String) : Findings :=
  { f with events := (names.map ScopeEvent.inserted).reverse ++ f.events }

theorem Findings.inserted_inserted (f : Findings) (names names' : List String) :
    (f.inserted names).inserted names' = f.inserted (names ++ names') := by
  simp only [inserted, List.map_append, List.reverse_append, List.append_assoc]

namespace Resolver

variable {taken taken' : List String} {ts : List Token} {t : Token}

theorem firstRepeated_append (front back : List Token) :
    firstRepeated taken (front ++ back) =
      (firstRepeated taken front).or
        (firstRepeated ((front.map Token.name).reverse ++ taken) back) := by
  induction front generalizing taken with
  | nil => rfl
  | cons t rest ih =>
    rw [List.cons_append, firstRepeated, firstRepeated]
    split
    · rfl
    · rw [ih, List.map_cons, List.reverse_cons, List.append_assoc]
      rfl

/-- Of the names that are taken only those matter that occur. -/
theorem firstRepeated_congr (h : ∀ x ∈ ts.map Token.name, x ∈ taken ↔ x ∈ taken') :
    firstRepeated taken ts = firstRepeated taken' ts := by
  induction ts generalizing taken taken' with
  | nil => rfl
  | cons t rest ih =>
    obtain ⟨ht, hrest⟩ := List.forall_mem_cons.mp h
    have hcontains : taken.contains t.name = taken'.contains t.name := by
      rw [Bool.eq_iff_iff, List.contains_iff_mem, List.contains_iff_mem]
      exact ht
    rw [firstRepeated, firstRepeated, hcontains]
    split
    · rfl
    · refine ih fun x hx => ?_
      rw [List.mem_cons, List.mem_cons, hrest x hx]

theorem firstRepeated_eq_some (h : firstRepeated taken ts = some t) :
    ∃ before after, ts = before ++ t :: after ∧ firstRepeated taken before = none ∧
      t.name ∈ (before.map Token.name).reverse ++ taken := by
  induction ts generalizing taken with
  | nil => cases h
  | cons t' rest ih =>
    rw [firstRepeated] at h
    split at h
    · next htaken =>
      cases h
      exact ⟨[], rest, rfl, rfl, List.contains_iff_mem.mp htaken⟩
    · next htaken =>
      obtain ⟨before, after, rfl, hnone, ht⟩ := ih h
      refine ⟨t' :: before, after, rfl, ?_, ?_⟩
      · rw [firstRepeated, if_neg htaken]
        exact hnone
      · rw [List.map_cons, List.reverse_cons, List.append_assoc]
        exact ht

theorem firstRepeated_nil_iff : firstRepeated [] ts = some t ↔ FirstRepeated ts t := by
  constructor
  · intro h
    obtain ⟨before, after, hts, hnone, ht⟩ := firstRepeated_eq_some h
    rw [List.append_nil, List.mem_reverse] at ht
    exact ⟨before, after, hts, (firstRepeated_eq_none hnone).1, ht⟩
  · rintro ⟨before, after, rfl, hnodup, ht⟩
    have hmem : t.name ∈ (before.map Token.name).reverse ++ [] := by
      rw [List.append_nil, List.mem_reverse]
      exact ht
    rw [firstRepeated_append, firstRepeated_of_nodup hnodup fun _ _ => List.not_mem_nil,
      Option.none_or, firstRepeated, if_pos (List.contains_iff_mem.mpr hmem)]

variable {S : Scopes} {f f' : Findings} {ps : List Param}

/-- The names of appended symbols are taken as well. -/
theorem firstRepeated_of_append (S : Scopes) (symbols : List Symbol) (ts : List Token) :
    firstRepeated ((S.append symbols).current.symbols.map Symbol.name) ts =
      firstRepeated ((symbols.map Symbol.name).reverse ++ S.current.symbols.map Symbol.name)
        ts := by
  refine firstRepeated_congr fun x _ => ?_
  rw [Scopes.append, List.map_append, List.mem_append, List.mem_append, List.mem_reverse, or_comm]

theorem params_cons_of_new {p : Param} (h : S.current.find? p.name.name = none) :
    params S (p :: ps) f =
      params (S.append [.variable (.declared S.current.level p.name p.type)]) ps
        (f.inserted [p.name.name]) := by
  rw [params, h, Option.isSome_none, if_neg Bool.false_ne_true, ← Scopes.insert_eq_append h rfl]
  rfl

/-- The names of some parameters are inserted up to the first that is taken. -/
theorem params_of_repeated (f : Findings)
    (h : firstRepeated (S.current.symbols.map Symbol.name) (ps.map Param.name) = some t) :
    ∃ names, names <+: ps.map (fun p => p.name.name) ∧
      params S ps f = (.error (.atToken t (.duplicate t.name)), f.inserted names) := by
  induction ps generalizing S f with
  | nil => cases h
  | cons p rest ih =>
    rw [List.map_cons, firstRepeated] at h
    by_cases hmem : p.name.name ∈ S.current.symbols.map Symbol.name
    · have hfind : (S.current.find? p.name.name).isSome = true := by
        rw [Option.isSome_iff_ne_none, ne_eq, Scope.find?_eq_none_iff, not_not]
        exact hmem
      rw [if_pos (List.contains_iff_mem.mpr hmem)] at h
      cases h
      refine ⟨[], List.nil_prefix, ?_⟩
      rw [params, if_pos hfind]
      rfl
    · rw [if_neg (mt List.contains_iff_mem.mp hmem)] at h
      rw [params_cons_of_new (Scope.find?_eq_none_iff.mpr hmem)]
      let symbol : Symbol := .variable (.declared S.current.level p.name p.type)
      obtain ⟨names, hnames, hrun⟩ :=
        ih (f.inserted [p.name.name]) ((firstRepeated_of_append S [symbol] _).trans h)
      refine ⟨p.name.name :: names, List.cons_prefix_cons.mpr ⟨rfl, hnames⟩, ?_⟩
      rw [hrun, Findings.inserted_inserted]
      rfl

theorem params_of_fresh (f : Findings)
    (h : firstRepeated (S.current.symbols.map Symbol.name) (ps.map Param.name) = none) :
    params S ps f = (.ok (S.append (Param.symbols S.current.level ps)),
      f.inserted (ps.map fun p => p.name.name)) := by
  have hfresh : S.Fresh (ps.map fun p => p.name.name) := by
    rw [← Param.map_name]
    exact fresh_of_firstRepeated h
  clear h
  induction ps generalizing S f with
  | nil =>
    rw [Param.symbols, List.map_nil, Scopes.append_nil]
    rfl
  | cons p rest ih =>
    rw [params_cons_of_new (hfresh.2 _ List.mem_cons_self), ih _ (Scopes.Fresh.append [_] hfresh),
      Findings.inserted_inserted, Scopes.append_append]
    rfl

theorem noRepetition_of_repeated (f : Findings) {decls : List Decl}
    (h : firstRepeated (S.current.symbols.map Symbol.name) (decls.map Decl.name) = some t) :
    noRepetition S decls f = (.error (.atToken t (.duplicate t.name)), f) := by
  rw [noRepetition, h]
  rfl

theorem noRepetition_of_fresh (f : Findings) {decls : List Decl}
    (h : firstRepeated (S.current.symbols.map Symbol.name) (decls.map Decl.name) = none) :
    noRepetition S decls f = (.ok (), f) := by
  rw [noRepetition, h]
  rfl

section

variable {α β : Type} {x : Resolver α}

def NoClash (x : Resolver α) : Prop :=
  ∀ ⦃f d f'⦄, x f = (.error d, f') → d.code ≠ .duplicateName

theorem NoClash.bind {g : α → Resolver β} (hx : NoClash x) (hg : ∀ a, NoClash (g a)) :
    NoClash (x >>= g) := by
  intro f d f' h
  rcases Stateful.bind_eq_error.mp h with h | ⟨a, f₁, _, h⟩
  · exact hx h
  · exact hg a h

theorem noClash_pure (a : α) : NoClash (pure a) := by
  intro f d f' h
  cases h

theorem noClash_modify (g : Findings → Findings) : NoClash (modify g) := by
  intro f d f' h
  cases h

theorem noClash_fail {c : Cause} (h : c.code ≠ .duplicateName) (t : Token) :
    NoClash (fail t c : Resolver α) := by
  intro f d f' hfail
  cases hfail
  exact h

theorem noClash_type (S : Scopes) (t : Token) : NoClash (type S t) := by
  unfold type
  split
  · exact noClash_pure ()
  · exact noClash_fail (fun h => Code.noConfusion h) t

theorem noClash_types (S : Scopes) (ps : List Param) : NoClash (types S ps) := by
  induction ps with
  | nil => exact noClash_pure ()
  | cons p rest ih => exact (noClash_type S p.type).bind fun _ => ih

theorem noClash_insert (S : Scopes) (symbol : Symbol) : NoClash (insert S symbol) :=
  (noClash_modify _).bind fun _ => noClash_pure _

theorem noClash_procedures (S : Scopes) (decls : List Decl) : NoClash (procedures S decls) := by
  induction decls generalizing S with
  | nil => exact noClash_pure S
  | cons d rest ih =>
    cases d with
    | «variable» name type => exact ih S
    | procedure name params block =>
      exact (noClash_types S params).bind fun _ => (noClash_insert S _).bind fun S' => ih S'

theorem holdsOfSteps_noClash : HoldsOfSteps NoClash where
  nothing := noClash_pure ()
  sequence hx hy := hx.bind fun _ => hy
  lookUp _ _ := noClash_modify _
  enterReference _ _ := noClash_modify _
  enterCall _ _ := noClash_modify _
  noVariable t _ := noClash_fail (fun h => Code.noConfusion h) t
  noProcedure t _ := noClash_fail (fun h => Code.noConfusion h) t
  wrongArity t _ _ _ := noClash_fail (fun h => Code.noConfusion h) t

end

theorem exists_of_declarations_error {decls : List Decl} {d : Diagnostic}
    (h : declarations S decls f = (.error d, f')) :
    ∃ before e after S₁ f₁, decls = before ++ e :: after ∧
      declarations S before f = (.ok S₁, f₁) ∧ declaration S₁ e f₁ = (.error d, f') := by
  induction decls generalizing S f with
  | nil => cases h
  | cons e rest ih =>
    rcases Stateful.bind_eq_error.mp h with he | ⟨S₁, f₁, he, hrest⟩
    · exact ⟨[], e, rest, S, f, rfl, rfl, he⟩
    · obtain ⟨before, e', after, S₂, f₂, rfl, hbefore, he'⟩ := ih hrest
      exact ⟨e :: before, e', after, S₂, f₂, rfl, (Stateful.bind_of_ok he).trans hbefore, he'⟩

theorem declarations_error {before after : List Decl} {e : Decl} {S₁ : Scopes} {f₁ : Findings}
    {d : Diagnostic} (hbefore : declarations S before f = (.ok S₁, f₁))
    (he : declaration S₁ e f₁ = (.error d, f')) :
    declarations S (before ++ e :: after) f = (.error d, f') := by
  induction before generalizing S f with
  | nil =>
    cases hbefore
    exact Stateful.bind_of_error he
  | cons e' rest ih =>
    obtain ⟨S₂, f₂, he', hrest⟩ := Stateful.bind_eq_ok.mp hbefore
    exact (Stateful.bind_of_ok he').trans (ih hrest)

end Resolver

/-- The resolver comes to a routine, with what it has found out so far. The names of the routine go
into the innermost scope. -/
structure Visit where
  params : List Param
  block : Block
  scopes : Scopes
  found : Findings

namespace Visit

open Resolver

def names (v : Visit) : List Token := v.params.map Param.name ++ v.block.decls.map Decl.name

def run (v : Visit) : Except Diagnostic Scopes × Findings :=
  (do let S ← Resolver.params v.scopes v.params; Resolver.block S v.block : Resolver Scopes) v.found

def opening (v : Visit) : Resolver Scopes := do
  let S ← Resolver.params v.scopes v.params
  noRepetition S v.block.decls
  return S

def reach (v : Visit) (before : List Decl) (name : Token) : Resolver Scopes := do
  let S ← v.opening
  let S ← procedures S v.block.decls
  let S ← declarations S before
  enter S name.name

inductive Next (v : Visit) : Visit → Prop
  | procedure {before after : List Decl} {name : Token} {ps : List Param} {inner : Block}
      {S : Scopes} {f : Findings}
      (hdecls : v.block.decls = before ++ .procedure name ps inner :: after)
      (hreach : v.reach before name v.found = (.ok S, f)) : Next v ⟨ps, inner, S, f⟩

/-- A program has no parameters, and its names go to the built-in types. -/
def start (p : Program) : Visit where
  params := []
  block := p.block
  scopes := .globals
  found := Findings.inserted { events := [.entered "global"] } (builtins.map Symbol.name)

variable {v v' : Visit} {t : Token} {d : Diagnostic} {f : Findings}

theorem run_eq (v : Visit) :
    v.run = (do
      let S ← v.opening
      let S ← procedures S v.block.decls
      let S ← declarations S v.block.decls
      statements S v.block.body
      return S : Resolver Scopes) v.found := by
  cases hblock : v.block
  simp only [run, opening, hblock, Resolver.block, bind_assoc, pure_bind, Block.decls, Block.body]

/-- A procedure is declared by a visit in a scope that is entered for it. -/
theorem declaration_eq (S : Scopes) (name : Token) (ps : List Param) (inner : Block)
    (f : Findings) :
    declaration S (.procedure name ps inner) f =
      (do
        let S₁ ← enter S name.name
        let S₂ ← (do let S₂ ← Resolver.params S₁ ps; Resolver.block S₂ inner : Resolver Scopes)
        leave S₂
        return S : Resolver Scopes) f := by
  rw [declaration]
  simp only [bind_assoc]

theorem declaration_eq_error {S : Scopes} {name : Token} {ps : List Param} {inner : Block}
    {f' : Findings} :
    declaration S (.procedure name ps inner) f = (.error d, f') ↔
      ∃ S₁ f₁, enter S name.name f = (.ok S₁, f₁) ∧
        (Visit.mk ps inner S₁ f₁).run = (.error d, f') := by
  rw [declaration_eq]
  constructor
  · intro h
    rcases Stateful.bind_eq_error.mp h with h | ⟨S₁, f₁, henter, h⟩
    · cases h
    · rcases Stateful.bind_eq_error.mp h with h | ⟨S₂, f₂, _, h⟩
      · exact ⟨S₁, f₁, henter, h⟩
      · cases h
  · rintro ⟨S₁, f₁, henter, hrun⟩
    rw [Stateful.bind_of_ok henter]
    exact Stateful.bind_of_error hrun

/-- The first name of the routine that is taken when the resolver comes to it. -/
def clash? (v : Visit) : Option Token :=
  firstRepeated (v.scopes.current.symbols.map Symbol.name) v.names

theorem opening_of_clash (h : v.clash? = some t) :
    ∃ names, names <+: v.params.map (fun p => p.name.name) ∧
      v.opening v.found = (.error (.atToken t (.duplicate t.name)), v.found.inserted names) := by
  rw [clash?, names, firstRepeated_append] at h
  cases hparams : firstRepeated (v.scopes.current.symbols.map Symbol.name)
      (v.params.map Param.name) with
  | some t' =>
    rw [hparams] at h
    cases h
    obtain ⟨names, hnames, hrun⟩ := params_of_repeated v.found hparams
    exact ⟨names, hnames, Stateful.bind_of_error hrun⟩
  | none =>
    rw [hparams, Option.none_or, ← Param.map_name_symbols v.scopes.current.level,
      ← firstRepeated_of_append] at h
    refine ⟨_, List.prefix_rfl, (Stateful.bind_of_ok (params_of_fresh _ hparams)).trans ?_⟩
    exact Stateful.bind_of_error (noRepetition_of_repeated _ h)

theorem opening_of_no_clash (h : v.clash? = none) :
    v.opening v.found = (.ok (v.scopes.append (Param.symbols v.scopes.current.level v.params)),
      v.found.inserted (v.params.map fun p => p.name.name)) := by
  rw [clash?, names, firstRepeated_append, Option.or_eq_none_iff] at h
  obtain ⟨hparams, hdecls⟩ := h
  rw [← Param.map_name_symbols v.scopes.current.level, ← firstRepeated_of_append] at hdecls
  refine (Stateful.bind_of_ok (params_of_fresh _ hparams)).trans ?_
  exact Stateful.bind_of_ok (noRepetition_of_fresh _ hdecls)

theorem run_of_clash (h : v.clash? = some t) :
    ∃ names, names <+: v.params.map (fun p => p.name.name) ∧
      v.run = (.error (.atToken t (.duplicate t.name)), v.found.inserted names) := by
  obtain ⟨names, hnames, hopening⟩ := opening_of_clash h
  refine ⟨names, hnames, ?_⟩
  rw [run_eq]
  exact Stateful.bind_of_error hopening

/-- Where the names of a routine are all different, it is some procedure of its block in which a
name is declared twice. -/
theorem exists_next_of_error (hnone : v.clash? = none) (hrun : v.run = (.error d, f))
    (hd : d.code = .duplicateName) : ∃ v', v.Next v' ∧ v'.run = (.error d, f) := by
  have hopening := opening_of_no_clash hnone
  rw [run_eq, Stateful.bind_of_ok hopening] at hrun
  -- of the steps behind the opening only declarations can fail with a clash
  rcases Stateful.bind_eq_error.mp hrun with hrun | ⟨S₁, f₂, hprocedures, hrun⟩
  · exact absurd hd (noClash_procedures _ _ hrun)
  rcases Stateful.bind_eq_error.mp hrun with hrun | ⟨S₂, f₃, _, hrun⟩
  · obtain ⟨before, e, after, S₂, f₃, hdecls, hbefore, he⟩ := exists_of_declarations_error hrun
    cases e with
    | «variable» name type =>
      exact absurd hd ((noClash_type S₂ type).bind (fun _ => noClash_insert S₂ _) he)
    | procedure name ps inner =>
      obtain ⟨S₃, f₄, henter, hinner⟩ := declaration_eq_error.mp he
      refine ⟨_, .procedure hdecls ?_, hinner⟩
      rw [reach, Stateful.bind_of_ok hopening, Stateful.bind_of_ok hprocedures,
        Stateful.bind_of_ok hbefore]
      exact henter
  · exact absurd hd ((holdsOfSteps_noClash.statements S₂ _).bind (fun _ => noClash_pure S₂) hrun)

/-- A failure in a procedure is one of the routine around it. -/
theorem Next.run_eq_error (h : v.Next v') (hrun : v'.run = (.error d, f)) :
    v.run = (.error d, f) := by
  obtain ⟨hdecls, hreach⟩ := h
  obtain ⟨S, f₁, hopening, hreach⟩ := Stateful.bind_eq_ok.mp hreach
  obtain ⟨S₁, f₂, hprocedures, hreach⟩ := Stateful.bind_eq_ok.mp hreach
  obtain ⟨S₂, f₃, hbefore, henter⟩ := Stateful.bind_eq_ok.mp hreach
  have hprocedure := declaration_eq_error.mpr ⟨_, _, henter, hrun⟩
  rw [run_eq, Stateful.bind_of_ok hopening, Stateful.bind_of_ok hprocedures, hdecls]
  exact Stateful.bind_of_error (declarations_error hbefore hprocedure)

theorem Next.sizeOf_lt (h : v.Next v') : sizeOf v'.block < sizeOf v.block := by
  obtain ⟨params, ⟨decls, start, body⟩, S, found⟩ := v
  cases h with
  | @procedure before after name ps inner _ _ hdecls _ =>
    have hmem : Decl.procedure name ps inner ∈ decls := by
      rw [show decls = _ from hdecls]
      exact List.mem_append_right _ List.mem_cons_self
    have hlt := List.sizeOf_lt_of_mem hmem
    simp only [Decl.procedure.sizeOf_spec] at hlt
    simp only [Block.mk.sizeOf_spec]
    omega

/-- What the resolver comes to. The scope that the names of the routine go to holds at most the
built-in types, and no name that is used in the block has been looked up. -/
structure Proper (v : Visit) : Prop where
  taken : ∀ x ∈ v.scopes.current.symbols.map Symbol.name, IsBuiltin x
  params : ∀ p ∈ v.params, ¬ IsBuiltin p.name.name
  admissible : ∀ node ∈ v.block.nodes, node.Admissible
  nodup : (Node.indices Node.use? v.block.nodes).Nodup
  untouched : ∀ i ∈ Node.indices Node.use? v.block.nodes,
    i ∉ v.found.references.keys ∧ i ∉ v.found.calls.keys

theorem Proper.not_isBuiltin (h : v.Proper) : ∀ x ∈ v.names.map Token.name, ¬ IsBuiltin x := by
  obtain ⟨params, ⟨decls, start, body⟩, S, found⟩ := v
  have hnodes := h.admissible
  rw [Block.nodes, List.forall_mem_cons, List.forall_mem_append] at hnodes
  intro x hx
  rw [names, List.map_append, List.mem_append, List.map_map, List.map_map] at hx
  rcases hx with hx | hx
  · obtain ⟨p, hp, rfl⟩ := List.mem_map.mp hx
    exact h.params p hp
  · obtain ⟨d, hd, rfl⟩ := List.mem_map.mp hx
    exact Decl.admissible hnodes.2.1 d hd

/-- The built-in types are in nobody's way. -/
theorem Proper.clash?_eq_some (h : v.Proper) : v.clash? = some t ↔ FirstRepeated v.names t := by
  have hnames : v.clash? = firstRepeated [] v.names := by
    refine firstRepeated_congr fun x hx => iff_of_false (fun htaken => ?_) List.not_mem_nil
    exact h.not_isBuiltin x hx (h.taken x htaken)
  rw [hnames, firstRepeated_nil_iff]

theorem proper_start {file : String} {source : Bytes} {index : Nat} {p : Program}
    (hp : Program.ofSource file source index = .ok p) : (start p).Proper where
  taken _ hx := hx
  params := List.forall_mem_nil _
  admissible := (List.forall_mem_cons.mp (Program.admissible_nodes hp)).2
  nodup := Program.nodup_uses hp
  untouched _ _ := ⟨List.not_mem_nil, List.not_mem_nil⟩

theorem enters_reach (v : Visit) (before : List Decl) (name : Token) :
    Enters (Decl.nodesAll before) (v.reach before name) := by
  have hopening : Enters [] v.opening :=
    (enters_params _ _).bind fun S => (enters_noRepetition S _).bind fun _ => enters_pure S
  exact hopening.bind fun S => (enters_procedures S _).bind fun S' =>
    (enters_declarations S' before).last fun S'' => enters_enter S'' _

/-- A procedure is entered with a scope that is still empty. -/
theorem symbols_of_reach {before : List Decl} {name : Token} {S : Scopes} {f' : Findings}
    (h : v.reach before name f = (.ok S, f')) : S.current.symbols = [] := by
  obtain ⟨S₁, f₁, _, h⟩ := Stateful.bind_eq_ok.mp h
  obtain ⟨S₂, f₂, _, h⟩ := Stateful.bind_eq_ok.mp h
  obtain ⟨S₃, f₃, _, h⟩ := Stateful.bind_eq_ok.mp h
  cases h
  rfl

theorem Proper.next (h : v.Proper) (hnext : v.Next v') : v'.Proper := by
  obtain ⟨params, ⟨decls, start, body⟩, S, found⟩ := v
  obtain ⟨_, _, hnodes, hnodup, huntouched⟩ := h
  cases hnext with
  | @procedure before after name ps inner S' f hdecls hreach =>
    change decls = _ at hdecls
    subst hdecls
    simp only [Block.nodes, Grammar.nodesAll_append, Decl.nodesAll, Decl.nodes,
      List.forall_mem_cons, List.forall_mem_append] at hnodes
    obtain ⟨_, ⟨_, ⟨_, hps, hinner⟩, _⟩, _⟩ := hnodes
    simp only [Block.uses_mk, Grammar.nodesAll_append, Decl.nodesAll, Node.indices_append,
      Decl.uses_procedure, List.append_assoc] at hnodup huntouched
    obtain ⟨_, hrest, hdisjoint⟩ := List.nodup_append.mp hnodup
    refine ⟨?_, fun p hp => (Param.admissible hps p hp).1, hinner,
      (List.nodup_append.mp hrest).1, fun i hi => ?_⟩
    · rw [symbols_of_reach hreach]
      exact List.forall_mem_nil _
    · obtain ⟨hreferences, hcalls⟩ := enters_reach _ before name hreach
      obtain ⟨hreference, hcall⟩ :=
        huntouched i (List.mem_append_right _ (List.mem_append_left _ hi))
      -- what has been entered since belongs to uses before the procedure
      have hbefore : i ∉ Node.indices Node.use? (Decl.nodesAll before) := fun hi' =>
        hdisjoint i hi' i (List.mem_append_left _ hi) rfl
      rw [hreferences.mem, hcalls.mem, not_or, not_or]
      exact ⟨⟨hreference, fun hmem => hbefore
          ((Node.indices_sublist _ (fun _ _ => Node.use?_of_reference?) _).subset hmem)⟩,
        hcall, fun hmem => hbefore
          ((Node.indices_sublist _ (fun _ _ => Node.use?_of_call?) _).subset hmem)⟩

end Visit

/-- The resolver comes to the program, and from a routine to the procedures of its block. -/
inductive Program.Visits (p : Program) : Visit → Prop
  | start : Visits p (.start p)
  | next {v v' : Visit} (hv : Visits p v) (hnext : v.Next v') : Visits p v'

namespace Program.Visits

open Visit

variable {p : Program} {v : Visit} {d : Diagnostic} {f : Findings}

theorem proper (h : p.Visits v) (hstart : (Visit.start p).Proper) : v.Proper := by
  induction h with
  | start => exact hstart
  | next _ hnext ih => exact ih.next hnext

/-- A failure in a routine that the resolver comes to is that of the program. -/
theorem run_start_eq_error (h : p.Visits v) (hrun : v.run = (.error d, f)) :
    (Visit.start p).run = (.error d, f) := by
  induction h with
  | start => exact hrun
  | next _ hnext ih => exact ih (hnext.run_eq_error hrun)

/-- If a name is declared twice, then in a routine that the resolver comes to. -/
theorem exists_clash {v : Visit} (h : p.Visits v) (hrun : v.run = (.error d, f))
    (hd : d.code = .duplicateName) :
    ∃ v' t, p.Visits v' ∧ v'.clash? = some t ∧ v'.run = (.error d, f) := by
  cases hclash : v.clash? with
  | some t => exact ⟨v, t, h, hclash, hrun⟩
  | none =>
    obtain ⟨v', hnext, hrun'⟩ := exists_next_of_error hclash hrun hd
    exact exists_clash (h.next hnext) hrun' hd
termination_by sizeOf v.block
decreasing_by exact hnext.sizeOf_lt

end Program.Visits

theorem Resolver.program_eq_error {p : Program} {d : Diagnostic} {f : Findings} :
    program p {} = (.error d, f) ↔ (Visit.start p).run = (.error d, f) := by
  have hprogram : program p {} = (do
      let S ← (do let S ← params .globals []; block S p.block : Resolver Scopes)
      leave S
      return S.current : Resolver Scope) (Visit.start p).found := rfl
  rw [hprogram]
  constructor
  · intro h
    rcases Stateful.bind_eq_error.mp h with h | ⟨S, f₁, _, h⟩
    · exact h
    · cases h
  · exact Stateful.bind_of_error

theorem Findings.resolve_eq_error {found : Findings} {p : Program} {d : Diagnostic}
    {f : Findings} :
    found.resolve p = (.error d, f) ↔ Resolver.program p {} = (.error d, f) := by
  have hrestart : (do Resolver.restart; Resolver.program p : Resolver Scope).run.run found =
      Resolver.program p {} := rfl
  rw [resolve, hrestart]
  rcases Resolver.program p {} with ⟨d' | globals, f'⟩
  · constructor
    · intro h
      cases h
      rfl
    · intro h
      cases h
      rfl
  · constructor
    · intro h
      cases h
    · intro h
      cases h

/-- Reads a text and fails to resolve it, by evaluation. -/
theorem Findings.exists_refused {found : Findings} {file : String} {source : Bytes}
    {P : Diagnostic → Bool}
    (h : ((Program.ofSource file source).toOption.any fun p =>
      (((found.resolve p).1.map fun _ => false).tryCatch fun d => .ok (P d)).toOption.any id) =
        true) :
    ∃ p d f, Program.ofSource file source = .ok p ∧ found.resolve p = (.error d, f) ∧
      P d = true := by
  obtain ⟨p, hp, h⟩ := (Option.any_eq_true _ _).mp h
  rcases hresolve : found.resolve p with ⟨d | r, f⟩
  · rw [hresolve] at h
    exact ⟨p, d, f, eq_ok_of_toOption hp, hresolve, h⟩
  · rw [hresolve] at h
    cases h

/-- If resolving a program fails because a name is declared twice, then at the first repetition
among the names of a routine that the resolver comes to. By then it has inserted at most parameters
of the routine, and it has made no entry for any name that is used in the block. Conversely, every
repetition that the resolver comes to makes it fail at the first name of the routine that equals an
earlier one. Looking for repetitions before each insertion as well would change nothing. -/
theorem Program.clashes_are_first_repetitions {file : String} {source : Bytes} {index : Nat}
    {p : Program} (hp : Program.ofSource file source index = .ok p) (found : Findings) :
    (∀ d f, found.resolve p = (.error d, f) → d.code = .duplicateName →
      ∃ v t names, p.Visits v ∧ FirstRepeated v.names t ∧
        d = .atToken t (.duplicate t.name) ∧
        names <+: v.params.map (fun q => q.name.name) ∧ f = v.found.inserted names ∧
        ∀ i ∈ Node.indices Node.use? v.block.nodes, i ∉ f.references.keys ∧ i ∉ f.calls.keys) ∧
    (∀ v t, p.Visits v → FirstRepeated v.names t →
      ∃ f, found.resolve p = (.error (.atToken t (.duplicate t.name)), f)) ∧
    Resolver.Thorough.program p = Resolver.program p := by
  have hstart := Visit.proper_start hp
  simp only [Findings.resolve_eq_error, Resolver.program_eq_error]
  refine ⟨fun d f hrun hd => ?_, fun v t hv hfirst => ?_, Resolver.Thorough.program_eq p⟩
  · obtain ⟨v, t, hv, hclash, hrun⟩ := Visits.start.exists_clash hrun hd
    have hproper := hv.proper hstart
    obtain ⟨names, hnames, hrun'⟩ := Visit.run_of_clash hclash
    cases hrun.symm.trans hrun'
    exact ⟨v, t, names, hv, hproper.clash?_eq_some.mp hclash, rfl, hnames, rfl, hproper.untouched⟩
  · obtain ⟨names, _, hrun⟩ := Visit.run_of_clash ((hv.proper hstart).clash?_eq_some.mpr hfirst)
    exact ⟨_, hv.run_start_eq_error hrun⟩

/-- The procedure `a` has the name of the parameter before it. The variable `b`, which is declared
once more behind it, and the unknown `c` in the body are not reported. -/
theorem Program.clashes_are_first_repetitions_procedure :
    let source := ("program p; procedure f(a : integer); var b : real; procedure a; begin end; " ++
      "var b : integer; begin c := 1 end; begin end.").toList.map fun c => c.toNat.toUInt8
    ∃ p d f v t, Program.ofSource "p.pas" source = .ok p ∧
      Findings.resolve {} p = (.error d, f) ∧ d.code = .duplicateName ∧ p.Visits v ∧
      FirstRepeated v.names t ∧ d = .atToken t (.duplicate t.name) ∧
      t.name = "a" ∧ t.pos.lineColumn = "1:62" ∧
      ∃ f', Findings.resolve { references := [(0, default)] } p =
        (.error (.atToken t (.duplicate t.name)), f') := by
  intro source
  obtain ⟨p, d, f, hp, hresolve, hdiagnostic⟩ : ∃ p d f, Program.ofSource "p.pas" source = .ok p ∧
      Findings.resolve {} p = (.error d, f) ∧ decide (d.code = .duplicateName ∧
        d.token.map (fun t => (t.name, t.pos.lineColumn)) = some ("a", "1:62")) = true :=
    Findings.exists_refused (by decide +kernel)
  obtain ⟨hd, htoken⟩ := of_decide_eq_true hdiagnostic
  obtain ⟨v, t, _, hv, hfirst, rfl, _⟩ :=
    (clashes_are_first_repetitions hp {}).1 d f hresolve hd
  obtain ⟨f', hresolve'⟩ := (clashes_are_first_repetitions hp _).2.1 v t hv hfirst
  obtain ⟨hname, hplace⟩ := Prod.mk.inj (Option.some.inj htoken)
  exact ⟨p, _, f, v, t, hp, hresolve, hd, hv, hfirst, rfl, hname, hplace, f', hresolve'⟩

end MiniPascal
