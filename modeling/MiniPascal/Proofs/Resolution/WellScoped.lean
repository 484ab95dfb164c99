import MiniPascal.Proofs.Resolution.Visible

/-!
# Well-scoped programs

A routine is well scoped if none of its names is declared twice, its procedures are well scoped,
and the uses of names in its body fit the innermost visible declarations of the names.

Resolution succeeds on the well-scoped programs and on no others: where the scopes show what is
visible, each function of the resolver gives its answer if and only if its part of the program is
well scoped.
-/
namespace MiniPascal

/-- A use of a name fits the innermost visible declaration of the name. -/
def Node.WellUsed (visible : List Decl) : Node → Prop
  | .expr (.variable t) => ∃ name type, Decl.innermost? visible t.name = some (.variable name type)
  | .stmt (.call t args) => ∃ name params block,
      Decl.innermost? visible t.name = some (.procedure name params block) ∧
        args.length = params.length
  | _ => True

/-- The block of a routine with the given parameters is well scoped, where `outer` is visible
around the routine. -/
inductive Block.WellScoped : List Decl → List Param → Block → Prop
  | mk {outer : List Decl} {params : List Param} {decls : List Decl} {start : Token}
      {body : List Stmt}
      (distinct : (params.map (fun p => p.name.name) ++ decls.map fun d => d.name.name).Nodup)
      (procedures : ∀ before name ps block after,
        decls = before ++ .procedure name ps block :: after →
          WellScoped (Decl.visible outer params decls before) ps block)
      (uses : ∀ node ∈ Stmt.nodesAll body, node.WellUsed (Decl.visible outer params decls decls)) :
      WellScoped outer params (.mk decls start body)

/-- Nothing is visible around a program. -/
def Program.WellScoped (p : Program) : Prop := p.block.WellScoped [] []

/-- The procedures among some declarations are well scoped, where `view` says what is visible
behind the first of these declarations. -/
def Decl.ProceduresWellScoped (view : List Decl → List Decl) (decls : List Decl) : Prop :=
  ∀ before name params block after, decls = before ++ .procedure name params block :: after →
    block.WellScoped (view before) params

theorem Decl.proceduresWellScoped_cons {view : List Decl → List Decl} {d : Decl}
    {rest : List Decl} :
    ProceduresWellScoped view (d :: rest) ↔
      (∀ name params block, d = .procedure name params block →
        block.WellScoped (view []) params) ∧
      ProceduresWellScoped (fun before => view (d :: before)) rest := by
  constructor
  · intro h
    refine ⟨fun name params block hd => ?_, fun before name params block after hrest => ?_⟩
    · exact h [] name params block rest (congrArg (· :: rest) hd)
    · exact h (d :: before) name params block after (congrArg (d :: ·) hrest)
  · rintro ⟨hd, hrest⟩ before name params block after heq
    cases before with
    | nil => exact hd name params block (List.cons.inj heq).1
    | cons d' before =>
      obtain ⟨rfl, htail⟩ := List.cons_eq_cons.mp heq
      exact hrest before name params block after htail

theorem Block.wellScoped_mk_iff {outer : List Decl} {params : List Param} {decls : List Decl}
    {start : Token} {body : List Stmt} :
    WellScoped outer params (.mk decls start body) ↔
      (params.map (fun p => p.name.name) ++ decls.map fun d => d.name.name).Nodup ∧
        Decl.ProceduresWellScoped (Decl.visible outer params decls) decls ∧
        ∀ node ∈ Stmt.nodesAll body, node.WellUsed (Decl.visible outer params decls decls) := by
  constructor
  · rintro ⟨distinct, procedures, uses⟩
    exact ⟨distinct, procedures, uses⟩
  · rintro ⟨distinct, procedures, uses⟩
    exact .mk distinct procedures uses

theorem Block.WellScoped.distinct_params {outer : List Decl} {params : List Param} {b : Block}
    (h : b.WellScoped outer params) : (params.map fun p => p.name.name).Nodup := by
  cases h with
  | mk distinct => exact (List.nodup_append.mp distinct).1

namespace Resolver

section

variable {α β : Type} {x : Resolver α} {g : α → Resolver β} {P Q : Prop} {a : α} {b : β}

def GivesIff (x : Resolver α) (P : Prop) (a : α) : Prop :=
  ∀ f, (P → ∃ f', x f = (.ok a, f')) ∧ (¬ P → ∃ d f', x f = (.error d, f'))

theorem GivesIff.congr (h : GivesIff x P a) (hPQ : P ↔ Q) : GivesIff x Q a := by
  rwa [← hPQ]

theorem GivesIff.bind (hx : GivesIff x P a) (hg : P → GivesIff (g a) Q b) :
    GivesIff (x >>= g) (P ∧ Q) b := by
  intro f
  by_cases hP : P
  · obtain ⟨f₁, h₁⟩ := (hx f).1 hP
    obtain ⟨hok, herror⟩ := hg hP f₁
    rw [Stateful.bind_of_ok h₁]
    exact ⟨fun h => hok h.2, fun h => herror fun hQ => h ⟨hP, hQ⟩⟩
  · obtain ⟨d, f₁, h₁⟩ := (hx f).2 hP
    rw [Stateful.bind_of_error h₁]
    exact ⟨fun h => absurd h.1 hP, fun _ => ⟨d, f₁, rfl⟩⟩

/-- A step that cannot fail. -/
theorem GivesIff.step (hx : GivesIff x True a) (hg : GivesIff (g a) Q b) :
    GivesIff (x >>= g) Q b :=
  (hx.bind fun _ => hg).congr (and_iff_right trivial)

theorem GivesIff.last (hx : GivesIff x P a) (hg : GivesIff (g a) True b) :
    GivesIff (x >>= g) P b :=
  (hx.bind fun _ => hg).congr (and_iff_left trivial)

theorem gives_pure (a : α) : GivesIff (pure a) True a :=
  fun f => ⟨fun _ => ⟨f, rfl⟩, fun h => absurd trivial h⟩

theorem gives_modify (h : Findings → Findings) : GivesIff (modify h) True () :=
  fun f => ⟨fun _ => ⟨h f, rfl⟩, fun h => absurd trivial h⟩

theorem gives_note (e : ScopeEvent) : GivesIff (note e) True () := gives_modify _

theorem not_gives_fail (t : Token) (c : Cause) (h : ¬ P) : GivesIff (fail t c) P a :=
  fun f => ⟨fun hP => absurd hP h, fun _ => ⟨.atToken t c, f, rfl⟩⟩

end

variable {S : Scopes} {visible : List Decl}

theorem gives_insert (S : Scopes) (symbol : Symbol) :
    GivesIff (insert S symbol) True (S.insert symbol) :=
  (gives_note _).step (gives_pure _)

theorem gives_enter (S : Scopes) (name : String) : GivesIff (enter S name) True (S.enter name) :=
  (gives_note _).step (gives_pure _)

theorem reference_givesIff (h : S.Shows visible) (t : Token) :
    GivesIff (reference S t) ((Node.expr (.variable t)).WellUsed visible) () := by
  refine ((gives_note _).step ?_).congr (h.lookup t.name).variable_iff.symm
  split
  · next v hv => exact (gives_modify _).congr (iff_of_true trivial ⟨v, hv⟩)
  · next hnone =>
    refine not_gives_fail t _ ?_
    rintro ⟨v, hv⟩
    exact hnone v hv

theorem expression_givesIff (h : S.Shows visible) : ∀ e : Expr,
    GivesIff (expression S e) (∀ node ∈ e.nodes, node.WellUsed visible) ()
  | .number t v => by
    rw [Expr.nodes, List.forall_mem_singleton]
    exact gives_pure ()
  | .variable t => by
    rw [Expr.nodes, List.forall_mem_singleton]
    exact reference_givesIff h t
  | .unary op e => by
    rw [Expr.nodes, List.forall_mem_cons]
    exact (expression_givesIff h e).congr (and_iff_right trivial).symm
  | .binary left op right => by
    rw [Expr.nodes, List.forall_mem_cons, List.forall_mem_append]
    exact ((expression_givesIff h left).bind fun _ => expression_givesIff h right).congr
      (and_iff_right trivial).symm

theorem expressions_givesIff (h : S.Shows visible) (es : List Expr) :
    GivesIff (expressions S es) (∀ node ∈ es.flatMap Expr.nodes, node.WellUsed visible) () := by
  induction es with
  | nil => exact (gives_pure ()).congr (iff_of_true trivial (List.forall_mem_nil _))
  | cons e rest ih =>
    rw [List.flatMap_cons, List.forall_mem_append]
    exact (expression_givesIff h e).bind fun _ => ih

theorem call_givesIff (h : S.Shows visible) (name : Token) (args : List Expr) :
    GivesIff (call S name args)
      (∀ node ∈ (Stmt.call name args).nodes, node.WellUsed visible) () := by
  have hname := (h.lookup name.name).procedure_iff args.length
  rw [Stmt.nodes, List.forall_mem_cons]
  refine ((gives_note _).step ?_).congr (and_congr_left fun _ => hname.symm)
  split
  · next p hp =>
    have hparams : (∃ q : Procedure, S.lookup name.name = some (.procedure q) ∧
        args.length = q.params.length) ↔ args.length = p.params.length := by
      simp [hp]
    rw [hparams]
    split
    · next hlength =>
      exact ((expressions_givesIff h args).last (gives_modify _)).congr (and_iff_right hlength).symm
    · next hlength => exact not_gives_fail name _ fun hboth => hlength hboth.1
  · next hnone =>
    refine not_gives_fail name _ ?_
    rintro ⟨⟨p, hp, _⟩, _⟩
    exact hnone p hp

theorem statements_givesIff (h : S.Shows visible) (ss : List Stmt) :
    GivesIff (statements S ss) (∀ node ∈ Stmt.nodesAll ss, node.WellUsed visible) () := by
  induction ss using Stmt.sequence_induction with
  | nil => exact (gives_pure ()).congr (iff_of_true trivial (List.forall_mem_nil _))
  | compound start children rest ihc ihr =>
    rw [Stmt.nodesAll, Stmt.nodes, List.forall_mem_append, List.forall_mem_cons]
    exact (ihc.bind fun _ => ihr).congr (and_congr_left fun _ => (and_iff_right trivial).symm)
  | assign target op value rest ih =>
    rw [Stmt.nodesAll, Stmt.nodes, List.forall_mem_append, List.forall_mem_cons,
      List.forall_mem_cons]
    have hassign := (expression_givesIff h value).bind (g := fun _ => reference S target)
      fun _ => reference_givesIff h target
    refine (hassign.bind fun _ => ih).congr (and_congr_left fun _ => ?_)
    exact and_comm.trans (and_iff_right trivial).symm
  | call name args rest ih =>
    rw [Stmt.nodesAll, List.forall_mem_append]
    exact (call_givesIff h name args).bind fun _ => ih
  | empty rest ih =>
    rw [Stmt.nodesAll, Stmt.nodes, List.forall_mem_append, List.forall_mem_singleton]
    exact (gives_pure ()).bind fun _ => ih

theorem firstRepeated_of_nodup {taken : List String} {ts : List Token}
    (hnodup : (ts.map Token.name).Nodup) (hnew : ∀ x ∈ ts.map Token.name, x ∉ taken) :
    firstRepeated taken ts = none := by
  induction ts generalizing taken with
  | nil => rfl
  | cons t rest ih =>
    obtain ⟨ht, hnodup⟩ := List.nodup_cons.mp hnodup
    obtain ⟨htaken, hnew⟩ := List.forall_mem_cons.mp hnew
    rw [firstRepeated, if_neg (by simpa using htaken)]
    refine ih hnodup fun x hx => ?_
    rw [List.mem_cons, not_or]
    exact ⟨fun heq => ht (heq ▸ hx), hnew x hx⟩

theorem noRepetition_givesIff (S : Scopes) (decls : List Decl) :
    GivesIff (noRepetition S decls) (S.Fresh (decls.map fun d => d.name.name)) () := by
  have hmap : (decls.map Decl.name).map Token.name = decls.map fun d => d.name.name :=
    List.map_map
  have hiff : S.Fresh (decls.map fun d => d.name.name) ↔
      firstRepeated (S.current.symbols.map Symbol.name) (decls.map Decl.name) = none := by
    rw [← hmap]
    constructor
    · rintro ⟨hnodup, hnew⟩
      exact firstRepeated_of_nodup hnodup fun x hx => Scope.find?_eq_none_iff.mp (hnew x hx)
    · exact fresh_of_firstRepeated
  rw [hiff]
  unfold noRepetition
  split
  · next t ht =>
    refine not_gives_fail t _ fun hnone => ?_
    cases ht.symm.trans hnone
  · next hnone => exact (gives_pure ()).congr (iff_of_true trivial hnone)

theorem type_gives (h : S.KnowsTypes) {t : Token} (ht : t.kind.isBasicType = true) :
    GivesIff (type S t) True () := by
  unfold type
  rw [h.lookup_type ht]
  exact gives_pure ()

theorem types_gives (h : S.KnowsTypes) {ps : List Param}
    (hps : ∀ p ∈ ps, p.type.kind.isBasicType = true) : GivesIff (types S ps) True () := by
  induction ps with
  | nil => exact gives_pure ()
  | cons p rest ih =>
    obtain ⟨hp, hrest⟩ := List.forall_mem_cons.mp hps
    exact (type_gives h hp).step (ih hrest)

theorem procedures_gives (h : S.KnowsTypes) {decls : List Decl}
    (hdecls : ∀ node ∈ Decl.nodesAll decls, node.Admissible) :
    GivesIff (procedures S decls) True (S.withProcedures decls) := by
  unfold Scopes.withProcedures Scopes.insertAll
  induction decls generalizing S with
  | nil => exact gives_pure S
  | cons d rest ih =>
    rw [Decl.nodesAll, List.forall_mem_append] at hdecls
    obtain ⟨hd, hrest⟩ := hdecls
    match d with
    | .variable name type => exact ih h hrest
    | .procedure name params block =>
      let symbol : Symbol := .procedure (.declared S.current.level name params block)
      rw [Decl.nodes, List.forall_mem_cons, List.forall_mem_append] at hd
      obtain ⟨hname, hparams, _⟩ := hd
      have hknows : (S.insert symbol).KnowsTypes := h.insert hname
      have hrest' := ih hknows hrest
      rw [Scopes.level_insert] at hrest'
      refine (types_gives h fun p hp => ?_).step ((gives_insert S symbol).step hrest')
      exact (Param.admissible hparams p hp).2

theorem params_givesIff (S : Scopes) (ps : List Param) :
    GivesIff (params S ps) (S.Fresh (ps.map fun p => p.name.name))
      (S.insertAll (Param.symbols S.current.level ps)) := by
  unfold Scopes.insertAll Param.symbols
  induction ps generalizing S with
  | nil =>
    exact (gives_pure S).congr (iff_of_true trivial ⟨List.nodup_nil, List.forall_mem_nil _⟩)
  | cons p rest ih =>
    rw [params]
    split
    · next hfound =>
      refine not_gives_fail p.name _ fun hfresh => ?_
      rw [hfresh.2 _ List.mem_cons_self] at hfound
      cases hfound
    · next hnew =>
      have hfind : S.current.find? p.name.name = none := by
        rw [← Option.not_isSome_iff_eq_none]
        exact hnew
      let symbol : Symbol := .variable (.declared S.current.level p.name p.type)
      have happend : S.insert symbol = S.append [symbol] := Scopes.insert_eq_append hfind rfl
      have hrest := ih (S.insert symbol)
      rw [Scopes.level_insert] at hrest
      refine ((gives_insert S symbol).step hrest).congr ?_
      rw [happend]
      exact ⟨fun hfresh => hfresh.cons hfind, fun hfresh => Scopes.Fresh.append [symbol] hfresh⟩

mutual

theorem declaration_givesIff {S : Scopes} {visible : List Decl} (h : S.Shows visible) :
    ∀ d : Decl, (∀ node ∈ d.nodes, node.Admissible) →
      GivesIff (declaration S d) (∀ name params block, d = .procedure name params block →
        block.WellScoped visible params) (S.declare d)
  | .variable name type, hd => by
    rw [Decl.nodes, List.forall_mem_cons, List.forall_mem_singleton] at hd
    refine ((type_gives h.types hd.2).step (gives_insert S _)).congr (iff_of_true trivial ?_)
    intro _ _ _ heq
    cases heq
  | .procedure name params block, hd => by
    rw [Decl.nodes, List.forall_mem_cons, List.forall_mem_append] at hd
    obtain ⟨_, hparams, hblock⟩ := hd
    have hlast (inner : Scopes) : GivesIff (do leave inner; return S) True S :=
      (gives_note _).step (gives_pure S)
    have hinner (hfresh : (S.enter name.name).Fresh (params.map fun p => p.name.name)) :
        GivesIff (do let inner ← Resolver.block (S.inside name params) block; leave inner; return S)
          (block.WellScoped visible params) S := by
      have hdistinct := (Scopes.fresh_enter _).mp hfresh
      have hopens := Scopes.opens_inside h name hdistinct fun p hp =>
        (Param.admissible hparams p hp).1
      exact (block_givesIff hopens block hblock).last (hlast _)
    refine ((gives_enter S name.name).step ((params_givesIff _ params).bind hinner)).congr ?_
    rw [Scopes.fresh_enter]
    constructor
    · rintro ⟨_, hscoped⟩ _ _ _ heq
      cases heq
      exact hscoped
    · intro hscoped
      have hscoped := hscoped name params block rfl
      exact ⟨hscoped.distinct_params, hscoped⟩

theorem declarations_givesIff {S : Scopes} (view : List Decl → List Decl) : ∀ decls : List Decl,
    (∀ before after, decls = before ++ after →
      (before.foldl Scopes.declare S).Shows (view before)) →
    (∀ node ∈ Decl.nodesAll decls, node.Admissible) →
      GivesIff (declarations S decls) (Decl.ProceduresWellScoped view decls)
        (decls.foldl Scopes.declare S)
  | [], _, _ => by
    refine (gives_pure S).congr (iff_of_true trivial ?_)
    intro before _ _ _ _ heq
    exact absurd heq.symm (by simp)
  | d :: rest, hview, hdecls => by
    rw [Decl.nodesAll, List.forall_mem_append] at hdecls
    have hd := declaration_givesIff (hview [] (d :: rest) rfl) d hdecls.1
    have hrest := declarations_givesIff (fun before => view (d :: before)) rest
      (fun before after heq => hview (d :: before) after (congrArg (d :: ·) heq)) hdecls.2
    exact (hd.bind fun _ => hrest).congr Decl.proceduresWellScoped_cons.symm

theorem block_givesIff {S : Scopes} {outer : List Decl} {params : List Param}
    (h : S.Opens outer params) : ∀ b : Block, (∀ node ∈ b.nodes, node.Admissible) →
      GivesIff (block S b) (b.WellScoped outer params) (S.body b.decls)
  | .mk decls start body, hb => by
    rw [Block.nodes, List.forall_mem_cons, List.forall_mem_append] at hb
    obtain ⟨_, hdecls, _⟩ := hb
    have hnames := Decl.admissible hdecls
    rw [Block.wellScoped_mk_iff, ← h.fresh_iff hnames]
    -- only where no name is repeated do the scopes show what is visible
    refine (noRepetition_givesIff S decls).bind fun hfresh => ?_
    refine (procedures_gives h.shows.types hdecls).step ?_
    have hshows (before after : List Decl) (heq : decls = before ++ after) :=
      h.shows_behind heq hnames hfresh
    refine (declarations_givesIff _ decls hshows hdecls).bind fun _ => ?_
    have hbody := hshows decls [] (List.append_nil decls).symm
    exact (statements_givesIff hbody body).last (gives_pure _)

end

theorem inserts_gives (S : Scopes) (symbols : List Symbol) :
    GivesIff (inserts S symbols) True (S.insertAll symbols) := by
  unfold Scopes.insertAll
  induction symbols generalizing S with
  | nil => exact gives_pure S
  | cons symbol rest ih => exact (gives_insert S symbol).step (ih (S.insert symbol))

theorem program_givesIff {p : Program} (h : ∀ node ∈ p.nodes, node.Admissible) :
    GivesIff (program p) p.WellScoped (Scopes.globals.body p.block.decls).current := by
  have hlast (S : Scopes) : GivesIff (do leave S; return S.current) True S.current :=
    (gives_note _).step (gives_pure S.current)
  have hblock := block_givesIff Scopes.opens_globals p.block (List.forall_mem_cons.mp h).2
  refine (gives_note _).step ((inserts_gives _ builtins).step ?_)
  exact hblock.last (hlast _)

end Resolver

/-- Of the programs that can be read, resolution accepts exactly the well-scoped ones. -/
theorem Program.resolves_exactly_the_well_scoped {file : String} {source : Bytes} {index : Nat}
    {p : Program} (h : Program.ofSource file source index = .ok p) :
    (∃ r, p.resolve.1 = .ok r) ↔ p.WellScoped := by
  obtain ⟨hok, herror⟩ := Resolver.program_givesIff (admissible_nodes h) {}
  constructor
  · rintro ⟨r, hr⟩
    refine Classical.not_not.mp fun hnot => ?_
    obtain ⟨d, f, hrun⟩ := herror hnot
    unfold resolve at hr
    split at hr
    · next globals f' hrun' => cases hrun.symm.trans hrun'
    · cases hr
  · intro hscoped
    obtain ⟨f, hrun⟩ := hok hscoped
    unfold resolve
    split
    · exact ⟨_, rfl⟩
    · next d f' hrun' => cases hrun.symm.trans hrun'

/-- A procedure sees its siblings wherever they stand, but no variable that is declared behind it:
in the first program `g` reads the `x` of the program, and the second program has none. -/
theorem Program.resolves_exactly_the_well_scoped_behind :
    let bytes := fun text : String => text.toList.map fun c => c.toNat.toUInt8
    let accepted := bytes ("program p; var x : real; procedure f; procedure g; " ++
      "begin h(x) end; var x : real; begin end; procedure h(y : real); begin end; begin end.")
    let refused := bytes ("program p; procedure f; procedure g; begin x := 1 end; " ++
      "var x : real; begin end; begin end.")
    (∃ p r, Program.ofSource "p.pas" accepted = .ok p ∧ p.resolve.1 = .ok r ∧ p.WellScoped) ∧
      ∃ p, Program.ofSource "p.pas" refused = .ok p ∧ ¬ p.WellScoped := by
  intro bytes accepted refused
  constructor
  · obtain ⟨p, r, hp, hr, _⟩ : ∃ p r, Program.ofSource "p.pas" accepted = .ok p ∧
        p.resolve.1 = .ok r ∧ true = true :=
      exists_resolved (by decide +kernel)
    exact ⟨p, r, hp, hr, (resolves_exactly_the_well_scoped hp).mp ⟨r, hr⟩⟩
  · have herror : (match Program.ofSource "p.pas" refused with
        | .ok p => p.resolve.1.toOption.isNone
        | .error _ => false) = true := by
      decide +kernel
    cases hp : Program.ofSource "p.pas" refused with
    | error d =>
      rw [hp] at herror
      cases herror
    | ok p =>
      rw [hp] at herror
      dsimp only at herror
      refine ⟨p, rfl, fun hscoped => ?_⟩
      obtain ⟨r, hr⟩ := (resolves_exactly_the_well_scoped hp).mpr hscoped
      rw [hr] at herror
      cases herror

end MiniPascal
