import MiniPascal.Execution
import MiniPascal.Proofs.Semantics.Representation

/-!
# Locations for declarations

The declarations of a block get new locations, owned by the innermost record, and the environment
that they lead to matches the scopes of the body of the block. So it is for the block of the program
and for that of a procedure that is called, whose parameters get locations first.
-/
namespace MiniPascal.Semantics

variable {r : Resolution} {own own' : Owners} {s s' : CallStack} {S : Scopes} {id : Nat}
  {env : Environment} {σ : Store} {record : Record}

theorem map_name_procedureSymbols (level : Int) (decls : List Decl) :
    (Decl.procedureSymbols level decls).map Symbol.name = procedureNames decls := by
  induction decls with
  | nil => rfl
  | cons d rest ih =>
    rcases d with ⟨name, type⟩ | ⟨name, params, block⟩
    · exact ih
    · rw [Decl.procedureSymbols, List.map_cons, ih]
      rfl

theorem map_name_variableSymbols (level : Int) (decls : List Decl) :
    (Decl.variableSymbols level decls).map Symbol.name = variableNames decls := by
  induction decls with
  | nil => rfl
  | cons d rest ih =>
    rcases d with ⟨name, type⟩ | ⟨name, params, block⟩
    · rw [Decl.variableSymbols, List.map_cons, ih]
      rfl
    · exact ih

/-- Along the declarations of a block the environment keeps matching the scopes, so that each
procedure is a closure over an environment that matches the scopes where it stands. -/
theorem Matches.closures (record : Record) {next : Nat} {decls : List Decl}
    (h : Matches own s S id env)
    (hfresh : S.Fresh (variableNames decls))
    (hown : ∀ i symbol, (Decl.variableSymbols S.current.level decls)[i]? = some symbol →
      own[next + i]? = some (id, symbol))
    (hr : Decl.AllResolved r S decls) (hk : ∀ node ∈ Decl.nodesAll decls, node.Known) :
    List.Forall₂ (Represents r own s id record) (Decl.procedureSymbols S.current.level decls)
      (Semantics.closures next decls env) := by
  induction decls generalizing S env next with
  | nil => exact .nil
  | cons d rest ih =>
    rw [Decl.AllResolved] at hr
    rw [Decl.nodesAll, List.forall_mem_append] at hk
    match d with
    | .procedure name params block =>
      rw [Decl.nodes, List.forall_mem_cons, List.forall_mem_append] at hk
      refine .cons ?_ (ih h hfresh hown hr.2 hk.2)
      exact ⟨S, name, params, block, env, rfl, rfl, h, hr.1, hk.1.2.2⟩
    | .variable name type =>
      let symbol : Symbol := .variable (.declared S.current.level name type)
      have hnew : S.current.find? symbol.name = none := hfresh.2 _ List.mem_cons_self
      have hdeclare : S.declare (.variable name type) = S.append [symbol] :=
        Scopes.insert_eq_append hnew rfl
      rw [hdeclare] at hr
      refine ih (S := S.append [symbol]) (h.insert hnew rfl (hown 0 symbol rfl))
        (Scopes.Fresh.append [symbol] hfresh) ?_ hr.2 hk.2
      intro i found hi
      rw [Nat.add_assoc, Nat.add_comm 1 i]
      exact hown (i + 1) found hi

theorem represents_unwritten {decls : List Decl} (level : Int)
    (h : ∀ x ∈ variableNames decls, record.members.get? x = none) :
    List.Forall₂ (Represents r own s id record) (Decl.variableSymbols level decls)
      ((variableNames decls).map fun _ => .unwritten) := by
  induction decls with
  | nil => exact .nil
  | cons d rest ih =>
    match d with
    | .procedure name params block => exact ih h
    | .variable name type =>
      rw [variableNames, List.forall_mem_cons] at h
      refine .cons ?_ (ih h.2)
      change Cell.unwritten = memberCell record name.name
      rw [memberCell, h.1]

/-- New symbols of a record get new locations. -/
theorem Simulates.extend {symbols : List Symbol} {cells : List Cell} (h : Simulates r own s σ)
    (hrecord : s.get? id = some record) (hn : (symbols.map Symbol.name).Nodup)
    (hnew : ∀ symbol, (id, symbol) ∈ own → symbol.name ∉ symbols.map Symbol.name)
    (hcells : List.Forall₂
      (Represents r (own ++ symbols.map fun symbol => (id, symbol)) s id record) symbols cells) :
    Simulates r (own ++ symbols.map fun symbol => (id, symbol)) s (σ ++ cells) := by
  refine ⟨List.rel_append (h.cells.imp ?_) ?_, nodup_append_owners h.nodup hn ?_, ?_⟩
  · rintro owner cell ⟨old, hold, hrep⟩
    exact ⟨old, hold, hrep.mono (List.prefix_append _ _) (.refl s)⟩
  · rw [List.forall₂_map_left_iff]
    exact hcells.imp fun symbol cell hrep => ⟨record, hrecord, hrep⟩
  · rintro symbol hsymbol ⟨_, symbol'⟩ ho rfl hname
    refine hnew symbol' ho ?_
    rw [hname]
    exact List.mem_map_of_mem hsymbol
  · intro id record x v hrecord hx
    obtain ⟨u, hu, hname⟩ := h.members id record x v hrecord hx
    exact ⟨u, List.mem_append_left _ hu, hname⟩

theorem getElem?_append_owners {symbols : List Symbol} {i : Nat} {symbol : Symbol}
    (h : symbols[i]? = some symbol) :
    (own ++ symbols.map fun symbol => (id, symbol))[own.length + i]? = some (id, symbol) := by
  rw [List.getElem?_append_right (Nat.le_add_right _ _), Nat.add_sub_cancel_left,
    List.getElem?_map, h, Option.map_some]

theorem mem_append_owners {symbols : List Symbol} {j : Nat} {symbol : Symbol} :
    (j, symbol) ∈ own ++ symbols.map (fun symbol => (id, symbol)) ↔
      (j, symbol) ∈ own ∨ j = id ∧ symbol ∈ symbols := by
  rw [List.mem_append, List.mem_map]
  refine or_congr_right ⟨?_, ?_⟩
  · rintro ⟨symbol, hmem, hpair⟩
    cases hpair
    exact ⟨rfl, hmem⟩
  · rintro ⟨rfl, hmem⟩
    exact ⟨symbol, hmem, rfl⟩

theorem Mirrors.find?_ne_none {symbol : Symbol} (h : Mirrors r own s S id env σ)
    (hs : (id, symbol) ∈ own) : S.current.find? symbol.name ≠ none := by
  intro hnone
  exact Scope.find?_eq_none_iff.mp hnone (List.mem_map_of_mem (h.owned symbol hs))

/-- What is not declared yet has no value. -/
theorem Mirrors.get?_eq_none (h : Mirrors r own s S id env σ) (hrecord : s.get? id = some record)
    {x : String} (hx : S.current.find? x = none) : record.members.get? x = none := by
  rw [Option.eq_none_iff_forall_ne_some]
  intro v hv
  obtain ⟨u, hu, rfl⟩ := h.store.members id record x v hrecord hv
  exact h.find?_ne_none hu hx

/-- The declarations of a block get their locations in the innermost record. -/
theorem Mirrors.elaborate {decls : List Decl} (h : Mirrors r own s S id env σ)
    (hfresh : S.Fresh (decls.map fun d => d.name.name))
    (hr : Decl.AllResolved r (S.withProcedures decls) decls)
    (hk : ∀ node ∈ Decl.nodesAll decls, node.Known) :
    ∃ symbols : List Symbol, Mirrors r (own ++ symbols.map fun symbol => (id, symbol)) s
      (S.body decls) id (elaborate decls env σ).1 (elaborate decls env σ).2 := by
  let level := S.current.level
  let procs := Decl.procedureSymbols level decls
  let vars := Decl.variableSymbols level decls
  let own' := own ++ (procs ++ vars).map fun symbol => (id, symbol)
  have hsymbols : S.Fresh ((procs ++ vars).map Symbol.name) :=
    hfresh.perm (Decl.symbols_perm level decls).symm
  have hboth := hsymbols
  rw [List.map_append] at hboth
  have hwith : S.withProcedures decls = S.append procs := Scopes.withProcedures_eq_append hfresh
  -- procedures first: all of them are known where the first declaration stands
  have hfront : ∀ i symbol, procs[i]? = some symbol → own'[σ.length + i]? = some (id, symbol) := by
    intro i symbol hi
    rw [← h.store.length_eq]
    exact getElem?_append_owners (getElem?_of_isPrefix (List.prefix_append procs vars) hi)
  have hknown := (h.environment.mono (List.prefix_append own _) (.refl s)).bindFrom hboth.left
    (fun _ hs => Decl.level_of_mem_procedureSymbols hs) hfront
  rw [map_name_procedureSymbols] at hknown
  have hback : ∀ i symbol, vars[i]? = some symbol →
      own'[σ.length + (procedureNames decls).length + i]? = some (id, symbol) := by
    intro i symbol hi
    rw [← map_name_procedureSymbols level, List.length_map, Nat.add_assoc, ← h.store.length_eq]
    refine getElem?_append_owners ?_
    rw [List.getElem?_append_right (Nat.le_add_right _ _), Nat.add_sub_cancel_left, hi]
  have hmatches := hknown.bindFrom hboth.append
    (fun _ hs => Decl.level_of_mem_variableSymbols hs) hback
  rw [map_name_variableSymbols, Scopes.append_append, ← Scopes.body_eq_append hfresh] at hmatches
  obtain ⟨record, hrecord, _⟩ := h.environment.current
  have hunwritten : ∀ x ∈ variableNames decls, record.members.get? x = none := by
    intro x hx
    rw [← map_name_variableSymbols level] at hx
    exact h.get?_eq_none hrecord (hboth.2 x (List.mem_append_right _ hx))
  have hclosures := hknown.closures record
    (map_name_variableSymbols level decls ▸ hboth.append) hback (hwith ▸ hr) hk
  refine ⟨procs ++ vars, ⟨?_, h.top, hmatches, ?_⟩⟩
  · rw [Semantics.elaborate, List.append_assoc]
    refine h.store.extend hrecord hsymbols.1 (fun symbol hs hname => ?_) ?_
    · exact h.find?_ne_none hs (hsymbols.2 _ hname)
    · exact List.rel_append hclosures (represents_unwritten level hunwritten)
  · intro symbol hsymbol
    rw [Scopes.body_eq_append hfresh]
    exact List.mem_append.mpr ((mem_append_owners.mp hsymbol).imp (h.owned symbol) And.right)

theorem Mirrors.block {block : Block} (h : Mirrors r own s S id env σ) (hr : block.Resolved r S)
    (hk : ∀ node ∈ block.nodes, node.Known) :
    ∃ symbols : List Symbol, Mirrors r (own ++ symbols.map fun symbol => (id, symbol)) s
      (S.body block.decls) id (Semantics.elaborate block.decls env σ).1
      (Semantics.elaborate block.decls env σ).2 ∧
      ∀ node ∈ Stmt.nodesAll block.body, node.Resolved r (S.body block.decls) ∧ node.Known := by
  cases block with
  | mk decls start body =>
    rw [Block.Resolved] at hr
    rw [Block.nodes, List.forall_mem_cons, List.forall_mem_append, List.forall_mem_cons] at hk
    obtain ⟨symbols, hsymbols⟩ := h.elaborate hr.1 hr.2.1 hk.2.1
    exact ⟨symbols, hsymbols, fun node hnode => ⟨hr.2.2 node hnode, hk.2.2.2 node hnode⟩⟩

/-- The parameters of a record that starts with one value for each. -/
theorem memberCell_ofList {vars : List Variable} {values : List Value}
    (hlen : values.length = vars.length) (hn : (vars.map Variable.name).Nodup)
    (hmembers : record.members = .ofList ((vars.map Variable.name).zip values)) :
    List.Forall₂ (fun u cell => cell = memberCell record u.name) vars (values.map .value) := by
  refine List.forall₂_of_length_eq_of_get (by rw [List.length_map, hlen]) ?_
  intro i hi hi'
  have hfst : ((vars.map Variable.name).zip values).map Prod.fst = vars.map Variable.name :=
    List.map_fst_zip (Nat.le_of_eq (by rw [List.length_map, hlen]))
  have hget : record.members.get? vars[i].name = some values[i] := by
    rw [hmembers]
    refine Bindings.get?_ofList_of_mem (hfst.symm ▸ hn) ?_
    refine List.mem_iff_getElem.mpr ⟨i, ?_, ?_⟩
    · rw [List.length_zip, List.length_map]
      omega
    · rw [List.getElem_zip, List.getElem_map]
  rw [List.get_eq_getElem, List.get_eq_getElem, List.getElem_map, memberCell, hget]

/-- The record of a call has new locations for the parameters, which hold the arguments. -/
theorem Mirrors.enter {j : Nat} {outer : Environment} {name : Token} {params : List Param}
    {block : Block} {values : List Value} (h : Simulates r own s σ) (hm : Matches own s S j outer)
    (hn : (params.map fun p => p.name.name).Nodup) (hlink : s.visible S.current.level = some j)
    (hlen : values.length = params.length) :
    let q := Procedure.declared S.current.level name params block
    ∃ symbols : List Symbol, Mirrors r (own ++ symbols.map fun symbol => (s.nextId, symbol))
      (s.enter (Execution.callRecord s q values)) (S.inside name params) s.nextId
      (bindFrom σ.length (params.map fun p => p.name.name) outer) (σ ++ values.map .value) := by
  intro q
  let record := Execution.callRecord s q values
  let symbols := Param.symbols (S.current.level + 1) params
  have hnames : q.params.map Variable.name = params.map fun p => p.name.name := List.map_map
  have hsymbols : q.params.map Symbol.variable = symbols := List.map_map
  have hsymbolNames : symbols.map Symbol.name = params.map fun p => p.name.name := List.map_map
  have hlen' : values.length = q.params.length := hlen.trans (List.length_map _).symm
  have hcells : List.Forall₂ (fun u cell => cell = memberCell record u.name) q.params
      (values.map .value) := memberCell_ofList hlen' (hnames ▸ hn) rfl
  have hmembers : ∀ x v, record.members.get? x = some v → x ∈ q.params.map Variable.name := by
    intro x v hx
    by_contra hmem
    have hnone : record.members.get? x = none := Bindings.get?_ofList_of_not_mem fun hx => by
      obtain ⟨entry, hentry, rfl⟩ := List.mem_map.mp hx
      exact hmem (List.of_mem_zip hentry).1
    cases hnone.symm.trans hx
  have hstore := h.enter hcells (hnames ▸ hn) hmembers
  rw [hsymbols] at hstore
  obtain ⟨old, hold, _⟩ := hm.current
  have hentered := hm.enter (CallStack.extends_enter s record) (CallStack.get?_enter_self s record)
    hlink (CallStack.lt_nextId_of_get? hold) rfl name.name
  have hinside : S.inside name params = (S.enter name.name).append symbols :=
    Scopes.inside_eq_append name hn
  have hparams : Matches (own ++ symbols.map fun symbol => (s.nextId, symbol)) (s.enter record)
      ((S.enter name.name).append symbols) s.nextId
      (bindFrom own.length (symbols.map Symbol.name) outer) :=
    (hentered.mono (List.prefix_append own _) (.refl _)).bindFrom
      ((Scopes.fresh_enter _).mpr (hsymbolNames ▸ hn)) (fun _ => Param.level_of_mem_symbols)
      fun i symbol hi => getElem?_append_owners hi
  rw [← hinside, hsymbolNames, h.length_eq] at hparams
  refine ⟨symbols, hstore, rfl, hparams, fun symbol hsymbol => ?_⟩
  rw [hinside]
  rcases mem_append_owners.mp hsymbol with hmem | ⟨_, hmem⟩
  · exact absurd (h.lt_nextId hmem) (Nat.lt_irrefl _)
  · exact List.mem_append_right _ hmem

/-- A call enters a record that represents the invocation of its closure. -/
theorem Mirrors.invoke {j : Nat} {q : Procedure} {params : List Param} {block : Block}
    {outer : Environment} {values : List Value} (h : Simulates r own s σ)
    (hq : Represents r own s j record (.procedure q) (.closure params block outer))
    (hlink : s.visible q.level = some j) (hlen : values.length = params.length) :
    ∃ (symbols : List Symbol) (S : Scopes),
      Mirrors r (own ++ symbols.map fun symbol => (s.nextId, symbol))
        (s.enter (Execution.callRecord s q values)) S s.nextId
        (invoke params values block outer σ).1 (invoke params values block outer σ).2 ∧
      ∀ node ∈ Stmt.nodesAll block.body, node.Resolved r S ∧ node.Known := by
  obtain ⟨S, name, _, _, _, hclosure, rfl, hm, ⟨hn, hblock⟩, hk⟩ := hq
  cases hclosure
  obtain ⟨symbols, hsymbols⟩ := Mirrors.enter h hm hn hlink hlen
  obtain ⟨more, hmore, hnodes⟩ := hsymbols.block hblock hk
  refine ⟨symbols ++ more, (S.inside name params).body block.decls, ?_, hnodes⟩
  rw [List.map_append, ← List.append_assoc]
  exact hmore

theorem simulates_nil (r : Resolution) : Simulates r [] {} [] := by
  refine ⟨.nil, List.nodup_nil, fun id record x v hrecord _ => ?_⟩
  exact absurd (CallStack.lt_nextId_of_get? hrecord) (Nat.not_lt_zero id)

/-- Around a program there are only the built-in types, which have no locations. -/
theorem matches_globals (h : s.get? 0 = some record) (hlevel : record.level = 1) :
    Matches [] s .globals 0 [] := by
  refine ⟨Scopes.leveled_globals, ⟨record, h, hlevel⟩, fun x symbol hx hsymbol => ?_, ?_⟩
  · obtain ⟨name, level, hbuiltin⟩ :=
      Scopes.builtin_of_mem_globals (Scopes.mem_of_lookup rfl hx)
    exact absurd hbuiltin (hsymbol name level)
  · intro x l hx
    cases hx

/-- The record of a program represents what is around its block. -/
theorem Mirrors.start (r : Resolution) (name : String) :
    Mirrors r [] (CallStack.enter {} { name }) .globals 0 [] [] := by
  let record : Record := { name }
  have hempty : ∀ x v, record.members.get? x = some v → x ∈ ([] : List Variable).map (·.name) := by
    intro x v hx
    cases hx
  refine ⟨(simulates_nil r).enter .nil List.nodup_nil hempty, rfl,
    matches_globals (CallStack.get?_enter_self {} record) rfl, fun symbol hsymbol => ?_⟩
  cases hsymbol

/-- The names in the record of a program have the values at their locations. -/
theorem Mirrors.bindings_eq {decls : List Decl}
    (h : Mirrors r own s (Scopes.globals.body decls) id env σ)
    (hfresh : Scopes.globals.Fresh (decls.map fun d => d.name.name))
    (hrecord : s.get? id = some record) : record.members.get? = bindings env σ := by
  have hscopes := Scopes.body_eq_append hfresh
  have hS : (Scopes.globals.body decls).enclosing = [] := by
    rw [hscopes]
    rfl
  have hn : ((Scopes.globals.body decls).current.symbols.map Symbol.name).Nodup := by
    rw [hscopes]
    refine Scopes.Fresh.nodup_append ?_ (by decide)
    exact hfresh.perm (Decl.symbols_perm _ decls).symm
  funext x
  refine Option.ext fun v => ?_
  rw [bindings_eq_some]
  constructor
  · intro hx
    obtain ⟨u, hu, rfl⟩ := h.store.members id record x v hrecord hx
    have hmem := h.owned _ hu
    obtain ⟨owner, l, howner, hl, ho⟩ := h.environment.location (Scopes.lookup_of_mem hn hmem)
      fun _ _ hbuiltin => by cases hbuiltin
    obtain rfl : id = owner :=
      Option.some.inj ((h.environment.enclosing_of_mem hmem).symm.trans howner)
    obtain ⟨found, cell, hfound, hcell, hrep⟩ := h.store.exists_cell ho
    obtain rfl : record = found := Option.some.inj (hrecord.symm.trans hfound)
    have hvalue : cell = memberCell record u.name := hrep
    rw [memberCell, hx] at hvalue
    exact ⟨l, hl, hcell.trans (congrArg some hvalue)⟩
  · rintro ⟨l, hl, hvalue⟩
    obtain ⟨symbol, owner, hlookup, howner, ho⟩ := h.environment.found x l hl
    have hmem := Scopes.mem_of_lookup hS hlookup
    obtain rfl : id = owner :=
      Option.some.inj ((h.environment.enclosing_of_mem hmem).symm.trans howner)
    obtain ⟨found, cell, hfound, hcell, hrep⟩ := h.store.exists_cell ho
    obtain rfl : record = found := Option.some.inj (hrecord.symm.trans hfound)
    obtain rfl : cell = .value v := Option.some.inj (hcell.symm.trans hvalue)
    rw [← Scopes.name_of_lookup hlookup]
    exact hrep.get?_of_value

end MiniPascal.Semantics
