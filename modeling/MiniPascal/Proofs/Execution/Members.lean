import MiniPascal.Proofs.Execution.MostRecent
import MiniPascal.Proofs.Resolution.Tables
import MiniPascal.Proofs.Semantics.Representation

/-!
# What records hold

Every record belongs to a routine, and it holds values of variables and parameters of this routine
only. No two symbols of a routine share a name, so each member of a record is the value of one
symbol. A record of a procedure is made with all parameters, and no member is ever lost, so that a
parameter always has a value.

An assignment finds the record it writes into by a level. That the record belongs to the routine
which declares the variable comes from the static chains; the routines of all records that were made
are kept in a list beside the call stack.
-/
namespace MiniPascal

namespace Bindings

variable {b : Bindings} {x y : String} {v : Value}

def keys (b : Bindings) : List String := b.map Prod.fst

theorem keys_set (b : Bindings) (x : String) (v : Value) :
    (b.set x v).keys = if x ∈ b.keys then b.keys else b.keys ++ [x] := by
  unfold keys
  induction b with
  | nil => rfl
  | cons entry rest ih =>
    obtain ⟨n, w⟩ := entry
    by_cases hn : n = x
    · rw [set, if_pos hn, List.map_cons, List.map_cons, if_pos (hn ▸ List.mem_cons_self)]
    · rw [set, if_neg hn, List.map_cons, ih, List.map_cons]
      by_cases hx : x ∈ rest.map Prod.fst
      · rw [if_pos hx, if_pos (List.mem_cons_of_mem _ hx)]
      · rw [if_neg hx, if_neg (List.not_mem_cons_of_ne_of_not_mem (Ne.symm hn) hx),
          List.cons_append]

theorem mem_keys_set : y ∈ (b.set x v).keys ↔ y ∈ b.keys ∨ y = x := by
  rw [keys_set]
  by_cases hx : x ∈ b.keys
  · rw [if_pos hx]
    exact ⟨.inl, fun h => h.elim id fun h => h ▸ hx⟩
  · rw [if_neg hx, List.mem_append, List.mem_singleton]

theorem nodup_keys_set (h : b.keys.Nodup) : (b.set x v).keys.Nodup := by
  rw [keys_set]
  by_cases hx : x ∈ b.keys
  · rwa [if_pos hx]
  · rw [if_neg hx]
    exact List.nodup_append.mpr ⟨h, List.nodup_singleton x, fun y hy z hz heq =>
      hx (List.mem_singleton.mp hz ▸ heq ▸ hy)⟩

theorem keys_ofList (items : List (String × Value)) :
    (ofList items).keys.Nodup ∧ ∀ y, y ∈ (ofList items).keys ↔ y ∈ items.map Prod.fst := by
  suffices ∀ b : Bindings, b.keys.Nodup →
      let made := items.foldl (fun b item => set item.1 item.2 b) b
      made.keys.Nodup ∧ ∀ y, y ∈ made.keys ↔ y ∈ b.keys ∨ y ∈ items.map Prod.fst by
    obtain ⟨hnodup, hmem⟩ := this [] List.nodup_nil
    exact ⟨hnodup, fun y => (hmem y).trans (by simp [keys])⟩
  induction items with
  | nil => exact fun b hb => ⟨hb, fun y => by simp⟩
  | cons item rest ih =>
    intro b hb
    obtain ⟨hnodup, hmem⟩ := ih (b.set item.1 item.2) (nodup_keys_set hb)
    refine ⟨hnodup, fun y => (hmem y).trans ?_⟩
    rw [mem_keys_set, List.map_cons, List.mem_cons, or_assoc]

theorem isSome_get?_iff : (b.get? x).isSome = true ↔ x ∈ b.keys := by
  unfold get? keys
  induction b with
  | nil => simp
  | cons entry rest ih =>
    obtain ⟨n, w⟩ := entry
    rw [List.lookup_cons, List.map_cons, List.mem_cons]
    by_cases hx : x = n
    · simp [hx]
    · have hne : (x == n) = false := beq_eq_false_iff_ne.mpr hx
      rw [hne, ih]
      exact (or_iff_right hx).symm

end Bindings

/-! ### The symbols of a routine -/

def Block.symbols (path : List Procedure) (block : Block) : List Symbol :=
  (path.head?.elim [] Procedure.params).map .variable ++
    block.decls.map (Decl.symbol (path.length + 1))

namespace Program

variable {p : Program} {path path' : List Procedure} {block block' : Block} {r : Resolution}
  {symbol symbol' : Symbol}

theorem Nests.block_eq (h : p.Nests path block) :
    block = path.head?.elim p.block Procedure.block := by
  cases h with
  | program => rfl
  | procedure => rfl

theorem Declares.exists_nests (h : p.Declares path symbol) : ∃ block, p.Nests path block := by
  cases h with
  | ofVariable routine _ => exact ⟨_, routine⟩
  | ofProcedure routine _ => exact ⟨_, routine⟩
  | ofParam routine _ => exact ⟨_, routine⟩

theorem Declares.mem_symbols (hn : p.Nests path block) (h : p.Declares path symbol) :
    symbol ∈ block.symbols path := by
  rw [hn.block_eq]
  cases h with
  | ofVariable routine declared =>
    rw [← routine.block_eq]
    exact List.mem_append_right _ (List.mem_map.mpr ⟨_, declared, rfl⟩)
  | ofProcedure routine declared =>
    rw [← routine.block_eq]
    exact List.mem_append_right _ (List.mem_map.mpr ⟨_, declared, rfl⟩)
  | ofParam routine declared => exact List.mem_append_left _ (List.mem_map_of_mem declared)

/-- The parameters of a procedure stand in the scope in which its block declares further names. -/
theorem Nests.nodup_symbols (hn : p.Nests path block) (hr : p.block.Resolved r .globals) :
    ((block.symbols path).map Symbol.name).Nodup := by
  rw [Block.symbols, List.map_append, Decl.map_name_symbol]
  cases hn with
  | program => exact hr.fresh.1
  | @procedure path outerBlock block name params outer declared =>
    obtain ⟨S, _, hresolved⟩ := outer.describes hr
    obtain ⟨before, after, hdecls⟩ := List.append_of_mem declared
    cases outerBlock with
    | mk decls start body =>
      rw [Block.Resolved] at hresolved
      have hprocedure := hresolved.2.1.resolved_behind hdecls
      rw [Decl.Resolved] at hprocedure
      obtain ⟨hparams, hinner⟩ := hprocedure
      have hfresh := hinner.fresh
      rw [Scopes.inside_eq_append name hparams] at hfresh
      have hnames : ((Procedure.declared (path.length + 1) name params block).params.map
          Symbol.variable).map Symbol.name = params.map fun p => p.name.name := by
        rw [List.map_map, Procedure.declared, List.map_map]
        rfl
      refine List.nodup_append.mpr ⟨?_, hfresh.1, fun x hx y hy heq => ?_⟩
      · exact hnames ▸ hparams
      · have hnone := (Scopes.find?_append_eq_none.mp (hfresh.2 y hy)).2
        rw [Param.symbols, List.map_map] at hnone
        change x ∈ ((Procedure.declared (path.length + 1) name params block).params.map
          Symbol.variable).map Symbol.name at hx
        rw [hnames] at hx
        exact hnone (heq ▸ hx)

/-- No two symbols of a routine share a name. -/
theorem Declares.eq_of_name (hr : p.block.Resolved r .globals) (h : p.Declares path symbol)
    (h' : p.Declares path symbol') (hname : symbol.name = symbol'.name) : symbol = symbol' := by
  obtain ⟨block, hn⟩ := h.exists_nests
  exact List.inj_on_of_nodup_map (hn.nodup_symbols hr) (h.mem_symbols hn) (h'.mem_symbols hn) hname

/-- A routine is told by its procedure, since no other routine declares the procedure. -/
theorem Nests.path_unique {file : String} {source : Bytes} {index : Nat}
    (h : p.Nests path block) (h' : p.Nests path' block') (hhead : path.head? = path'.head?)
    (hp : Program.ofSource file source index = .ok p) : path = path' := by
  cases h with
  | program =>
    cases h' with
    | program => rfl
    | procedure => cases hhead
  | procedure outer declared =>
    cases h' with
    | program => cases hhead
    | procedure outer' declared' =>
      have hq := Option.some.inj hhead
      have hdeclares := Declares.ofProcedure outer declared
      rw [hq] at hdeclares ⊢
      rw [(hdeclares.sole hp _).mp (.ofProcedure outer' declared')]

end Program

/-! ### Records and their routines -/

/-- A record of a routine holds variables that the routine declares, each once, and all parameters
of the routine. -/
structure Record.Holds (record : Record) (p : Program) (path : List Procedure) : Prop where
  nests : ∃ block, p.Nests path block
  name : record.name = path.head?.elim p.name.name Procedure.name
  kind : record.kind = path.head?.elim .program fun _ => .procedure
  level : record.level = path.length + 1
  nodup : record.members.keys.Nodup
  declared : ∀ x ∈ record.members.keys, ∃ v, v.name = x ∧ p.Declares path (.variable v)
  params : ∀ q ∈ path.head?, ∀ v ∈ q.params, v.name ∈ record.members.keys

namespace Record.Holds

variable {record : Record} {p : Program} {path : List Procedure}

theorem set (h : record.Holds p path) {v : Variable} (hv : p.Declares path (.variable v))
    (value : Value) : (record.set v.name value).Holds p path where
  nests := h.nests
  name := h.name
  kind := h.kind
  level := h.level
  nodup := Bindings.nodup_keys_set h.nodup
  declared := fun x hx => by
    rcases Bindings.mem_keys_set.mp hx with hx | rfl
    · exact h.declared x hx
    · exact ⟨v, rfl, hv⟩
  params := fun q hq w hw => Bindings.mem_keys_set.mpr (.inl (h.params q hq w hw))

end Record.Holds

namespace Execution

variable {settings : Settings} {r : Resolution} {p : Program} {s s' : CallStack} {a b : Moment}
  {tasks below : List Task} {t : Task} {path : List Procedure} {routines : List (List Procedure)}

theorem evaluateAll_length {es : List Expr} {values : List Value}
    (h : evaluateAll r s es = .ok values) : values.length = es.length := by
  induction es generalizing values with
  | nil =>
    cases h
    rfl
  | cons e rest ih =>
    rw [evaluateAll] at h
    cases hvalue : evaluate r s e with
    | error err =>
      rw [hvalue] at h
      cases h
    | ok v =>
      cases hvalues : evaluateAll r s rest with
      | error err =>
        rw [hvalue, hvalues] at h
        cases h
      | ok vs =>
        rw [hvalue, hvalues] at h
        cases h
        rw [List.length_cons, List.length_cons, ih hvalues]

theorem holds_callRecord {s : CallStack} {q : Procedure} {values : List Value}
    (hq : p.Declares path (.procedure q)) (hlength : values.length = q.params.length) :
    (callRecord s q values).Holds p (q :: path) := by
  have hkeys : ((q.params.map Variable.name).zip values).map Prod.fst =
      q.params.map Variable.name :=
    List.map_fst_zip (Nat.le_of_eq (by rw [List.length_map, hlength]))
  obtain ⟨hnodup, hmem⟩ := Bindings.keys_ofList ((q.params.map Variable.name).zip values)
  rw [hkeys] at hmem
  have hlevel : q.level = path.length + 1 := hq.level_eq
  refine ⟨⟨_, hq.nests⟩, rfl, rfl, ?_, hnodup, fun x hx => ?_, fun q' hq' v hv => ?_⟩
  · change q.level + 1 = _
    rw [hlevel, List.length_cons]
    omega
  · obtain ⟨v, hv, rfl⟩ := List.mem_map.mp ((hmem x).mp hx)
    exact ⟨v, rfl, .ofParam hq.nests hv⟩
  · cases hq'
    exact (hmem _).mpr (List.mem_map_of_mem hv)

/-- The routines of all records of a moment, in the order in which the records were made. -/
structure Moment.Framed (moment : Moment) (p : Program) (routines : List (List Procedure)) :
    Prop where
  made : routines.length = moment.stack.nextId
  first : routines.head? = some []
  live : ∀ t ∈ moment.tasks, ∃ path, routines[t.record]? = some path ∧ path.head? = t.routine
  holds : ∀ id record path, moment.stack.get? id = some record → routines[id]? = some path →
    record.Holds p path

/-- A step that changes no record keeps the routines, if it leaves no new tasks. -/
theorem Moment.Framed.onwards (ha : a.Framed p routines)
    (hrecords : b.stack.records = a.stack.records)
    (htasks : ∀ t ∈ b.tasks, ∃ u ∈ a.tasks, u.record = t.record ∧ u.routine = t.routine) :
    b.Framed p routines where
  made := ha.made.trans (congrArg Array.size hrecords.symm)
  first := ha.first
  live := fun t ht => by
    obtain ⟨u, hu, hrecord, hroutine⟩ := htasks t ht
    rw [← hrecord, ← hroutine]
    exact ha.live u hu
  holds := fun id record path hget => ha.holds id record path (by
    rw [CallStack.get?, ← hrecords]
    exact hget)

theorem Moment.framed_start (settings : Settings) (p : Program) :
    (start settings p).Framed p [[]] := by
  have hstack : (start settings p).stack = CallStack.enter {} { name := p.name.name } :=
    stack_entered _
  refine ⟨?_, rfl, fun t ht => ?_, fun id record path hget hpath => ?_⟩
  · rw [hstack]
    rfl
  · rw [List.mem_singleton.mp ht]
    exact ⟨[], rfl, rfl⟩
  · rw [hstack, CallStack.get?_enter] at hget
    split at hget
    · cases hget
      next hid =>
        subst hid
        cases hpath
        exact ⟨⟨_, .program⟩, rfl, rfl, rfl, List.nodup_nil, fun x hx => absurd hx List.not_mem_nil,
          fun q hq => by cases hq⟩
    · cases hget

section

variable {file : String} {source : Bytes} {index : Nat}

/-- A reference leads to a record of the routine that declares the variable. -/
theorem Moment.Framed.exists_owner (ha : a.Framed p routines)
    (hrecent : Recent r p a.stack a.tasks) (hsound : a.Sound settings) {id : Nat}
    {q : Option Procedure} {todo : List Stmt} (htasks : a.tasks = ⟨id, q, todo⟩ :: below)
    {t : Token} (ht : t ∈ (Stmt.nodesAll todo).filterMap Node.reference?) :
    ∃ j v path path' record, owner r a.stack t = .ok (j, v) ∧ p.Declares path (.variable v) ∧
      a.stack.get? j = some record ∧ routines[j]? = some path' ∧ path.head? = path'.head? ∧
      record.Holds p path' := by
  rw [htasks] at hrecent
  have hrecords := hsound.records
  rw [htasks] at hrecords
  obtain ⟨j, v, path, howner, hdeclares, hchain⟩ :=
    owner_of_arrived (hrecent.arrived_top hrecords) ht
  obtain ⟨record, hget, _⟩ := hchain.exists_record
  obtain ⟨u, hu, heq⟩ := List.mem_map.mp (Activations.mem_latest_iff.mp hchain.live).1
  obtain ⟨hrecord, hroutine⟩ := Prod.mk.inj heq
  obtain ⟨path', hpath', hhead⟩ := ha.live u (htasks ▸ hu)
  rw [hrecord] at hpath'
  exact ⟨j, v, path, path', record, howner, hdeclares, hget, hpath', (hhead.trans hroutine).symm,
    ha.holds j record path' hget hpath'⟩

/-- An assignment writes a variable into a record of the routine that declares it. -/
theorem Moment.Framed.set (ha : a.Framed p routines) {j : Nat} {v : Variable}
    (hpath : routines[j]? = some path) (hv : p.Declares path (.variable v)) {value : Value}
    (hstack : b.stack = a.stack.set j v.name value)
    (htasks : ∀ t ∈ b.tasks, ∃ u ∈ a.tasks, u.record = t.record ∧ u.routine = t.routine) :
    b.Framed p routines where
  made := by
    rw [ha.made, hstack]
    exact Array.size_modify.symm
  first := ha.first
  live := fun t ht => by
    obtain ⟨u, hu, hrecord, hroutine⟩ := htasks t ht
    rw [← hrecord, ← hroutine]
    exact ha.live u hu
  holds := fun id record path' hget hpath' => by
    rw [hstack, CallStack.get?_set] at hget
    split at hget
    · next hid =>
      subst hid
      obtain ⟨old, hold, rfl⟩ := Option.map_eq_some_iff.mp hget
      obtain rfl : path' = path := Option.some.inj (hpath'.symm.trans hpath)
      exact (ha.holds j old path' hold hpath').set hv value
    · exact ha.holds id record path' hget hpath'

/-- A call makes a record of the procedure. -/
theorem Moment.Framed.enter {q : Procedure} {record : Record} (ha : a.Framed p routines)
    (hrecord : record.Holds p (q :: path)) (hstack : b.stack = a.stack.enter record)
    {todo : List Stmt} {others : List Task}
    (htasks : b.tasks = ⟨a.stack.nextId, some q, todo⟩ :: others)
    (hothers : ∀ t ∈ others, ∃ u ∈ a.tasks, u.record = t.record ∧ u.routine = t.routine) :
    b.Framed p (routines ++ [q :: path]) where
  made := by
    rw [List.length_append, ha.made, hstack]
    exact (Array.size_push _).symm
  first := by
    rw [List.head?_append, ha.first]
    rfl
  live := fun t ht => by
    rw [htasks] at ht
    rcases List.mem_cons.mp ht with rfl | ht
    · refine ⟨q :: path, ?_, rfl⟩
      rw [← ha.made]
      exact List.getElem?_concat_length
    · obtain ⟨u, hu, hrecord, hroutine⟩ := hothers t ht
      obtain ⟨path', hpath', hhead⟩ := ha.live u hu
      rw [← hrecord, ← hroutine]
      exact ⟨path', Semantics.getElem?_of_isPrefix (List.prefix_append _ _) hpath', hhead⟩
  holds := fun id made path' hget hpath' => by
    rw [hstack, CallStack.get?_enter] at hget
    split at hget
    · next hid =>
      cases hget
      rw [hid, ← ha.made, List.getElem?_concat_length] at hpath'
      exact Option.some.inj hpath' ▸ hrecord
    · have hlt : id < routines.length := ha.made ▸ CallStack.lt_nextId_of_get? hget
      rw [List.getElem?_append_left hlt] at hpath'
      exact ha.holds id made path' hget hpath'

theorem records_completed (settings : Settings) (m : Machine) :
    (completed settings m).stack.records = m.stack.records := by
  rw [stack_completed]
  rfl

/-- At every step the records hold what they should. -/
theorem Step.framed (h : Step settings r a b) (hp : Program.ofSource file source index = .ok p)
    (hsound : a.Sound settings) (hrecent : Recent r p a.stack a.tasks)
    (ha : a.Framed p routines) : ∃ routines', b.Framed p routines' := by
  -- the innermost task goes on, and the others stay
  have hsame {id : Nat} {q : Option Procedure} {todo todo' : List Stmt} {outer : List Task} :
      ∀ t ∈ ⟨id, q, todo'⟩ :: outer, ∃ u ∈ (⟨id, q, todo⟩ :: outer : List Task),
        u.record = t.record ∧ u.routine = t.routine := by
    intro t ht
    rcases List.mem_cons.mp ht with rfl | ht
    · exact ⟨_, List.mem_cons_self, rfl, rfl⟩
    · exact ⟨t, List.mem_cons_of_mem _ ht, rfl, rfl⟩
  cases h with
  | skip | compound | valueFails | targetFails | callFails | tooDeep =>
    exact ⟨routines, ha.onwards rfl hsame⟩
  | @assign m id q target op value rest outer v holder x evaluated owned =>
    have ht : target ∈ (Stmt.nodesAll (.assign target op value :: rest)).filterMap
        Node.reference? := by
      rw [Stmt.nodesAll, Stmt.nodes, List.cons_append, List.cons_append]
      exact List.mem_cons_self
    obtain ⟨j, w, path, path', record, howner, hdeclares, hget, hpath', hhead, hholds⟩ :=
      ha.exists_owner hrecent hsound rfl ht
    cases owned.symm.trans howner
    obtain ⟨block, hn⟩ := hdeclares.exists_nests
    obtain ⟨block', hn'⟩ := hholds.nests
    obtain rfl := hn.path_unique hn' hhead hp
    exact ⟨routines, ha.set hpath' hdeclares rfl hsame⟩
  | @enter m id q name args rest outer callee values prepared room =>
    obtain ⟨path, j, hdeclares, _, _⟩ := chain_of_call (hrecent.arrived_top hsound.records) prepared
    obtain ⟨_, hlength, hvalues⟩ := prepare_eq_ok prepared
    have hrecord := holds_callRecord (s := m.stack) hdeclares
      ((evaluateAll_length hvalues).trans hlength)
    exact ⟨_, ha.enter hrecord (stack_entered _) rfl hsame⟩
  | leave =>
    exact ⟨routines, ha.onwards (records_completed settings _)
      fun t ht => ⟨t, List.mem_cons_of_mem _ ht, rfl, rfl⟩⟩
  | unwind =>
    exact ⟨routines, ha.onwards rfl fun t ht => ⟨t, List.mem_cons_of_mem _ ht, rfl, rfl⟩⟩
  | finish =>
    exact ⟨routines, ha.onwards (records_completed settings _)
      fun t ht => absurd ht List.not_mem_nil⟩
  | fail => exact ⟨routines, ha.onwards rfl fun t ht => absurd ht List.not_mem_nil⟩

theorem Leads.framed (h : Leads settings r (.start settings p) b)
    (hp : Program.ofSource file source index = .ok p) (hr : p.block.Resolved r .globals) :
    ∃ routines, b.Framed p routines := by
  induction h with
  | refl => exact ⟨_, Moment.framed_start settings p⟩
  | @tail b c hleads hstep ih =>
    obtain ⟨routines, hframed⟩ := ih
    exact hstep.framed hp (Leads.sound hleads (Moment.sound_start settings p))
      (Leads.recent hleads hp hr) hframed

end

/-! ### Variables without a value -/

section

variable {α β : Type} {refs refs' : List Token}

/-- If the answer is that a variable has no value, one of the references was read in vain. -/
def Blames (r : Resolution) (s : CallStack) (refs : List Token) (x : Except RunError α) : Prop :=
  ∀ d, x = .error (.diagnostic d) → d.code = .unboundVariable →
    ∃ t ∈ refs, read r s t = .error (.diagnostic d)

theorem blames_ok (a : α) : Blames r s refs (.ok a : Except RunError α) := by
  intro d h
  cases h

theorem blames_error {e : RunError} (h : ∀ d, e = .diagnostic d → d.code ≠ .unboundVariable) :
    Blames r s refs (.error e : Except RunError α) := by
  intro d hd hcode
  cases hd
  exact absurd hcode (h d rfl)

theorem Blames.mono {x : Except RunError α} (hx : Blames r s refs x) (h : refs ⊆ refs') :
    Blames r s refs' x := by
  intro d hd hcode
  obtain ⟨t, ht, hread⟩ := hx d hd hcode
  exact ⟨t, h ht, hread⟩

theorem Blames.bind {x : Except RunError α} {f : α → Except RunError β} (hx : Blames r s refs x)
    (hf : ∀ a, Blames r s refs (f a)) : Blames r s refs (x >>= f) := by
  cases x with
  | error e =>
    intro d hd hcode
    cases hd
    exact hx d rfl hcode
  | ok a => exact hf a

theorem blames_operation (op : Token) {x : Except Value.OperationError Value}
    (hx : ∀ c, x = .error (.cause c) → c.code ∈ Value.operationCodes) :
    Blames r s refs (x.mapError (RunError.ofOperation op)) := by
  intro d hd hcode
  have hmem := code_of_operation hx hd
  rw [hcode] at hmem
  exact absurd hmem (by decide)

theorem blames_evaluate (e : Expr) :
    Blames r s (e.nodes.filterMap Node.reference?) (evaluate r s e) := by
  induction e with
  | number t v => exact blames_ok v
  | «variable» t => exact fun d hd _ => ⟨t, List.mem_cons_self, hd⟩
  | unary op e ih => exact ih.bind fun v => blames_operation op fun _ => Value.code_of_unary
  | binary left op right ihl ihr =>
    have hrefs : (Expr.binary left op right).nodes.filterMap Node.reference? =
        left.nodes.filterMap Node.reference? ++ right.nodes.filterMap Node.reference? := by
      rw [Expr.nodes, List.filterMap_cons_none rfl, List.filterMap_append]
    rw [hrefs]
    refine (ihl.mono (List.subset_append_left _ _)).bind fun a => ?_
    refine (ihr.mono (List.subset_append_right _ _)).bind fun b => ?_
    exact blames_operation op fun _ => Value.code_of_binary

theorem blames_evaluateAll (es : List Expr) :
    Blames r s ((es.flatMap Expr.nodes).filterMap Node.reference?) (evaluateAll r s es) := by
  induction es with
  | nil => exact blames_ok []
  | cons e rest ih =>
    rw [List.flatMap_cons, List.filterMap_append]
    refine ((blames_evaluate e).mono (List.subset_append_left _ _)).bind fun v => ?_
    exact (ih.mono (List.subset_append_right _ _)).bind fun vs => blames_ok (v :: vs)

theorem blames_prepare (name : Token) (args : List Expr) :
    Blames r s ((args.flatMap Expr.nodes).filterMap Node.reference?) (prepare r s name args) := by
  unfold prepare
  split
  · exact blames_error fun d h => by cases h
  · split
    · exact (blames_evaluateAll args).bind fun values => blames_ok _
    · refine blames_error fun d h hcode => ?_
      cases h
      cases hcode

end

theorem owner_eq_ok {t : Token} {id : Nat} {v : Variable} (h : owner r s t = .ok (id, v)) :
    r.references.find? t.index = some v := by
  unfold owner at h
  split at h
  · cases h
  · next hfind =>
    split at h
    · cases h
    · cases h
      exact hfind

theorem owner_ne_diagnostic {t : Token} {d : Diagnostic} :
    owner r s t ≠ .error (.diagnostic d) := by
  intro h
  unfold owner at h
  split at h
  · cases h
  · split at h <;> cases h

/-- The step that reports a variable without a value is at a statement that refers to it. -/
theorem Step.exists_reference {d : Diagnostic} (h : Step settings r a b)
    (ha : a.failure? = none) (hb : b.failure? = some (.diagnostic d))
    (hcode : d.code = .unboundVariable) :
    ∃ id q todo below t, a.tasks = ⟨id, q, todo⟩ :: below ∧
      t ∈ (Stmt.nodesAll todo).filterMap Node.reference? ∧
      read r a.stack t = .error (.diagnostic d) := by
  cases h with
  | skip | compound | assign | enter | leave | finish => cases hb
  | unwind | fail => cases ha
  | @valueFails m id q target op value rest outer e evaluated =>
    cases hb
    obtain ⟨t, ht, hread⟩ := blames_evaluate value d evaluated hcode
    obtain ⟨node, hnode, href⟩ := List.mem_filterMap.mp ht
    refine ⟨id, q, _, outer, t, rfl, List.mem_filterMap.mpr ⟨node, ?_, href⟩, hread⟩
    rw [Stmt.nodesAll, Stmt.nodes]
    exact List.mem_append_left _ (List.mem_cons_of_mem _ (List.mem_cons_of_mem _ hnode))
  | targetFails evaluated owned =>
    cases hb
    exact absurd owned owner_ne_diagnostic
  | @callFails m id q name args rest outer e prepared =>
    cases hb
    obtain ⟨t, ht, hread⟩ := blames_prepare name args d prepared hcode
    obtain ⟨node, hnode, href⟩ := List.mem_filterMap.mp ht
    refine ⟨id, q, _, outer, t, rfl, List.mem_filterMap.mpr ⟨node, ?_, href⟩, hread⟩
    rw [Stmt.nodesAll, Stmt.nodes]
    exact List.mem_append_left _ (List.mem_cons_of_mem _ hnode)
  | tooDeep prepared full =>
    cases hb
    cases hcode

/-- What is read in vain is a variable and no parameter. -/
theorem Moment.Framed.not_parameter {file : String} {source : Bytes} {index : Nat}
    (ha : a.Framed p routines) (hp : Program.ofSource file source index = .ok p)
    (hrecent : Recent r p a.stack a.tasks) (hsound : a.Sound settings) {id : Nat}
    {q : Option Procedure} {todo : List Stmt} (htasks : a.tasks = ⟨id, q, todo⟩ :: below)
    {t : Token} (ht : t ∈ (Stmt.nodesAll todo).filterMap Node.reference?) {d : Diagnostic}
    (hread : read r a.stack t = .error (.diagnostic d)) :
    ∃ v, d = .atToken t (.unbound v.name) ∧ r.references.find? t.index = some v ∧
      ∀ path q, p.Declares path (.procedure q) → v ∉ q.params := by
  obtain ⟨j, v, path, path', record, howner, hdeclares, hget, _, hhead, hholds⟩ :=
    ha.exists_owner hrecent hsound htasks ht
  unfold Execution.read at hread
  simp only [howner, bind, Except.bind, hget, Option.bind_some] at hread
  cases hmember : record.members.get? v.name with
  | some value =>
    rw [hmember] at hread
    cases hread
  | none =>
    rw [hmember] at hread
    cases hread
    refine ⟨v, rfl, owner_eq_ok howner, fun path₁ q₁ hq hv => ?_⟩
    have hparam : p.Declares (q₁ :: path₁) (.variable v) := .ofParam hq.nests hv
    have hpath := (hdeclares.sole hp _).mp hparam
    have hbound := hholds.params q₁ (hhead ▸ hpath ▸ rfl) v hv
    rw [← Bindings.isSome_get?_iff, hmember] at hbound
    cases hbound

/-! ### What a run shows -/

section

variable {file : String} {source : Bytes} {index : Nat}

/-- The records that a run has noted hold what they should, and a run that succeeds gives the
members of the record of the program. -/
theorem run_holds (hp : Program.ofSource file source index = .ok p)
    (hr : p.block.Resolved r .globals) (settings : Settings) :
    (∀ record ∈ (p.run r settings).returned, ∃ path, record.Holds p path) ∧
      ∀ b, (p.run r settings).result = .ok b →
        ∃ record : Record, record.Holds p [] ∧ b = record.members := by
  obtain ⟨done, htrace⟩ := exists_trace (start_leads settings r p)
  have hacc := htrace.accounted (Moment.accounted_start settings p)
  have hholds {id : Nat} {record : Record} (hmem : (id, record) ∈ done) :
      ∃ path, record.Holds p path ∧ (id = 0 → path = []) := by
    obtain ⟨m, q, outer, hleads, hget⟩ := htrace.mem_iff.mp hmem
    obtain ⟨routines, hframed⟩ := Leads.framed hleads hp hr
    have hlt : id < routines.length := hframed.made ▸ CallStack.lt_nextId_of_get? hget
    refine ⟨_, hframed.holds id record _ hget (List.getElem?_eq_getElem hlt), fun hzero => ?_⟩
    subst hzero
    have hfirst := hframed.first
    rw [List.head?_eq_getElem?, List.getElem?_eq_getElem hlt] at hfirst
    exact Option.some.inj hfirst
  have hnoted : (p.run r settings).returned = done.map Prod.snd := hacc.noted
  refine ⟨fun record hrecord => ?_, fun b hb => ?_⟩
  · rw [hnoted] at hrecord
    obtain ⟨⟨id, record⟩, hmem, rfl⟩ := List.mem_map.mp hrecord
    obtain ⟨path, hpath, _⟩ := hholds hmem
    exact ⟨path, hpath⟩
  · rcases htrace.end_cases with ⟨record, front, rfl, hresult⟩ | ⟨e, hresult, _⟩
    · obtain ⟨path, hpath, hzero⟩ := hholds (List.mem_append_right front List.mem_cons_self)
      cases hresult.symm.trans hb
      exact ⟨record, hzero rfl ▸ hpath, rfl⟩
    · cases hresult.symm.trans hb

/-- Where a run reports a variable without a value, it is a variable and no parameter. -/
theorem run_unbound (hp : Program.ofSource file source index = .ok p)
    (hr : p.block.Resolved r .globals) {d : Diagnostic}
    (hrun : (p.run r settings).result = .error (.diagnostic d))
    (hcode : d.code = .unboundVariable) :
    ∃ t v, d = .atToken t (.unbound v.name) ∧ r.references.find? t.index = some v ∧
      ∀ path q, p.Declares path (.procedure q) → v ∉ q.params := by
  obtain ⟨a, b, hleads, hraises⟩ :=
    exists_raises (start_leads settings r p) rfl (Moment.failure?_ended.mpr hrun)
  obtain ⟨id, q, todo, below, t, htasks, ht, hread⟩ :=
    hraises.step.exists_reference hraises.before hraises.failure hcode
  obtain ⟨routines, hframed⟩ := Leads.framed hleads hp hr
  exact ⟨t, hframed.not_parameter hp (Leads.recent hleads hp hr)
    (Leads.sound hleads (Moment.sound_start settings p)) htasks ht hread⟩

end

end Execution

/-- A routine declares a variable or a parameter of this name. The routine declares no other symbol
of this name, and the symbol is declared by no other routine. -/
def Program.OwnsName (p : Program) (path : List Procedure) (x : String) : Prop :=
  ∃ v : Variable, v.name = x ∧ p.SoleDeclarer path (.variable v) ∧
    ∀ symbol, p.Declares path symbol → symbol.name = x → symbol = .variable v

theorem Record.Holds.ownsName {record : Record} {p : Program} {path : List Procedure}
    {r : Resolution} {file : String} {source : Bytes} {index : Nat} (h : record.Holds p path)
    (hp : Program.ofSource file source index = .ok p) (hr : p.block.Resolved r .globals) :
    ∀ x ∈ record.members.keys, p.OwnsName path x := by
  intro x hx
  obtain ⟨v, hname, hv⟩ := h.declared x hx
  exact ⟨v, hname, hv.sole hp, fun symbol hsymbol hx =>
    hsymbol.eq_of_name hr hv (hx.trans hname.symm)⟩

namespace Execution

/-- At every moment of every run of a program that was read and resolved, each record that was made
belongs to a routine of the program, holds values of variables and parameters of this routine only,
one for each name, and has all parameters of a procedure. So a run never reports that a parameter
has no value, and the bindings that it gives are named like variables of the program. -/
theorem records_hold_what_their_routines_declare {file : String} {source : Bytes} {index : Nat}
    {p : Program} {r : Resolution} (hp : Program.ofSource file source index = .ok p)
    (hr : p.resolve.1 = .ok r) (settings : Settings) :
    (∀ moment, Leads settings r (.start settings p) moment →
      ∃ routines : List (List Procedure), routines.length = moment.stack.nextId ∧
        moment.tasks.map Task.record = moment.stack.live ∧
        (∀ t ∈ moment.tasks, ∃ path, routines[t.record]? = some path ∧ path.head? = t.routine) ∧
        ∀ id record, moment.stack.get? id = some record → ∃ path, routines[id]? = some path ∧
          record.Holds p path ∧ ∀ x ∈ record.members.keys, p.OwnsName path x) ∧
    (∀ record ∈ (p.run r settings).returned, ∃ path, record.Holds p path ∧
      ∀ x ∈ record.members.keys, p.OwnsName path x) ∧
    (∀ d, (p.run r settings).result = .error (.diagnostic d) → d.code = .unboundVariable →
      ∃ t v, d = .atToken t (.unbound v.name) ∧ r.references.find? t.index = some v ∧
        ∀ path q, p.Declares path (.procedure q) → v ∉ q.params) ∧
    ∀ b, (p.run r settings).result = .ok b → b.keys.Nodup ∧
      ∀ x ∈ b.keys, ∃ name type, .variable name type ∈ p.block.decls ∧ name.name = x := by
  have hresolved := Program.resolved hr (Program.nodup_uses hp)
  obtain ⟨hreturned, hresult⟩ := run_holds hp hresolved settings
  refine ⟨fun moment h => ?_, fun record hrecord => ?_, fun d hrun => run_unbound hp hresolved hrun,
    fun b hb => ?_⟩
  · obtain ⟨routines, hframed⟩ := Leads.framed h hp hresolved
    refine ⟨routines, hframed.made, (Leads.sound h (Moment.sound_start settings p)).records,
      hframed.live, fun id record hget => ?_⟩
    have hlt : id < routines.length := hframed.made ▸ CallStack.lt_nextId_of_get? hget
    have hholds := hframed.holds id record _ hget (List.getElem?_eq_getElem hlt)
    exact ⟨_, List.getElem?_eq_getElem hlt, hholds, hholds.ownsName hp hresolved⟩
  · obtain ⟨path, hholds⟩ := hreturned record hrecord
    exact ⟨path, hholds, hholds.ownsName hp hresolved⟩
  · obtain ⟨record, hholds, rfl⟩ := hresult b hb
    refine ⟨hholds.nodup, fun x hx => ?_⟩
    obtain ⟨v, rfl, hv⟩ := hholds.declared x hx
    cases hv with
    | ofVariable routine declared =>
      rw [routine.block_eq] at declared
      exact ⟨_, _, declared, rfl⟩

/-- A procedure writes a variable of the routine around it, which hides one of the program. -/
theorem records_hold_what_their_routines_declare_hidden :
    let source := ("program p; var a, b : integer; procedure f(n : integer); var a : integer; " ++
      "procedure g(b : integer); begin a := n + b end; begin g(2) end; " ++
      "begin b := 1; f(b) end.").toList.map fun c => c.toNat.toUInt8
    ∃ p r, Program.ofSource "p.pas" source = .ok p ∧ p.resolve.1 = .ok r ∧
      (p.run r).returned.map (fun record => (record.name, record.members.keys)) =
        [("g", ["b"]), ("f", ["n", "a"]), ("p", ["b"])] ∧
      ∀ record ∈ (p.run r).returned, ∃ path, record.Holds p path ∧
        ∀ x ∈ record.members.keys, p.OwnsName path x := by
  intro source
  obtain ⟨p, r, hp, hr, hrun⟩ : ∃ p r, Program.ofSource "p.pas" source = .ok p ∧
      p.resolve.1 = .ok r ∧
      ((p.run r).returned.map (fun record => (record.name, record.members.keys)) ==
        [("g", ["b"]), ("f", ["n", "a"]), ("p", ["b"])]) = true :=
    Program.exists_resolved (by decide +kernel)
  exact ⟨p, r, hp, hr, beq_iff_eq.mp hrun,
    (records_hold_what_their_routines_declare hp hr {}).2.1⟩

end Execution

end MiniPascal
