import MiniPascal.Proofs.Execution.Frame
import MiniPascal.Proofs.Semantics.Elaboration

/-!
# Runs follow the reference semantics

Where records represent an environment and a store, each expression has the value and each statement
the effect that the rules give. This is shown for expressions over their structure, and for
statements over the room that is left for records: a call runs its body with less room. So the
result of a program is the outcome that the rules give to it.
-/
namespace MiniPascal.Semantics

open Execution

section

variable {α β : Type} {answer : Except RunError α}

inductive Answers (answer : Except RunError α) (R : Except Diagnostic α → Prop) : Prop
  | value {a : α} (given : answer = .ok a) (allowed : R (.ok a))
  | failure {d : Diagnostic} (given : answer = .error (.diagnostic d)) (allowed : R (.error d))

variable {R : Except Diagnostic α → Prop} {R' : Except Diagnostic β → Prop}

theorem Answers.bind {f : α → Except RunError β} (h : Answers answer R)
    (hf : ∀ a, R (.ok a) → Answers (f a) R') (hd : ∀ d, R (.error d) → R' (.error d)) :
    Answers (answer >>= f) R' := by
  cases h with
  | value given allowed =>
    rw [given]
    exact hf _ allowed
  | failure given allowed =>
    rw [given]
    exact .failure rfl (hd _ allowed)

theorem Answers.mono {Q : Except Diagnostic α → Prop} (h : Answers answer R)
    (hR : ∀ o, R o → Q o) : Answers answer Q := by
  cases h with
  | value given allowed => exact .value given (hR _ allowed)
  | failure given allowed => exact .failure given (hR _ allowed)

end

theorem operation_answers (op : Token) {answer : Except Value.OperationError Value}
    (h : ∀ k, answer ≠ .error (.unknownOperator k)) :
    Answers (answer.mapError (RunError.ofOperation op)) (Applies op answer) := by
  match answer with
  | .ok v => exact .value rfl .value
  | .error (.cause c) => exact .failure rfl .cause
  | .error (.unknownOperator k) => exact absurd rfl (h k)

theorem unary_ne_unknown (op : Kind) (v : Value) (k : Kind) :
    Value.unary op v ≠ .error (.unknownOperator k) := by
  intro h
  unfold Value.unary Value.negate at h
  split at h
  · split at h
    · cases h
    · split at h
      · cases h
      · cases h
  · cases h

theorem checked_ne_unknown {a b : Int64} {op k : Kind} {n : Option Int64} :
    Value.checked a op b n ≠ .error (.unknownOperator k) := by
  intro h
  unfold Value.checked at h
  split at h
  · cases h
  · cases h

theorem binary_ne_unknown {op : Kind} (hop : op.isSign = true ∨ op.isProductOp = true)
    (a b : Value) (k : Kind) : Value.binary op a b ≠ .error (.unknownOperator k) := by
  intro h
  unfold Value.binary at h
  split at h
  case h_10 hplus hminus hstar hdiv hslash _ _ _ _ =>
    simp only [Kind.isSign, Kind.isProductOp, Bool.or_eq_true, beq_iff_eq] at hop
    rcases hop with (hop | hop) | (hop | hop) | hop
    · exact hplus hop
    · exact hminus hop
    · exact hstar hop
    · exact hdiv hop
    · exact hslash hop
  case h_1 | h_3 | h_5 => exact checked_ne_unknown h
  case h_7 =>
    split at h
    · cases h
    · exact checked_ne_unknown h
  case h_9 =>
    split at h
    · cases h
    · cases h
  all_goals cases h

section

variable {r : Resolution} {own : Owners} {s : CallStack} {S : Scopes} {id : Nat}
  {env : Environment} {σ : Store}

/-- A reference is looked for in the record that represents the location of its variable. -/
theorem Mirrors.owner_eq (h : Mirrors r own s S id env σ) {t : Token}
    (ht : (Node.expr (.variable t)).Resolved r S) :
    ∃ u j record l, owner r s t = .ok (j, u) ∧ u.name = t.name ∧ s.get? j = some record ∧
      env.lookup t.name = some l ∧ own[l]? = some (j, .variable u) ∧
      σ[l]? = some (memberCell record t.name) := by
  obtain ⟨u, hlookup, hfind⟩ := ht
  obtain ⟨j, record, l, cell, hvisible, hrecord, hl, ho, hcell, hrep⟩ :=
    h.cell_of_lookup hlookup fun _ _ hbuiltin => by cases hbuiltin
  have hname : u.name = t.name := Scopes.name_of_lookup hlookup
  have hvisible' : s.visible u.level = some j := hvisible
  have hvalue : cell = memberCell record u.name := hrep
  refine ⟨u, j, record, l, ?_, hname, hrecord, hl, ho, ?_⟩
  · simp only [owner, hfind, hvisible']
  · rw [hcell, hvalue, hname]

theorem read_answers (h : Mirrors r own s S id env σ) {t : Token}
    (ht : (Node.expr (.variable t)).Resolved r S) :
    Answers (Execution.read r s t) (Evaluates env σ (.variable t)) := by
  obtain ⟨u, j, record, l, howner, hname, hrecord, hl, _, hcell⟩ := h.owner_eq ht
  have hmember : ((s.get? j).bind fun record => record.members.get? u.name) =
      record.members.get? t.name := by
    rw [hrecord, Option.bind_some, hname]
  rw [memberCell] at hcell
  cases hx : record.members.get? t.name with
  | some v =>
    rw [hx] at hcell hmember
    have hread : Execution.read r s t = .ok v := by
      simp only [Execution.read, howner, bind, Except.bind, hmember]
      rfl
    exact .value hread (.written hl hcell)
  | none =>
    rw [hx] at hcell hmember
    have hread : Execution.read r s t = .error (.diagnostic (.atToken t (.unbound t.name))) := by
      rw [← hname]
      simp only [Execution.read, howner, bind, Except.bind, hmember]
      rfl
    exact .failure hread (.unwritten hl hcell)

theorem evaluate_answers (h : Mirrors r own s S id env σ) : ∀ e : Expr,
    (∀ node ∈ e.nodes, node.Resolved r S ∧ node.Known) →
      Answers (evaluate r s e) (Evaluates env σ e)
  | .number t v, _ => .value rfl .number
  | .variable t, he => read_answers h (he _ List.mem_cons_self).1
  | .unary op e, he => by
    rw [Expr.nodes, List.forall_mem_cons] at he
    rw [evaluate]
    refine (evaluate_answers h e he.2).bind (fun v hv => ?_) fun d hd => .unaryFails hd
    refine (operation_answers op (unary_ne_unknown op.kind v)).mono fun o ho => ?_
    exact .unary hv ho
  | .binary left op right, he => by
    rw [Expr.nodes, List.forall_mem_cons, List.forall_mem_append] at he
    rw [evaluate]
    refine (evaluate_answers h left he.2.1).bind (fun a ha => ?_) fun d hd => .leftFails hd
    refine (evaluate_answers h right he.2.2).bind (fun b hb => ?_) fun d hd => .rightFails ha hd
    refine (operation_answers op (binary_ne_unknown he.1.2 a b)).mono fun o ho => ?_
    exact .binary ha hb ho

theorem evaluateAll_answers (h : Mirrors r own s S id env σ) {es : List Expr}
    (hes : ∀ node ∈ es.flatMap Expr.nodes, node.Resolved r S ∧ node.Known) :
    Answers (evaluateAll r s es) (EvaluatesAll env σ es) := by
  induction es with
  | nil => exact .value rfl .nil
  | cons e rest ih =>
    rw [List.flatMap_cons, List.forall_mem_append] at hes
    rw [evaluateAll]
    refine (evaluate_answers h e hes.1).bind (fun v hv => ?_) fun d hd => .firstFails hd
    exact (ih hes.2).bind (fun vs hvs => .value rfl (.cons hv hvs)) fun d hd => .othersFail hv hd

theorem prepare_eq {name : Token} {args : List Expr} {q : Procedure}
    (hfind : r.calls.find? name.index = some q) (hlen : args.length = q.params.length) :
    prepare r s name args = (evaluateAll r s args).map fun values => (q, values) := by
  simp only [prepare, hfind, if_pos hlen]
  cases evaluateAll r s args with
  | error e => rfl
  | ok values => rfl

/-- A call names a procedure that is represented as a closure, and its arguments are evaluated as
the rules say. -/
theorem prepare_answers (h : Mirrors r own s S id env σ) {name : Token} {args : List Expr}
    (hn : ∀ node ∈ (Stmt.call name args).nodes, node.Resolved r S ∧ node.Known) :
    ∃ (q : Procedure) (j : Nat) (record : Record) (params : List Param) (block : Block)
      (outer : Environment), q.name = name.name ∧ q.block = block ∧
      s.visible q.level = some j ∧ Callee env σ name args params block outer ∧
      Represents r own s j record (.procedure q) (.closure params block outer) ∧
      ((∃ values, prepare r s name args = .ok (q, values) ∧ EvaluatesAll env σ args (.ok values)) ∨
        ∃ d, prepare r s name args = .error (.diagnostic d) ∧
          EvaluatesAll env σ args (.error d)) := by
  rw [Stmt.nodes, List.forall_mem_cons] at hn
  obtain ⟨q, hlookup, hlen, hfind⟩ := hn.1.1
  obtain ⟨j, record, l, cell, hvisible, _, hl, _, hcell, hrep⟩ :=
    h.cell_of_lookup hlookup fun _ _ hbuiltin => by cases hbuiltin
  have hclosure := hrep
  obtain ⟨S', declared, params, block, outer, rfl, rfl, _⟩ := hrep
  refine ⟨_, j, record, params, block, outer, Scopes.name_of_lookup hlookup, rfl, hvisible,
    ⟨l, hl, hcell, hlen.trans (List.length_map _)⟩, hclosure, ?_⟩
  rw [prepare_eq hfind hlen]
  cases evaluateAll_answers h hn.2 with
  | @value values given allowed =>
    rw [given]
    exact .inl ⟨values, rfl, allowed⟩
  | @failure d given allowed =>
    rw [given]
    exact .inr ⟨d, rfl, allowed⟩

end

/-- A computation, begun where records have the locations `own`, ends as the rules allow. -/
inductive Follows (r : Resolution) (own : Owners) (m : Machine) (x : Execution Unit)
    (R : Except Diagnostic Store → Prop) : Prop
  | done {m' : Machine} {own' : Owners} {σ' : Store} (given : x m = (.ok (), m'))
      (grows : Grows m.stack own own') (store : Simulates r own' m'.stack σ') (allowed : R (.ok σ'))
  | failure {m' : Machine} {d : Diagnostic} (given : x m = (.error (.diagnostic d), m'))
      (allowed : R (.error d))

section

variable {r : Resolution} {own : Owners} {m : Machine} {S : Scopes} {id : Nat} {env : Environment}
  {σ : Store} {x : Execution Unit} {R R' : Except Diagnostic Store → Prop} {limit : Int}
  {live : Nat}

theorem Follows.mono (h : Follows r own m x R) (hR : ∀ o, R o → R' o) : Follows r own m x R' := by
  cases h with
  | done given grows store allowed => exact .done given grows store (hR _ allowed)
  | failure given allowed => exact .failure given (hR _ allowed)

theorem Follows.congr {y : Execution Unit} (h : Follows r own m x R) (hxy : y m = x m) :
    Follows r own m y R := by
  cases h with
  | done given grows store allowed => exact .done (hxy.trans given) grows store allowed
  | failure given allowed => exact .failure (hxy.trans given) allowed

/-- The statement is done first, and those behind it begin where it ends. -/
theorem Follows.cons {call : Token → List Expr → Execution Unit} {s : Stmt} {rest : List Stmt}
    (h : Mirrors r own m.stack S id env σ) (hframes : Frames (statement r call s))
    (hs : Follows r own m (statement r call s) (Executes limit live env σ [s]))
    (hrest : ∀ m' own' σ', Mirrors r own' m'.stack S id env σ' →
      Follows r own' m' (statements r call rest) (Executes limit live env σ' rest)) :
    Follows r own m (statements r call (s :: rest)) (Executes limit live env σ (s :: rest)) := by
  cases hs with
  | failure given allowed =>
    exact .failure (Stateful.bind_of_error given) (allowed.cons_of_error rest)
  | @done m' own' σ' given grows store allowed =>
    obtain ⟨hlive, hext⟩ := hframes given
    have hbind : statements r call (s :: rest) m = statements r call rest m' :=
      Stateful.bind_of_ok given
    cases hrest m' own' σ' (h.next grows hext hlive store) with
    | done given' grows' store' allowed' =>
      exact .done (hbind.trans given') (grows.trans grows' hext.nextId_le) store'
        (allowed.cons_of_ok allowed')
    | failure given' allowed' => exact .failure (hbind.trans given') (allowed.cons_of_ok allowed')

theorem assign_follows (h : Mirrors r own m.stack S id env σ) {target op : Token} {value : Expr}
    (hn : ∀ node ∈ (Stmt.assign target op value).nodes, node.Resolved r S ∧ node.Known)
    (call : Token → List Expr → Execution Unit) :
    Follows r own m (statement r call (.assign target op value))
      (Executes limit live env σ [.assign target op value]) := by
  rw [Stmt.nodes, List.forall_mem_cons, List.forall_mem_cons] at hn
  obtain ⟨_, htarget, hvalue⟩ := hn
  obtain ⟨u, j, record, l, howner, hname, _, hl, ho, _⟩ := h.owner_eq htarget.1
  cases evaluate_answers h value hvalue with
  | @failure d given allowed =>
    have hstatement : statement r call (.assign target op value) m =
        (.error (.diagnostic d), m) := by
      rw [statement, ask_bind, given]
    exact .failure hstatement (.assignFails allowed)
  | @value v given allowed =>
    have hstatement : statement r call (.assign target op value) m =
        (.ok (), { m with stack := m.stack.set j u.name v }) := by
      rw [statement, ask_bind, given]
      change assign r target v m = _
      rw [assign, ask_bind, howner]
      rfl
    exact .done hstatement (Grows.refl m.stack own) (h.store.set ho v) (.assign allowed hl .nil)

/-- Statements follow the rules if calls do. -/
theorem statements_follow {call : Token → List Expr → Execution Unit}
    (hframes : ∀ name args, Frames (call name args))
    (hcall : ∀ name args m own σ, Mirrors r own m.stack S id env σ →
      (∀ node ∈ (Stmt.call name args).nodes, node.Resolved r S ∧ node.Known) →
      Follows r own m (call name args) (Executes limit live env σ [.call name args]))
    {ss : List Stmt} (h : Mirrors r own m.stack S id env σ)
    (hn : ∀ node ∈ Stmt.nodesAll ss, node.Resolved r S ∧ node.Known) :
    Follows r own m (statements r call ss) (Executes limit live env σ ss) := by
  induction ss using Stmt.sequence_induction generalizing m own σ with
  | nil => exact .done rfl (Grows.refl m.stack own) h.store .nil
  | compound start children rest ihc ihr =>
    rw [Stmt.nodesAll, List.forall_mem_append, Stmt.nodes, List.forall_mem_cons] at hn
    refine Follows.cons h (frames_statement hframes _) ?_ fun m' own' σ' h' => ihr h' hn.2
    refine (ihc h hn.1.2).mono fun o ho => ?_
    cases o with
    | ok σ' => exact .compound ho .nil
    | error d => exact .compoundFails ho
  | assign target op value rest ih =>
    rw [Stmt.nodesAll, List.forall_mem_append] at hn
    refine Follows.cons h (frames_statement hframes _) ?_ fun m' own' σ' h' => ih h' hn.2
    exact assign_follows h hn.1 call
  | call name args rest ih =>
    rw [Stmt.nodesAll, List.forall_mem_append] at hn
    refine Follows.cons h (frames_statement hframes _) ?_ fun m' own' σ' h' => ih h' hn.2
    exact hcall name args m own σ h hn.1
  | empty rest ih =>
    rw [Stmt.nodesAll, List.forall_mem_append] at hn
    refine Follows.cons h (frames_statement hframes _) ?_ fun m' own' σ' h' => ih h' hn.2
    exact .done rfl (Grows.refl m.stack own) h.store (.empty .nil)

/-- The body of a closure runs in a new record, and calls in it have less room. -/
theorem within_follows (settings : Settings) {call : Token → List Expr → Execution Unit}
    (hframes : ∀ name args, Frames (call name args))
    (hcall : ∀ S id env name args m own σ, Mirrors r own m.stack S id env σ →
      (∀ node ∈ (Stmt.call name args).nodes, node.Resolved r S ∧ node.Known) →
      Follows r own m (call name args) (Executes limit live env σ [.call name args]))
    (h : Simulates r own m.stack σ) {q : Procedure} {j : Nat} {record : Record}
    {params : List Param} {block : Block} {outer : Environment} {values : List Value}
    (hq : Represents r own m.stack j record (.procedure q) (.closure params block outer))
    (hlink : m.stack.visible q.level = some j) (hlen : values.length = params.length) :
    Follows r own m
      (within settings (callRecord m.stack q values) (statements r call block.body))
      (Executes limit live (invoke params values block outer σ).1
        (invoke params values block outer σ).2 block.body) := by
  obtain ⟨symbols, S', hmirrors, hnodes⟩ := Mirrors.invoke h hq hlink hlen
  have hgrows : Grows m.stack own (own ++ symbols.map fun symbol => (m.stack.nextId, symbol)) := by
    refine ⟨List.prefix_append _ _, fun owner howner => ?_⟩
    exact (mem_append_owners.mp howner).imp_right fun hnew => Nat.le_of_eq hnew.1.symm
  have hstack : (entered settings (callRecord m.stack q values) m).stack =
      m.stack.enter (callRecord m.stack q values) := stack_entered _
  have hle : m.stack.nextId ≤ (entered settings (callRecord m.stack q values) m).stack.nextId := by
    rw [hstack]
    exact (CallStack.extends_enter _ _).nextId_le
  rw [← hstack] at hmirrors
  -- what the body leaves is kept when its record is popped
  cases statements_follow hframes (hcall S' _ _) hmirrors hnodes with
  | done given grows store allowed =>
    obtain ⟨m'', hwithin, hpop⟩ := within_of_ok given
    refine .done hwithin (hgrows.trans grows hle) ?_ allowed
    rw [hpop]
    exact store.pop
  | failure given allowed =>
    obtain ⟨m'', hwithin, _⟩ := within_of_error given
    exact .failure hwithin allowed

/-- Calls follow the rules, by induction on the room that is left. -/
theorem call_follows (settings : Settings) {room : Nat}
    (hroom : room = (settings.maxDepth - live).toNat) {name : Token} {args : List Expr}
    (h : Mirrors r own m.stack S id env σ)
    (hn : ∀ node ∈ (Stmt.call name args).nodes, node.Resolved r S ∧ node.Known) :
    Follows r own m (call settings r room name args)
      (Executes settings.maxDepth live env σ [.call name args]) := by
  induction room generalizing live m own S id env σ name args with
  | zero =>
    -- the arguments are evaluated first, so that their errors come before the lack of room
    obtain ⟨q, _, _, _, _, _, hname, _, _, hcallee, _, hanswer⟩ := prepare_answers h hn
    rcases hanswer with ⟨values, hprepare, hvalues⟩ | ⟨d, hprepare, hd⟩
    · have hcall : call settings r 0 name args m = (.error (.diagnostic
          (.atToken name (.depthExceeded name.name settings.maxDepth))), m) := by
        rw [call, ask_bind, hprepare, ← hname]
        rfl
      exact .failure hcall (.tooDeep hcallee hvalues (by omega))
    · exact .failure (call_of_error hprepare 0) (.argumentFails hcallee hd)
  | succ room ih =>
    obtain ⟨q, _, _, params, block, outer, _, hblock, hlink, hcallee, hq, hanswer⟩ :=
      prepare_answers h hn
    rcases hanswer with ⟨values, hprepare, hvalues⟩ | ⟨d, hprepare, hd⟩
    · have hcall : call settings r (room + 1) name args m =
          within settings (callRecord m.stack q values)
            (statements r (call settings r room) block.body) m := by
        rw [call, ask_bind, hprepare, ← hblock]
        exact ask_bind
      have hless : room = (settings.maxDepth - (live + 1 : Nat)).toNat := by omega
      have hbody := within_follows settings (frames_call settings r room)
        (fun _ _ _ _ _ _ _ _ => ih hless) h.store hq hlink
        (hvalues.length_eq.trans hcallee.length_eq)
      refine Follows.congr (hbody.mono fun o ho => ?_) hcall
      cases o with
      | ok σ' => exact .call hcallee hvalues (by omega) ho .nil
      | error d => exact .callFails hcallee hvalues (by omega) ho
    · exact .failure (call_of_error hprepare _) (.argumentFails hcallee hd)

end

/-- The result of a run is the outcome that the rules give. -/
theorem run_answers {p : Program} {r : Resolution} (hr : p.block.Resolved r .globals)
    (hk : ∀ node ∈ p.block.nodes, node.Known) (settings : Settings) :
    Answers ((p.run r settings).result.map Bindings.get?) (Runs settings.maxDepth p) := by
  let record : Record := { name := p.name.name }
  have hstack : (entered settings record {}).stack = CallStack.enter {} record := stack_entered _
  have hresult : (p.run r settings).result = (program settings r p {}).1 := rfl
  obtain ⟨symbols, hmirrors, hnodes⟩ := (Mirrors.start r p.name.name).block hr hk
  rw [← hstack] at hmirrors
  let limit := settings.maxDepth
  have hbody : Follows r _ (entered settings record {})
      (statements r (call settings r (limit - 1).toNat) p.block.body)
      (Executes limit 1 _ _ p.block.body) :=
    statements_follow (frames_call settings r _)
      (fun name args m own σ => call_follows settings rfl) hmirrors hnodes
  cases hbody with
  | failure given allowed =>
    obtain ⟨m'', hwithin, _⟩ := within_of_error (Stateful.bind_of_error given)
    refine .failure ?_ ⟨.error _, allowed, rfl⟩
    rw [hresult, program, hwithin]
    rfl
  | @done m' own' σ' given grows store allowed =>
    obtain ⟨hlive, hext⟩ := frames_statements (frames_call settings r _) _ given
    have hfinal := hmirrors.next grows hext hlive store
    obtain ⟨last, hlast, _⟩ := hfinal.environment.current
    have hmain : (do
        statements r (call settings r (limit - 1).toNat) p.block.body
        ask fun s => .ok (s.topRecord?.elim [] Record.members) : Execution Bindings)
          (entered settings record {}) = (.ok last.members, m') := by
      rw [Stateful.bind_of_ok given]
      change (Except.ok ((m'.stack.top?.bind m'.stack.get?).elim [] Record.members), m') = _
      rw [hfinal.top, Option.bind_some, hlast]
      rfl
    obtain ⟨m'', hwithin, _⟩ := within_of_ok hmain
    refine .value ?_ ⟨.ok σ', allowed, rfl⟩
    rw [hresult, program, hwithin]
    exact congrArg Except.ok (hfinal.bindings_eq hr.fresh hlast)

section

variable {file : String} {source : Bytes} {index : Nat} {p : Program} {r : Resolution}

theorem answers_of_source (hp : Program.ofSource file source index = .ok p)
    (hr : p.resolve.1 = .ok r) (settings : Settings) :
    Answers ((p.run r settings).result.map Bindings.get?) (Runs settings.maxDepth p) := by
  have hresolved := Program.resolved hr (Program.nodup_uses hp)
  refine run_answers hresolved (fun node hnode => ?_) settings
  exact Program.known_nodes hp node (List.mem_cons_of_mem _ hnode)

/-- A program that was read and resolved has an outcome by the rules, and running it gives this
outcome. -/
theorem exists_outcome (hp : Program.ofSource file source index = .ok p)
    (hr : p.resolve.1 = .ok r) (settings : Settings) :
    ∃ o, (p.run r settings).result.map Bindings.get? = o.mapError .diagnostic ∧
      Runs settings.maxDepth p o := by
  cases answers_of_source hp hr settings with
  | @value b given allowed => exact ⟨.ok b, given, allowed⟩
  | @failure d given allowed => exact ⟨.error d, given, allowed⟩

/-- An outcome says whether a run gives bindings or a diagnostic, and which. -/
theorem exists_of_outcome {result : Except RunError Bindings}
    {o : Except Diagnostic (String → Option Value)}
    (h : result.map Bindings.get? = o.mapError .diagnostic) :
    (∃ b, result = .ok b ∧ o = .ok b.get?) ∨
      ∃ d, result = .error (.diagnostic d) ∧ o = .error d := by
  cases result with
  | ok b =>
    cases o with
    | ok get => exact .inl ⟨b, rfl, congrArg Except.ok (Except.ok.inj h).symm⟩
    | error d => cases h
  | error e =>
    cases o with
    | ok get => cases h
    | error d => exact .inr ⟨d, congrArg Except.error (Except.error.inj h), rfl⟩

/-- Running a program that was read and resolved gives the bindings or the diagnostic that the
reference semantics gives, and these rules give no other outcome. -/
theorem run_gives_the_lexical_outcome (hp : Program.ofSource file source index = .ok p)
    (hr : p.resolve.1 = .ok r) (settings : Settings) :
    ∃ o, (p.run r settings).result.map Bindings.get? = o.mapError .diagnostic ∧
      ∀ o', Runs settings.maxDepth p o' ↔ o' = o := by
  have hunique {o : Except Diagnostic (String → Option Value)}
      (h : Runs settings.maxDepth p o) : ∀ o', Runs settings.maxDepth p o' ↔ o' = o := by
    intro o'
    constructor
    · intro h'
      exact h'.deterministic h
    · rintro rfl
      exact h
  cases answers_of_source hp hr settings with
  | @value b given allowed => exact ⟨.ok b, given, hunique allowed⟩
  | @failure d given allowed => exact ⟨.error d, given, hunique allowed⟩

/-- The procedure `show` is declared before `x` is hidden, and called where `x` is hidden. -/
theorem run_gives_the_lexical_outcome_hidden :
    let source := ("program p; var x, y : integer; procedure f; procedure show; " ++
      "begin y := x end; var x : integer; begin x := 2; show() end; " ++
      "begin x := 1; f() end.").toList.map fun c => c.toNat.toUInt8
    ∃ p r b, Program.ofSource "p.pas" source = .ok p ∧ p.resolve.1 = .ok r ∧
      (p.run r {}).result = .ok b ∧ Runs 1000 p (.ok b.get?) ∧ b.get? "y" = some (.int 1) := by
  intro source
  obtain ⟨p, r, hp, hr, hy⟩ : ∃ p r, Program.ofSource "p.pas" source = .ok p ∧
      p.resolve.1 = .ok r ∧
      (p.run r {}).result.toOption.any (fun b => b.get? "y" = some (.int 1)) = true :=
    Program.exists_resolved (by decide +kernel)
  obtain ⟨o, ho, hruns⟩ := run_gives_the_lexical_outcome hp hr {}
  cases hresult : (p.run r {}).result with
  | error e =>
    rw [hresult] at hy
    cases hy
  | ok b =>
    rw [hresult] at hy ho
    cases o with
    | error d => cases ho
    | ok f =>
      cases ho
      exact ⟨p, r, b, hp, hr, hresult, (hruns _).mpr rfl, of_decide_eq_true hy⟩

/-- A program that was read and resolved succeeds or fails with one of five codes, whether it is run
with its resolution or resolved once more. -/
theorem resolution_is_sound (hp : Program.ofSource file source index = .ok p)
    (hr : p.resolve.1 = .ok r) (settings : Settings) :
    ∀ outcome ∈ [p.run r settings, p.resolveAndRun settings],
      (∃ b, outcome.result = .ok b) ∨
        ∃ d, outcome.result = .error (.diagnostic d) ∧ d.code ∈ failureCodes := by
  have hrun : p.resolveAndRun settings = p.run r settings := by
    rw [Program.resolveAndRun, hr]
  intro outcome houtcome
  obtain rfl : outcome = p.run r settings := by
    rw [hrun] at houtcome
    simpa using houtcome
  have hanswer := answers_of_source hp hr settings
  cases hresult : (p.run r settings).result with
  | ok b => exact .inl ⟨b, rfl⟩
  | error e =>
    rw [hresult] at hanswer
    cases hanswer with
    | value given allowed => cases given
    | @failure d given allowed =>
      cases given
      exact .inr ⟨d, rfl, allowed.code⟩

/-- A program that divides by zero. -/
theorem resolution_is_sound_division :
    let source := "program p; var x : integer; begin x := 1 div 0 end.".toList.map fun c =>
      c.toNat.toUInt8
    ∃ p r, Program.ofSource "p.pas" source = .ok p ∧ p.resolve.1 = .ok r ∧
      ∃ d, (p.run r {}).result = .error (.diagnostic d) ∧ d.code ∈ failureCodes := by
  intro source
  obtain ⟨p, r, hp, hr, hfails⟩ : ∃ p r, Program.ofSource "p.pas" source = .ok p ∧
      p.resolve.1 = .ok r ∧ (p.run r {}).result.toOption.isNone = true :=
    Program.exists_resolved (by decide +kernel)
  refine ⟨p, r, hp, hr, ?_⟩
  rcases resolution_is_sound hp hr {} _ List.mem_cons_self with ⟨b, hb⟩ | hd
  · rw [hb] at hfails
    cases hfails
  · exact hd

end

end MiniPascal.Semantics
