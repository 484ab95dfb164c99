import MiniPascal.Proofs.Execution.Frame
import MiniPascal.Proofs.Nesting

/-!
# Static chains follow the nesting of routines

`Reaches` follows a run from statement to statement and notes for each live record which routine it
is an activation of. At every moment the static links of a live record lead through live
activations of exactly the routines around its own, one for each level, and end with the record of
the program. So a variable is found in an activation of the routine that declares it, and a new
record is linked to an activation of the routine that declares its procedure.
-/
namespace MiniPascal

/-- Live records, each with the procedure that it is an activation of, if it is of one. -/
abbrev Activations := List (Nat × Option Procedure)

namespace CallStack

variable {s s' : CallStack} {acts acts' : Activations} {path path' : List Procedure} {id : Nat}

/-- The static links from a record lead through one live activation of each routine of a path,
with levels that count down to the program at level one, whose record has no link. -/
inductive LexicalChain (s : CallStack) (acts : Activations) : List Procedure → Nat → Prop
  | program {id : Nat} {record : Record} (found : s.get? id = some record)
      (kind : record.kind = .program) (level : record.level = 1) (unlinked : record.link = none)
      (live : (id, none) ∈ acts) : LexicalChain s acts [] id
  | procedure {id outer : Nat} {record : Record} {q : Procedure} {path : List Procedure}
      (found : s.get? id = some record) (kind : record.kind = .procedure)
      (level : record.level = path.length + 2) (linked : record.link = some outer)
      (earlier : outer < id) (live : (id, some q) ∈ acts) (rest : LexicalChain s acts path outer) :
      LexicalChain s acts (q :: path) id

/-- A chain only needs the activations of the routines on its path. -/
theorem LexicalChain.transfer (h : s.LexicalChain acts path id) (hs : s.Extends s')
    (ha : ∀ path' j, path' <:+ path → (j, path'.head?) ∈ acts → (j, path'.head?) ∈ acts') :
    s'.LexicalChain acts' path id := by
  induction h with
  | program found kind level unlinked live =>
    obtain ⟨members, hm⟩ := hs _ _ found
    exact .program hm kind level unlinked (ha [] _ (List.suffix_refl _) live)
  | procedure found kind level linked earlier live _ ih =>
    obtain ⟨members, hm⟩ := hs _ _ found
    refine .procedure hm kind level linked earlier (ha _ _ (List.suffix_refl _) live) (ih ?_)
    exact fun path' j hp => ha path' j (hp.trans (List.suffix_cons _ _))

theorem LexicalChain.mono (h : s.LexicalChain acts path id) (hs : s.Extends s')
    (ha : acts ⊆ acts') : s'.LexicalChain acts' path id :=
  h.transfer hs fun _ _ _ hmem => ha hmem

theorem LexicalChain.exists_record (h : s.LexicalChain acts path id) :
    ∃ record, s.get? id = some record ∧ record.level = path.length + 1 := by
  cases h with
  | program found _ level _ _ => exact ⟨_, found, level⟩
  | procedure found _ level _ _ _ _ =>
    refine ⟨_, found, ?_⟩
    rw [level, List.length_cons]
    omega

/-- The record at the level of a routine on the path is an activation of that routine. -/
theorem LexicalChain.enclosing (h : s.LexicalChain acts path id) (hp : path' <:+ path) :
    ∃ j, s.enclosing id (path'.length + 1) = some j ∧ s.LexicalChain acts path' j := by
  induction h with
  | @program id record found kind level unlinked live =>
    obtain rfl : path' = [] := List.suffix_nil.mp hp
    exact ⟨id, enclosing_self found level, .program found kind level unlinked live⟩
  | @procedure id outer record q path found kind level linked earlier live rest ih =>
    -- either the path is the whole one, or a shorter one whose level is lower
    rcases List.suffix_cons_iff.mp hp with rfl | hp
    · refine ⟨id, enclosing_self found ?_, .procedure found kind level linked earlier live rest⟩
      rw [level, List.length_cons]
      omega
    · obtain ⟨j, hj, hchain⟩ := ih hp
      have hle := hp.length_le
      have hlevel : record.level ≠ path'.length + 1 := by
        rw [level]
        omega
      refine ⟨j, ?_, hchain⟩
      rw [enclosing_link found hlevel linked earlier]
      exact hj

end CallStack

namespace Execution

/-- A run arrives at statements. `acts` are the live records, and `room` is the number of further
records that there is room for. -/
inductive Reaches (settings : Settings) (r : Resolution) (p : Program) :
    Activations → Nat → Machine → List Stmt → Prop
  | start : Reaches settings r p [(0, none)] (settings.maxDepth - 1).toNat
      (entered settings { name := p.name.name } {}) p.block.body
  | inside {acts : Activations} {room : Nat} {m : Machine} {start : Token}
      {children rest : List Stmt}
      (arrived : Reaches settings r p acts room m (.compound start children :: rest)) :
      Reaches settings r p acts room m children
  | next {acts : Activations} {room : Nat} {m m' : Machine} {s : Stmt} {rest : List Stmt}
      (arrived : Reaches settings r p acts room m (s :: rest))
      (done : statement r (call settings r room) s m = (.ok (), m')) :
      Reaches settings r p acts room m' rest
  | enter {acts : Activations} {room : Nat} {m : Machine} {name : Token} {args : List Expr}
      {rest : List Stmt} {q : Procedure} {values : List Value}
      (arrived : Reaches settings r p acts (room + 1) m (.call name args :: rest))
      (prepared : prepare r m.stack name args = .ok (q, values)) :
      Reaches settings r p ((m.stack.nextId, some q) :: acts) room
        (entered settings (callRecord m.stack q values) m) q.block.body

/-- A state of a run: before it, at some statements, where a statement has failed, or after it. -/
inductive Reached (settings : Settings) (r : Resolution) (p : Program) :
    Activations → Machine → Prop
  | before : Reached settings r p [] {}
  | running {acts : Activations} {room : Nat} {m : Machine} {ss : List Stmt}
      (arrived : Reaches settings r p acts room m ss) : Reached settings r p acts m
  | failed {acts : Activations} {room : Nat} {m m' : Machine} {s : Stmt} {rest : List Stmt}
      {e : RunError} (arrived : Reaches settings r p acts room m (s :: rest))
      (failure : statement r (call settings r room) s m = (.error e, m')) :
      Reached settings r p acts m'
  | after {answer : Except RunError Bindings} {m : Machine}
      (done : program settings r p {} = (answer, m)) : Reached settings r p [] m

variable {settings : Settings} {r : Resolution} {p : Program} {acts : Activations} {room : Nat}
  {m m' : Machine} {ss rest : List Stmt} {s : Stmt}

structure Chained (p : Program) (acts : Activations) (s : CallStack) : Prop where
  live : acts.map Prod.fst = s.live
  chains : ∀ id routine, (id, routine) ∈ acts → ∃ path block,
    p.Nests path block ∧ path.head? = routine ∧ s.LexicalChain acts path id

/-- Some statements begin with a call for which a record can be made, and what is called passes a
test. -/
def entersCall (r : Resolution) (s : CallStack) (test : Procedure → List Value → Bool) :
    List Stmt → Bool
  | .call name args :: _ =>
    (prepare r s name args).toOption.any fun (q, values) => test q values
  | _ => false

theorem Reaches.exists_enter {test : Procedure → List Value → Bool}
    (h : Reaches settings r p acts (room + 1) m ss) (htest : entersCall r m.stack test ss = true) :
    ∃ q values, test q values = true ∧
      Reaches settings r p ((m.stack.nextId, some q) :: acts) room
        (entered settings (callRecord m.stack q values) m) q.block.body := by
  unfold entersCall at htest
  split at htest
  · obtain ⟨⟨q, values⟩, hprepare, htest⟩ := (Option.any_eq_true _ _).mp htest
    exact ⟨q, values, htest, h.enter (eq_ok_of_toOption hprepare)⟩
  · cases htest

/-- The statements ahead are resolved in scopes that follow the path of the innermost record. -/
def Arrived (r : Resolution) (p : Program) (acts : Activations) (s : CallStack)
    (ss : List Stmt) : Prop :=
  ∃ path id S, s.top? = some id ∧ s.LexicalChain acts path id ∧
    p.Describes path (Scopes.toList S) ∧ ∀ node ∈ Stmt.nodesAll ss, node.Resolved r S

theorem Chained.extends {s s' : CallStack} (h : Chained p acts s) (hs : s.Extends s')
    (hl : s'.live = s.live) : Chained p acts s' := by
  refine ⟨h.live.trans hl.symm, fun id routine hmem => ?_⟩
  obtain ⟨path, block, hn, hhead, hchain⟩ := h.chains id routine hmem
  exact ⟨path, block, hn, hhead, hchain.mono hs fun _ h => h⟩

theorem chained_nil {s : CallStack} (h : s.live = []) : Chained p [] s := by
  refine ⟨h.symm, fun id routine hmem => ?_⟩
  cases hmem

/-- Statements that were not run yet stay resolved. -/
theorem Arrived.extends {s s' : CallStack} (h : Arrived r p acts s ss) (hs : s.Extends s')
    (hl : s'.live = s.live) {ss' : List Stmt} (hss : Stmt.nodesAll ss' ⊆ Stmt.nodesAll ss) :
    Arrived r p acts s' ss' := by
  obtain ⟨path, id, S, htop, hchain, hS, hnodes⟩ := h
  refine ⟨path, id, S, ?_, hchain.mono hs fun _ h => h, hS, fun node hn => hnodes node (hss hn)⟩
  rw [CallStack.top?, hl]
  exact htop

/-- A name that is looked up along a path stands for a symbol of a routine on it, and that routine
has an activation on the chain. -/
theorem visible_of_lookup {s : CallStack} {path : List Procedure} {id : Nat} {S : Scopes}
    {x : String} {symbol : Symbol} (htop : s.top? = some id)
    (hchain : s.LexicalChain acts path id) (hS : p.Describes path S.toList)
    (hx : S.lookup x = some symbol)
    (hsymbol : ∀ name level, symbol ≠ .builtinType name level) :
    ∃ path' j, p.Declares path' symbol ∧ s.visible symbol.level = some j ∧
      s.LexicalChain acts path' j := by
  obtain ⟨path', hsuffix, hdeclares | ⟨name, level, hbuiltin⟩⟩ := hS.lookup hx
  · obtain ⟨j, hj, hchain'⟩ := hchain.enclosing hsuffix
    refine ⟨path', j, hdeclares, ?_, hchain'⟩
    rw [CallStack.visible, htop, hdeclares.level_eq]
    exact hj
  · exact absurd hbuiltin (hsymbol name level)

theorem prepare_eq_ok {s : CallStack} {name : Token} {args : List Expr} {q : Procedure}
    {values : List Value} (h : prepare r s name args = .ok (q, values)) :
    r.calls.find? name.index = some q ∧ args.length = q.params.length ∧
      evaluateAll r s args = .ok values := by
  unfold prepare at h
  split at h
  · cases h
  · next q' hfind =>
    split at h
    · next hlen =>
      cases hvalues : evaluateAll r s args with
      | error e =>
        rw [hvalues] at h
        cases h
      | ok vs =>
        rw [hvalues] at h
        cases h
        exact ⟨hfind, hlen, rfl⟩
    · cases h

/-- A call has a procedure, and the routine that declares it has an activation on the chain. -/
theorem callee_of_arrived {name : Token} {args : List Expr} {s : CallStack}
    (h : Arrived r p acts s (.call name args :: rest)) :
    ∃ q path j, r.calls.find? name.index = some q ∧ p.Declares path (.procedure q) ∧
      s.visible q.level = some j ∧ s.LexicalChain acts path j := by
  obtain ⟨path, id, S, htop, hchain, hS, hnodes⟩ := h
  obtain ⟨q, hlookup, _, hfind⟩ := hnodes (.stmt (.call name args)) List.mem_cons_self
  obtain ⟨path', j, hdeclares, hvisible, hchain'⟩ := visible_of_lookup htop hchain hS hlookup
    (fun _ _ h => by cases h)
  exact ⟨q, path', j, hfind, hdeclares, hvisible, hchain'⟩

/-- The new record of a call extends the chain of the routine that declares the procedure. -/
theorem chain_of_call {name : Token} {args : List Expr} {q : Procedure} {values : List Value}
    {s : CallStack} (h : Arrived r p acts s (.call name args :: rest))
    (hq : prepare r s name args = .ok (q, values)) :
    ∃ path j, p.Declares path (.procedure q) ∧ (callRecord s q values).link = some j ∧
      s.LexicalChain acts path j := by
  obtain ⟨q', path, j, hfind, hdeclares, hvisible, hchain⟩ := callee_of_arrived h
  obtain rfl : q = q' := Option.some.inj ((prepare_eq_ok hq).1.symm.trans hfind)
  exact ⟨path, j, hdeclares, hvisible, hchain⟩

theorem start_chained (hr : p.block.Resolved r .globals) :
    let m := entered settings { name := p.name.name } {}
    Chained p [(0, none)] m.stack ∧ Arrived r p [(0, none)] m.stack p.block.body := by
  intro m
  have hstack : m.stack = CallStack.enter {} { name := p.name.name } := stack_entered _
  rw [hstack]
  have hchain : (CallStack.enter {} { name := p.name.name }).LexicalChain [(0, none)] [] 0 :=
    .program (CallStack.get?_enter_self {} _) rfl rfl rfl List.mem_cons_self
  obtain ⟨S, hS, hnodes⟩ := Program.Nests.program.describes_body hr
  refine ⟨⟨rfl, fun id routine hmem => ?_⟩, ⟨[], 0, S, rfl, hchain, hS, hnodes⟩⟩
  cases List.mem_singleton.mp hmem
  exact ⟨[], p.block, .program, rfl, hchain⟩

/-- The new record of a call is at the body of its procedure, with the chain of the routine that
declares the procedure behind it. -/
theorem enter_arrived (hr : p.block.Resolved r .globals) {s : CallStack} {acts' : Activations}
    {path : List Procedure} {j : Nat} {q : Procedure} {values : List Value}
    (hdeclares : p.Declares path (.procedure q)) (hlink : (callRecord s q values).link = some j)
    (hchain : (s.enter (callRecord s q values)).LexicalChain acts' path j)
    (hlive : (s.nextId, some q) ∈ acts') :
    (s.enter (callRecord s q values)).LexicalChain acts' (q :: path) s.nextId ∧
      Arrived r p acts' (s.enter (callRecord s q values)) q.block.body := by
  have hlevel : q.level = path.length + 1 := hdeclares.level_eq
  have hnew : (s.enter (callRecord s q values)).LexicalChain acts' (q :: path) s.nextId := by
    refine .procedure (CallStack.get?_enter_self s _) rfl ?_ hlink (callRecord_link_lt hlink)
      hlive hchain
    change q.level + 1 = _
    omega
  obtain ⟨S, hS, hnodes⟩ := hdeclares.nests.describes_body hr
  exact ⟨hnew, q :: path, s.nextId, S, rfl, hnew, hS, hnodes⟩

theorem enter_chained (hr : p.block.Resolved r .globals) {name : Token} {args : List Expr}
    {q : Procedure} {values : List Value} (hc : Chained p acts m.stack)
    (ha : Arrived r p acts m.stack (.call name args :: rest))
    (hq : prepare r m.stack name args = .ok (q, values)) :
    let m' := entered settings (callRecord m.stack q values) m
    let acts' := (m.stack.nextId, some q) :: acts
    Chained p acts' m'.stack ∧ Arrived r p acts' m'.stack q.block.body := by
  intro m' acts'
  obtain ⟨path, j, hdeclares, hlink, hchain⟩ := chain_of_call ha hq
  have hstack : m'.stack = m.stack.enter (callRecord m.stack q values) := stack_entered _
  have hext := CallStack.extends_enter m.stack (callRecord m.stack q values)
  have hsub : acts ⊆ acts' := List.subset_cons_self _ _
  obtain ⟨hnew, harrived⟩ :=
    enter_arrived hr hdeclares hlink (hchain.mono hext hsub) List.mem_cons_self
  rw [hstack]
  refine ⟨⟨congrArg (List.cons _) hc.live, fun id routine hmem => ?_⟩, harrived⟩
  rcases List.mem_cons.mp hmem with heq | hmem
  · cases heq
    exact ⟨q :: path, q.block, hdeclares.nests, rfl, hnew⟩
  · obtain ⟨path, block, hn, hhead, hchain⟩ := hc.chains id routine hmem
    exact ⟨path, block, hn, hhead, hchain.mono hext hsub⟩

/-- Wherever a run arrives, the chains are as they should be. -/
theorem Reaches.chained (hr : p.block.Resolved r .globals)
    (h : Reaches settings r p acts room m ss) :
    Chained p acts m.stack ∧ Arrived r p acts m.stack ss := by
  induction h with
  | start => exact start_chained hr
  | @inside acts room m start children rest arrived ih =>
    refine ⟨ih.1, ih.2.extends (.refl _) rfl fun node hn => ?_⟩
    rw [Stmt.nodesAll, Stmt.nodes]
    exact List.mem_append_left _ (List.mem_cons_of_mem _ hn)
  | @next acts room m m' s rest arrived done ih =>
    obtain ⟨hlive, hext⟩ := frames_statement (frames_call settings r room) s done
    refine ⟨ih.1.extends hext hlive, ih.2.extends hext hlive fun node hn => ?_⟩
    rw [Stmt.nodesAll]
    exact List.mem_append_right _ hn
  | enter arrived prepared ih => exact enter_chained hr ih.1 ih.2 prepared

theorem Reached.chained (hr : p.block.Resolved r .globals) (h : Reached settings r p acts m) :
    Chained p acts m.stack := by
  cases h with
  | before => exact chained_nil rfl
  | running arrived => exact (arrived.chained hr).1
  | @failed _ room _ _ s _ _ arrived failure =>
    obtain ⟨hlive, hext⟩ := frames_statement (frames_call settings r room) s failure
    exact (arrived.chained hr).1.extends hext hlive
  | after done =>
    have hframes : Frames (program settings r p) := frames_within <|
      (frames_statements (frames_call settings r _) _).bind fun _ => frames_ask _
    exact chained_nil (hframes done).1

theorem owner_of_arrived {s : CallStack} (h : Arrived r p acts s ss) {t : Token}
    (ht : t ∈ (Stmt.nodesAll ss).filterMap Node.reference?) :
    ∃ id v path, owner r s t = .ok (id, v) ∧ p.Declares path (.variable v) ∧
      s.LexicalChain acts path id := by
  obtain ⟨path, id, S, htop, hchain, hS, hnodes⟩ := h
  obtain ⟨node, hnode, href⟩ := List.mem_filterMap.mp ht
  have hvariable : node = .expr (.variable t) := by
    unfold Node.reference? at href
    split at href
    · cases href
      rfl
    · cases href
  subst hvariable
  obtain ⟨v, hlookup, hfind⟩ := hnodes _ hnode
  obtain ⟨path', j, hdeclares, hvisible, hchain'⟩ := visible_of_lookup htop hchain hS hlookup
    (fun _ _ h => by cases h)
  refine ⟨j, v, path', ?_, hdeclares, hchain'⟩
  have hvisible' : s.visible v.level = some j := hvisible
  simp only [owner, hfind, hvisible']

/-- At every state of every run of a program that was read and resolved, the static chain of each
live record follows the path of its routine. References find an activation of the one routine that
declares the variable, and calls link to one of the one routine that declares the procedure. -/
theorem static_chains_follow_nesting {file : String} {source : Bytes} {index : Nat} {p : Program}
    {r : Resolution} (hp : Program.ofSource file source index = .ok p)
    (hr : p.resolve.1 = .ok r) (settings : Settings) :
    (∀ acts m, Reached settings r p acts m → acts.map Prod.fst = m.stack.live ∧
      ∀ id routine, (id, routine) ∈ acts → ∃ path block, p.Nests path block ∧
        path.head? = routine ∧ m.stack.LexicalChain acts path id) ∧
    (∀ acts room m s rest, Reaches settings r p acts room m (s :: rest) →
      ∀ t ∈ s.nodes.filterMap Node.reference?, ∃ id v path, owner r m.stack t = .ok (id, v) ∧
        p.SoleDeclarer path (.variable v) ∧ m.stack.LexicalChain acts path id) ∧
    (∀ acts room m name args rest q values,
      Reaches settings r p acts room m (.call name args :: rest) →
      prepare r m.stack name args = .ok (q, values) →
        ∃ id path, (callRecord m.stack q values).link = some id ∧
          p.SoleDeclarer path (.procedure q) ∧ m.stack.LexicalChain acts path id) := by
  have hresolved := Program.resolved hr (Program.nodup_uses hp)
  refine ⟨fun acts m h => ?_, fun acts room m s rest h t ht => ?_, ?_⟩
  · obtain ⟨hlive, hchains⟩ := h.chained hresolved
    exact ⟨hlive, hchains⟩
  · have ht' : t ∈ (Stmt.nodesAll (s :: rest)).filterMap Node.reference? := by
      rw [Stmt.nodesAll, List.filterMap_append]
      exact List.mem_append_left _ ht
    obtain ⟨id, v, path, howner, hdeclares, hchain⟩ :=
      owner_of_arrived (h.chained hresolved).2 ht'
    exact ⟨id, v, path, howner, hdeclares.sole hp, hchain⟩
  · intro acts room m name args rest q values h hq
    obtain ⟨path, j, hdeclares, hlink, hchain⟩ := chain_of_call (h.chained hresolved).2 hq
    exact ⟨j, path, hlink, hdeclares.sole hp, hchain⟩

/-- A procedure inside another one is running, and refers to variables of all three routines. -/
theorem static_chains_follow_nesting_three :
    let source := ("program p; var a : integer; procedure f(n : integer); " ++
      "procedure g(k : integer); begin a := n + k end; begin g(n) end; " ++
      "begin f(7) end.").toList.map fun c => c.toNat.toUInt8
    ∃ p r acts room m s rest path, Program.ofSource "p.pas" source = .ok p ∧
      p.resolve.1 = .ok r ∧ Reaches {} r p acts room m (s :: rest) ∧
      m.stack.LexicalChain acts path 2 ∧ path.length = 2 ∧
      ((s.nodes.filterMap Node.reference?).map fun t =>
        (t.name, (owner r m.stack t).toOption.map Prod.fst)) =
          [("a", some 0), ("n", some 1), ("k", some 2)] ∧
      ∀ t ∈ s.nodes.filterMap Node.reference?, ∃ id v path, owner r m.stack t = .ok (id, v) ∧
        p.SoleDeclarer path (.variable v) ∧ m.stack.LexicalChain acts path id := by
  intro source
  obtain ⟨p, r, hp, hr, htest⟩ : ∃ p r, Program.ofSource "p.pas" source = .ok p ∧
      p.resolve.1 = .ok r ∧
        (let m := entered {} { name := p.name.name } {}
        entersCall r m.stack (fun q values =>
          let m := entered {} (callRecord m.stack q values) m
          entersCall r m.stack (fun q values =>
            let m := entered {} (callRecord m.stack q values) m
            (m.stack.get? 2).any (fun record => record.level == 3) &&
              q.block.body.head?.any fun s =>
                ((s.nodes.filterMap Node.reference?).map fun t =>
                  (t.name, (owner r m.stack t).toOption.map Prod.fst)) ==
                    [("a", some 0), ("n", some 1), ("k", some 2)]) q.block.body)
          p.block.body) = true :=
    Program.exists_resolved (by decide +kernel)
  have hstart : Reaches {} r p [(0, none)] 999 (entered {} { name := p.name.name } {})
      p.block.body := .start
  obtain ⟨f, values, htest, hf⟩ := hstart.exists_enter htest
  obtain ⟨g, values', htest, hg⟩ := hf.exists_enter htest
  obtain ⟨hlevel, hbody⟩ := Bool.and_eq_true_iff.mp htest
  obtain ⟨s, hhead, howners⟩ := (Option.any_eq_true _ _).mp hbody
  obtain ⟨rest, hbody⟩ := List.head?_eq_some_iff.mp hhead
  rw [hbody] at hg
  obtain ⟨hstates, hreferences, _⟩ := static_chains_follow_nesting hp hr {}
  obtain ⟨_, hchains⟩ := hstates _ _ (.running hg)
  obtain ⟨path, _, _, _, hchain⟩ := hchains 2 (some g) (List.mem_cons_self ..)
  obtain ⟨record, hrecord, hrecordLevel⟩ := hchain.exists_record
  rw [hrecord, Option.any_some, beq_iff_eq, hrecordLevel] at hlevel
  exact ⟨p, r, _, _, _, s, rest, path, hp, hr, hg, hchain, by omega, beq_iff_eq.mp howners,
    hreferences _ _ _ _ _ hg⟩

end Execution

end MiniPascal
