import MiniPascal.Proofs.Execution.Environment
import MiniPascal.Proofs.Execution.Recursion
import MiniPascal.Proofs.Execution.Returns

/-!
# Static chains lead to the most recent activations

A routine may be active more than once. Of its activations, the static chain of a record goes
through the one that is nearest below the record: a search from that record down the call stack
would find the same.

A new record is linked into the chain of its caller, which is the nearest below the caller. The
record on top hides other activations of its own procedure only, and that procedure is not on the
chain it is linked to, since a procedure is declared at a deeper level than the routines around it.
-/
namespace MiniPascal

theorem Program.Nests.declares_of_suffix {p : Program} {path outer : List Procedure}
    {block : Block} {q : Procedure} (h : p.Nests path block) (hq : q :: outer <:+ path) :
    p.Declares outer (.procedure q) := by
  induction h with
  | program => cases List.suffix_nil.mp hq
  | procedure routine declared ih =>
    rcases List.suffix_cons_iff.mp hq with heq | hq
    · cases heq
      exact .ofProcedure routine declared
    · exact ih hq

/-- A procedure is none of the routines around it. -/
theorem Program.Declares.token_ne {p : Program} {path path' : List Procedure} {q : Procedure}
    {file : String} {source : Bytes} {index : Nat} (h : p.Declares path (.procedure q))
    (hp : Program.ofSource file source index = .ok p) (hpath : path' <:+ path) :
    path'.head?.map Procedure.token ≠ some q.token := by
  intro htoken
  cases path' with
  | nil => cases htoken
  | cons q' outer =>
    have hdeclares : p.Declares outer (.procedure q') :=
      h.nests.declares_of_suffix (hpath.trans (List.suffix_cons q path))
    obtain rfl : q' = q := Program.procedure_eq_of_token hp hdeclares.mem_procedures
      h.mem_procedures (Option.some.inj htoken)
    -- its level would be the depth of two routines, of which one is around the other
    have hlevel := h.level_eq.symm.trans hdeclares.level_eq
    have hlt := hpath.length_le
    rw [List.length_cons] at hlt
    omega

namespace CallStack

variable {s : CallStack} {acts : Activations} {path : List Procedure} {id j : Nat}

theorem LexicalChain.live (h : s.LexicalChain acts path id) : (id, path.head?) ∈ acts := by
  cases h with
  | program _ _ _ _ live => exact live
  | procedure _ _ _ _ _ live _ => exact live

theorem LexicalChain.of_onChain (h : s.LexicalChain acts path id) (hj : s.OnChain id j) :
    ∃ path', s.LexicalChain acts path' j := by
  induction hj with
  | start => exact ⟨path, h⟩
  | link inner found linked ih =>
    obtain ⟨path', hchain⟩ := ih
    cases hchain with
    | program found' _ _ unlinked _ =>
      cases found.symm.trans found'
      cases linked.symm.trans unlinked
    | procedure found' _ _ linked' _ _ rest =>
      cases found.symm.trans found'
      cases linked.symm.trans linked'
      exact ⟨_, rest⟩

end CallStack

namespace Activations

variable {acts : Activations} {id j : Nat} {routine routine' : Option Procedure}

/-- The first record, from the top, that is an activation of a routine. Routines are told apart by
the tokens that declare them; the program has none. -/
def latest? (acts : Activations) (routine : Option Procedure) : Option Nat :=
  (acts.find? fun a => a.2.map Procedure.token = routine.map Procedure.token).map Prod.fst

def latest (acts : Activations) : Activations :=
  acts.filter fun a => latest? acts a.2 = some a.1

theorem mem_latest_iff :
    (id, routine) ∈ latest acts ↔ (id, routine) ∈ acts ∧ latest? acts routine = some id := by
  rw [latest, List.mem_filter, decide_eq_true_eq]

theorem mem_latest_self : (id, routine) ∈ latest ((id, routine) :: acts) := by
  refine mem_latest_iff.mpr ⟨List.mem_cons_self, ?_⟩
  simp only [latest?, List.find?_cons, decide_true, Option.map_some]

/-- An activation on top hides other ones of its own routine only. -/
theorem mem_latest_cons (h : routine.map Procedure.token ≠ routine'.map Procedure.token)
    (hmem : (id, routine) ∈ latest acts) : (id, routine) ∈ latest ((j, routine') :: acts) := by
  obtain ⟨hold, hlatest⟩ := mem_latest_iff.mp hmem
  refine mem_latest_iff.mpr ⟨List.mem_cons_of_mem _ hold, ?_⟩
  simp only [latest?, List.find?_cons, decide_eq_false h.symm]
  exact hlatest

end Activations

namespace Execution

def Task.activations (tasks : List Task) : Activations :=
  tasks.map fun t => (t.record, t.routine)

def stackOf (s : CallStack) (tasks : List Task) : CallStack :=
  { s with live := tasks.map Task.record }

/-- The static chain of every task leads through the latest activations among the task and those
below it, and to all that the statements of the task refer to. -/
inductive Recent (r : Resolution) (p : Program) (s : CallStack) : List Task → Prop
  | ended : Recent r p s []
  | task {t : Task} {below : List Task}
      (arrived : Arrived r p (Activations.latest (Task.activations (t :: below)))
        (stackOf s (t :: below)) t.todo)
      (rest : Recent r p s below) : Recent r p s (t :: below)

variable {settings : Settings} {r : Resolution} {p : Program} {s s' : CallStack} {a b : Moment}
  {tasks below : List Task} {t : Task}

theorem stackOf_eq (h : tasks.map Task.record = s.live) : stackOf s tasks = s := by
  rw [stackOf, h]

theorem Recent.extends (h : Recent r p s tasks) (hs : s.Extends s') : Recent r p s' tasks := by
  induction h with
  | ended => exact .ended
  | @task t below arrived rest ih =>
    have hext : (stackOf s (t :: below)).Extends (stackOf s' (t :: below)) := hs
    exact .task (arrived.extends hext rfl (List.Subset.refl _)) ih

theorem Recent.tail (h : Recent r p s (t :: below)) : Recent r p s below := by
  cases h with
  | task arrived rest => exact rest

theorem Recent.onwards {id : Nat} {routine : Option Procedure} {todo todo' : List Stmt}
    (h : Recent r p s (⟨id, routine, todo⟩ :: below))
    (hsub : Stmt.nodesAll todo' ⊆ Stmt.nodesAll todo) :
    Recent r p s (⟨id, routine, todo'⟩ :: below) := by
  cases h with
  | task arrived rest => exact .task (arrived.extends (.refl _) rfl hsub) rest

theorem Recent.arrived (h : Recent r p s tasks) (ht : t :: below <:+ tasks) :
    Arrived r p (Activations.latest (Task.activations (t :: below)))
      (stackOf s (t :: below)) t.todo := by
  induction h with
  | ended => cases List.suffix_nil.mp ht
  | task arrived rest ih =>
    rcases List.suffix_cons_iff.mp ht with heq | ht
    · cases heq
      exact arrived
    · exact ih ht

/-- The innermost task sees the call stack as it is. -/
theorem Recent.arrived_top (h : Recent r p s (t :: below))
    (hlive : (t :: below).map Task.record = s.live) :
    Arrived r p (Activations.latest (Task.activations (t :: below))) s t.todo := by
  have harrived := h.arrived (List.suffix_refl _)
  rw [stackOf_eq hlive] at harrived
  exact harrived

section

variable {file : String} {source : Bytes} {index : Nat}

theorem Recent.enter {id : Nat} {q : Option Procedure} {name : Token} {args : List Expr}
    {rest : List Stmt} {callee : Procedure} {values : List Value}
    (h : Recent r p s (⟨id, q, .call name args :: rest⟩ :: below))
    (hp : Program.ofSource file source index = .ok p) (hr : p.block.Resolved r .globals)
    (hlive : (id :: below.map Task.record) = s.live)
    (prepared : prepare r s name args = .ok (callee, values)) :
    Recent r p (s.enter (callRecord s callee values))
      (⟨s.nextId, some callee, callee.block.body⟩ :: ⟨id, q, rest⟩ :: below) := by
  have hext := CallStack.extends_enter s (callRecord s callee values)
  obtain ⟨path, j, hdeclares, hlink, hchain⟩ := chain_of_call (h.arrived_top hlive) prepared
  -- the procedure that is called is not on the chain, so nothing on the chain is hidden by it
  have hsame : ∀ path' i, path' <:+ path →
      (i, path'.head?) ∈ Activations.latest ((id, q) :: Task.activations below) →
      (i, path'.head?) ∈ Activations.latest
        ((s.nextId, some callee) :: (id, q) :: Task.activations below) :=
    fun path' i hpath => Activations.mem_latest_cons (hdeclares.token_ne hp hpath)
  obtain ⟨_, harrived⟩ := enter_arrived hr hdeclares hlink (hchain.transfer hext hsame)
    Activations.mem_latest_self
  have hstack : stackOf (s.enter (callRecord s callee values))
      (⟨s.nextId, some callee, callee.block.body⟩ :: ⟨id, q, rest⟩ :: below) =
        s.enter (callRecord s callee values) :=
    stackOf_eq (congrArg (List.cons s.nextId) hlive)
  refine .task ?_ (Recent.onwards (h.extends hext) (List.subset_append_right _ _))
  rw [hstack]
  exact harrived

/-- The program is the latest activation of itself. -/
theorem recent_start (settings : Settings) (hr : p.block.Resolved r .globals) :
    Recent r p (Moment.start settings p).stack (Moment.start settings p).tasks := by
  have harrived : Arrived r p [(0, none)] (Moment.start settings p).stack p.block.body :=
    (start_chained hr).2
  obtain ⟨path, id, S, htop, hchain, hS, hnodes⟩ := harrived
  have hstack : stackOf (Moment.start settings p).stack [⟨0, none, p.block.body⟩] =
      (Moment.start settings p).stack := stackOf_eq (Moment.sound_start settings p).records
  refine .task ?_ .ended
  rw [hstack]
  refine ⟨path, id, S, htop, hchain.mono (CallStack.Extends.refl _) fun a ha => ?_, hS, hnodes⟩
  rw [List.mem_singleton.mp ha]
  exact Activations.mem_latest_self

theorem Step.recent (h : Step settings r a b) (hp : Program.ofSource file source index = .ok p)
    (hr : p.block.Resolved r .globals) (hsound : a.Sound settings)
    (ha : Recent r p a.stack a.tasks) : Recent r p b.stack b.tasks := by
  cases h with
  | skip | valueFails | targetFails | callFails | tooDeep =>
    exact Recent.onwards ha (List.subset_append_right _ _)
  | compound =>
    refine Recent.onwards ha ?_
    rw [Stmt.nodesAll_append, Stmt.nodesAll, Stmt.nodes, List.cons_append]
    exact List.subset_cons_self _ _
  | assign evaluated owned =>
    exact Recent.onwards (ha.extends (CallStack.extends_set _ _ _ _)) (List.subset_append_right _ _)
  | @enter m id q name args rest outer callee values prepared room =>
    change Recent r p (entered settings (callRecord m.stack callee values) m).stack _
    rw [stack_entered]
    exact Recent.enter ha hp hr hsound.records prepared
  | @leave m id q caller outer =>
    have hext : m.stack.Extends (completed settings m).stack :=
      stack_completed settings m ▸ CallStack.Extends.refl m.stack
    exact (Recent.tail ha).extends hext
  | unwind => exact (Recent.tail ha).extends (CallStack.Extends.refl _)
  | finish | fail => exact .ended

/-- At every moment of a run the static chains lead to the latest activations. -/
theorem Leads.recent (h : Leads settings r (.start settings p) b)
    (hp : Program.ofSource file source index = .ok p) (hr : p.block.Resolved r .globals) :
    Recent r p b.stack b.tasks := by
  induction h with
  | refl => exact recent_start settings hr
  | tail hleads hstep ih =>
    exact hstep.recent hp hr (Leads.sound hleads (Moment.sound_start settings p)) ih

end

/-- The records on the static chain of a task are the latest of their routines below it. -/
theorem Recent.latest_of_onChain {j : Nat} (h : Recent r p s tasks) (ht : t :: below <:+ tasks)
    (hj : s.OnChain t.record j) :
    ∃ u ∈ t :: below, u.record = j ∧
      Activations.latest? (Task.activations (t :: below)) u.routine = some j := by
  obtain ⟨path, id, S, htop, hchain, _⟩ := h.arrived ht
  obtain rfl : t.record = id := Option.some.inj htop
  have hsame : s.LexicalChain _ path t.record :=
    hchain.mono (CallStack.Extends.refl s) (List.Subset.refl _)
  obtain ⟨path', hlast⟩ := hsame.of_onChain hj
  obtain ⟨hmem, hlatest⟩ := Activations.mem_latest_iff.mp hlast.live
  obtain ⟨u, hu, heq⟩ := List.mem_map.mp hmem
  obtain ⟨hrecord, hroutine⟩ := Prod.mk.inj heq
  exact ⟨u, hu, hrecord, hroutine.symm ▸ hlatest⟩

/-- At every moment of every run of a program that was read and resolved, each record on the static
chain of a live record is the first one of its routine, from that live record downwards. So the
record that holds a variable, and the record that a new one is linked to, are found as well by
searching all live records from the top for the routine that declares the name. -/
theorem static_chains_are_most_recent {file : String} {source : Bytes} {index : Nat} {p : Program}
    {r : Resolution} (hp : Program.ofSource file source index = .ok p)
    (hr : p.resolve.1 = .ok r) (settings : Settings) :
    (∀ moment, Leads settings r (.start settings p) moment →
      moment.tasks.map Task.record = moment.stack.live ∧ moment.stack.live.Nodup ∧
      ∀ t below, t :: below <:+ moment.tasks → ∀ j, moment.stack.OnChain t.record j →
        ∃ u ∈ t :: below, u.record = j ∧
          Activations.latest? (Task.activations (t :: below)) u.routine = some j) ∧
    (∀ m id q s rest below,
      Leads settings r (.start settings p) (.running m (⟨id, q, s :: rest⟩ :: below)) →
      ∀ t ∈ s.nodes.filterMap Node.reference?, ∃ j v path, owner r m.stack t = .ok (j, v) ∧
        p.SoleDeclarer path (.variable v) ∧
        Activations.latest? ((id, q) :: Task.activations below) path.head? = some j) ∧
    (∀ m id q name args rest below callee values,
      Leads settings r (.start settings p)
        (.running m (⟨id, q, .call name args :: rest⟩ :: below)) →
      prepare r m.stack name args = .ok (callee, values) →
        ∃ j path, (callRecord m.stack callee values).link = some j ∧
          p.SoleDeclarer path (.procedure callee) ∧
          Activations.latest? ((id, q) :: Task.activations below) path.head? = some j) := by
  have hresolved := Program.resolved hr (Program.nodup_uses hp)
  have hsound {moment : Moment} (h : Leads settings r (.start settings p) moment) :=
    Leads.sound h (Moment.sound_start settings p)
  refine ⟨fun moment h => ⟨(hsound h).records, ?_, fun t below ht j hj => ?_⟩, ?_, ?_⟩
  · obtain ⟨done, htrace⟩ := exists_trace h
    have hacc := htrace.accounted (Moment.accounted_start settings p)
    rw [← hacc.records]
    exact hacc.nodup.sublist (List.sublist_append_right _ _)
  · exact (h.recent hp hresolved).latest_of_onChain ht hj
  · intro m id q s rest below h t ht
    have ht' : t ∈ (Stmt.nodesAll (s :: rest)).filterMap Node.reference? := by
      rw [Stmt.nodesAll, List.filterMap_append]
      exact List.mem_append_left _ ht
    obtain ⟨j, v, path, howner, hdeclares, hchain⟩ :=
      owner_of_arrived ((h.recent hp hresolved).arrived_top (hsound h).records) ht'
    exact ⟨j, v, path, howner, hdeclares.sole hp, (Activations.mem_latest_iff.mp hchain.live).2⟩
  · intro m id q name args rest below callee values h prepared
    obtain ⟨path, j, hdeclares, hlink, hchain⟩ :=
      chain_of_call ((h.recent hp hresolved).arrived_top (hsound h).records) prepared
    exact ⟨j, path, hlink, hdeclares.sole hp, (Activations.mem_latest_iff.mp hchain.live).2⟩

/-- Two procedures, one inside the other, call each other until five records are live. -/
theorem static_chains_are_most_recent_five :
    let source := ("program p; var x : integer; procedure f(n : integer); " ++
      "procedure g; begin x := n; f(n + 1) end; begin g() end; begin f(1) end.").toList.map
        fun c => c.toNat.toUInt8
    let settings : Settings := { maxDepth := 5 }
    ∃ p r moment, Program.ofSource "p.pas" source = .ok p ∧ p.resolve.1 = .ok r ∧
      Leads settings r (.start settings p) moment ∧ moment.stack.depth = 5 ∧
      p.procedures.length = 2 ∧
      ∀ t below, t :: below <:+ moment.tasks → ∀ j, moment.stack.OnChain t.record j →
        ∃ u ∈ t :: below, u.record = j ∧
          Activations.latest? (Task.activations (t :: below)) u.routine = some j := by
  intro source settings
  obtain ⟨p, r, hp, hr, hrun⟩ : ∃ p r, Program.ofSource "p.pas" source = .ok p ∧
      p.resolve.1 = .ok r ∧ (p.procedures.length == 2 &&
        (Moment.ended (p.run r settings)).failure?.any RunError.isOverflow) = true :=
    Program.exists_resolved (by decide +kernel)
  obtain ⟨hlength, hover⟩ := Bool.and_eq_true_iff.mp hrun
  obtain ⟨e, hfails, hdeep⟩ := (Option.any_eq_true _ _).mp hover
  obtain ⟨moment, hleads, hfull⟩ :=
    (run_isOverflow_iff settings r p).mp ⟨e, Moment.failure?_ended.mp hfails, hdeep⟩
  have hle : (moment.stack.depth : Int) ≤ max 1 5 :=
    (Leads.sound hleads (Moment.sound_start settings p)).depth_le
  have hge : (5 : Int) ≤ moment.stack.depth := by
    cases hfull with
    | mk prepared full => exact full
  obtain ⟨hmoments, _⟩ := static_chains_are_most_recent hp hr settings
  exact ⟨p, r, moment, hp, hr, hleads, by omega, beq_iff_eq.mp hlength,
    (hmoments moment hleads).2.2⟩

end Execution

end MiniPascal
