import Mathlib.Data.List.Perm.Subperm
import MiniPascal.Proofs.Execution.Depth
import MiniPascal.Proofs.Execution.StaticChain

/-!
# Successful runs do not recurse

Statements are run one after the other and none is ever left out, so a body that is completed
completes all calls in it, and each of them with less room than it has itself. A procedure that
calls itself, directly or through others, would be completed with less room than it needs. Hence a
run that succeeds is nowhere at two activations of one procedure, and it needs room for one record
of every procedure that the program declares, and for its own.
-/
namespace MiniPascal

mutual

def Decl.procedures (level : Int) : Decl → List Procedure
  | .variable .. => []
  | .procedure name params block =>
    .declared level name params block :: block.procedures (level + 1)

def Decl.proceduresAll (level : Int) : List Decl → List Procedure
  | [] => []
  | d :: rest => d.procedures level ++ Decl.proceduresAll level rest

def Block.procedures (level : Int) : Block → List Procedure
  | .mk decls _ _ => Decl.proceduresAll level decls

end

def Program.procedures (p : Program) : List Procedure :=
  p.block.procedures 1

def Procedure.index? (q : Procedure) : Option Nat :=
  q.token.map Token.index

mutual

theorem Decl.procedures_sublist (level : Int) : ∀ d : Decl,
    ((d.procedures level).map Procedure.index?).Sublist
      ((Node.indices Node.name? d.nodes).map some)
  | .variable name type => List.nil_sublist _
  | .procedure name params block => by
    rw [Decl.nodes, Node.indices_cons_of_some Node.name? rfl, Node.indices_append, Decl.procedures,
      List.map_cons, List.map_cons, List.map_append]
    refine List.Sublist.cons_cons _ ?_
    exact (Block.procedures_sublist (level + 1) block).trans (List.sublist_append_right _ _)

theorem Decl.proceduresAll_sublist (level : Int) : ∀ decls : List Decl,
    ((Decl.proceduresAll level decls).map Procedure.index?).Sublist
      ((Node.indices Node.name? (Decl.nodesAll decls)).map some)
  | [] => .slnil
  | d :: rest => by
    rw [Decl.nodesAll, Node.indices_append, Decl.proceduresAll, List.map_append, List.map_append]
    exact (Decl.procedures_sublist level d).append (Decl.proceduresAll_sublist level rest)

theorem Block.procedures_sublist (level : Int) : ∀ b : Block,
    ((b.procedures level).map Procedure.index?).Sublist
      ((Node.indices Node.name? b.nodes).map some)
  | .mk decls start body => by
    rw [Block.nodes, Node.indices_cons_of_none Node.name? rfl, Node.indices_append,
      Block.procedures, List.map_append]
    exact (Decl.proceduresAll_sublist level decls).trans (List.sublist_append_left _ _)

end

theorem Block.procedures_of_mem {b : Block} {d : Decl} (h : d ∈ b.decls) (level : Int) :
    d.procedures level ⊆ b.procedures level := by
  cases b with
  | mk decls start body =>
    rw [Block.procedures]
    induction decls with
    | nil => cases h
    | cons first rest ih =>
      rw [Decl.proceduresAll]
      rcases List.mem_cons.mp h with rfl | h
      · exact List.subset_append_left _ _
      · exact List.Subset.trans (ih h) (List.subset_append_right _ _)

namespace Program

variable {p : Program} {path path' : List Procedure} {block : Block} {q q' : Procedure}
  {r : Resolution}

theorem Nests.procedures_subset (h : p.Nests path block) :
    block.procedures (path.length + 1) ⊆ p.procedures := by
  induction h with
  | program => exact List.Subset.refl _
  | procedure outer declared ih =>
    refine List.Subset.trans ?_ (List.Subset.trans (Block.procedures_of_mem declared _) ih)
    rw [Decl.procedures, List.length_cons, Int.natCast_succ]
    exact List.subset_cons_self _ _

theorem Declares.mem_procedures (h : p.Declares path (.procedure q)) : q ∈ p.procedures := by
  cases h with
  | ofProcedure routine declared =>
    refine routine.procedures_subset (Block.procedures_of_mem declared _ ?_)
    rw [Decl.procedures]
    exact List.mem_cons_self

/-- The procedures of a program that was read have different tokens. -/
theorem procedure_eq_of_token {file : String} {source : Bytes} {index : Nat}
    (hp : Program.ofSource file source index = .ok p) (hq : q ∈ p.procedures)
    (hq' : q' ∈ p.procedures) (h : q.token = q'.token) : q = q' := by
  have hnames := nodup_names hp
  rw [Program.nodes, Node.indices_cons_of_none Node.name? rfl] at hnames
  have hnodup : (p.procedures.map Procedure.index?).Nodup :=
    (hnames.map fun _ _ => Option.some.inj).sublist (Block.procedures_sublist 1 p.block)
  refine List.inj_on_of_nodup_map hnodup hq hq' ?_
  rw [Procedure.index?, Procedure.index?, h]

end Program

theorem Expr.stmt_not_mem_nodes (s : Stmt) : ∀ e : Expr, Node.stmt s ∉ e.nodes
  | .number t v => by simp only [Expr.nodes, List.mem_singleton, reduceCtorEq, not_false_eq_true]
  | .variable t => by simp only [Expr.nodes, List.mem_singleton, reduceCtorEq, not_false_eq_true]
  | .unary op e => by
    simp only [Expr.nodes, List.mem_cons, reduceCtorEq, false_or]
    exact Expr.stmt_not_mem_nodes s e
  | .binary left op right => by
    simp only [Expr.nodes, List.mem_cons, List.mem_append, reduceCtorEq, false_or, not_or]
    exact ⟨Expr.stmt_not_mem_nodes s left, Expr.stmt_not_mem_nodes s right⟩

theorem Stmt.nodesAll_append (front back : List Stmt) :
    Stmt.nodesAll (front ++ back) = Stmt.nodesAll front ++ Stmt.nodesAll back := by
  induction front with
  | nil => rfl
  | cons s rest ih => rw [List.cons_append, Stmt.nodesAll, Stmt.nodesAll, ih, List.append_assoc]

def Resolution.Calls (r : Resolution) (ss : List Stmt) (q : Procedure) : Prop :=
  ∃ name args, .stmt (.call name args) ∈ Stmt.nodesAll ss ∧ r.calls.find? name.index = some q

/-- The procedures that are called in the body of a routine are declared. -/
theorem Program.Nests.declares_of_calls {p : Program} {path : List Procedure} {block : Block}
    {q : Procedure} {r : Resolution} (hn : p.Nests path block) (hr : p.block.Resolved r .globals)
    (h : r.Calls block.body q) : ∃ path', p.Declares path' (.procedure q) := by
  obtain ⟨name, args, hnode, hfind⟩ := h
  obtain ⟨S, hS, hnodes⟩ := hn.describes_body hr
  obtain ⟨q', hlookup, _, hfind'⟩ := hnodes _ hnode
  obtain rfl : q = q' := Option.some.inj (hfind.symm.trans hfind')
  obtain ⟨path', _, hdeclares | ⟨_, _, hbuiltin⟩⟩ := hS.lookup hlookup
  · exact ⟨path', hdeclares⟩
  · cases hbuiltin

namespace Execution

variable {settings : Settings} {r : Resolution} {p : Program} {room : Nat} {ss ss' : List Stmt}
  {q : Procedure} {tasks outer : List Task} {a b : Moment}

/-- Statements can be completed, in some state, with room for a number of further records. -/
def Feasible (settings : Settings) (r : Resolution) (room : Nat) (ss : List Stmt) : Prop :=
  ∃ m m', statements r (call settings r room) ss m = (.ok (), m')

/-- No call among completed statements is left out. -/
theorem exists_completed_call {call : Token → List Expr → Execution Unit} {m m' : Machine}
    {name : Token} {args : List Expr} (h : statements r call ss m = (.ok (), m'))
    (hmem : .stmt (.call name args) ∈ Stmt.nodesAll ss) :
    ∃ m₁ m₂, call name args m₁ = (.ok (), m₂) := by
  induction ss using Stmt.sequence_induction generalizing m m' with
  | nil => cases hmem
  | compound start children rest ihc ihr =>
    obtain ⟨_, m₁, hchildren, hrest⟩ := Stateful.bind_eq_ok.mp h
    rw [Stmt.nodesAll, Stmt.nodes, List.cons_append, List.mem_cons, List.mem_append] at hmem
    rcases hmem with heq | hmem | hmem
    · cases heq
    · exact ihc hchildren hmem
    · exact ihr hrest hmem
  | assign target op value rest ih =>
    obtain ⟨_, m₁, _, hrest⟩ := Stateful.bind_eq_ok.mp h
    rw [Stmt.nodesAll, Stmt.nodes, List.cons_append, List.cons_append, List.mem_cons,
      List.mem_cons, List.mem_append] at hmem
    rcases hmem with heq | heq | hmem | hmem
    · cases heq
    · cases heq
    · exact absurd hmem (Expr.stmt_not_mem_nodes _ value)
    · exact ih hrest hmem
  | call name' args' rest ih =>
    obtain ⟨_, m₁, hcall, hrest⟩ := Stateful.bind_eq_ok.mp h
    rw [Stmt.nodesAll, Stmt.nodes, List.cons_append, List.mem_cons, List.mem_append] at hmem
    rcases hmem with heq | hmem | hmem
    · cases heq
      exact ⟨m, m₁, hcall⟩
    · obtain ⟨e, _, hmem⟩ := List.mem_flatMap.mp hmem
      exact absurd hmem (Expr.stmt_not_mem_nodes _ e)
    · exact ih hrest hmem
  | empty rest ih =>
    obtain ⟨_, m₁, _, hrest⟩ := Stateful.bind_eq_ok.mp h
    rw [Stmt.nodesAll, Stmt.nodes, List.singleton_append, List.mem_cons] at hmem
    rcases hmem with heq | hmem
    · cases heq
    · exact ih hrest hmem

/-- A completed call completes the body of its procedure with less room. -/
theorem feasible_of_call {name : Token} {args : List Expr} {m m' : Machine}
    (h : call settings r room name args m = (.ok (), m'))
    (hq : r.calls.find? name.index = some q) :
    ∃ less < room, Feasible settings r less q.block.body := by
  rcases call_cases h with ⟨⟨e, he⟩, _⟩ | ⟨less, callee, values, rfl, hprepare, hwithin⟩
  · cases he
  · obtain ⟨hfind, _, _⟩ := prepare_eq_ok hprepare
    obtain rfl : callee = q := Option.some.inj (hfind.symm.trans hq)
    obtain ⟨m'', hbody, _⟩ := exists_body_of_within hwithin
    exact ⟨less, Nat.lt_succ_self less, _, m'', hbody⟩

/-- The first statements can be completed with less room than the second. -/
def Shorter (settings : Settings) (r : Resolution) (ss ss' : List Stmt) : Prop :=
  ∀ room, Feasible settings r room ss' → ∃ less < room, Feasible settings r less ss

theorem shorter_of_calls (h : r.Calls ss q) : Shorter settings r q.block.body ss := by
  rintro room ⟨m, m', hm⟩
  obtain ⟨name, args, hmem, hfind⟩ := h
  obtain ⟨m₁, m₂, hcall⟩ := exists_completed_call hm hmem
  exact feasible_of_call hcall hfind

theorem Shorter.trans {ss'' : List Stmt} (h : Shorter settings r ss ss')
    (h' : Shorter settings r ss' ss'') : Shorter settings r ss ss'' := by
  intro room hfeasible
  obtain ⟨less, hless, hfeasible'⟩ := h' room hfeasible
  obtain ⟨least, hleast, hfeasible''⟩ := h less hfeasible'
  exact ⟨least, Nat.lt_trans hleast hless, hfeasible''⟩

/-- Statements that can be completed need the room that they need, and not less. -/
theorem Feasible.not_shorter (h : Feasible settings r room ss) : ¬ Shorter settings r ss ss := by
  intro hshorter
  induction room using Nat.strongRecOn with
  | _ room ih =>
    obtain ⟨less, hless, hfeasible⟩ := hshorter room h
    exact ih less hless hfeasible

theorem feasible_of_run {bindings : Bindings} (h : (p.run r settings).result = .ok bindings) :
    ∃ room, Feasible settings r room p.block.body := by
  have hprogram : program settings r p {} = (.ok bindings, (program settings r p {}).2) :=
    Prod.ext h rfl
  obtain ⟨m, hbody, _⟩ := exists_body_of_within hprogram
  obtain ⟨_, m', hstatements, _⟩ := Stateful.bind_eq_ok.mp hbody
  exact ⟨_, _, m', hstatements⟩

def Task.body (p : Program) (t : Task) : List Stmt :=
  (t.routine.elim p.block Procedure.block).body

/-- The token that declares the procedure of a task; the program has none. -/
def Task.declaration (t : Task) : Option (Option Token) :=
  t.routine.map Procedure.token

/-- Every task runs statements of its own body, and its procedure is called in the body of the task
around it. The outermost task is the program. -/
inductive Nested (r : Resolution) (p : Program) : List Task → Prop
  | ended : Nested r p []
  | program {id : Nat} {todo : List Stmt}
      (inside : Stmt.nodesAll todo ⊆ Stmt.nodesAll p.block.body) : Nested r p [⟨id, none, todo⟩]
  | call {id : Nat} {callee : Procedure} {todo : List Stmt} {caller : Task} {outer : List Task}
      (inside : Stmt.nodesAll todo ⊆ Stmt.nodesAll callee.block.body)
      (called : r.Calls (caller.body p) callee) (rest : Nested r p (caller :: outer)) :
      Nested r p (⟨id, some callee, todo⟩ :: caller :: outer)

theorem Nested.inside {t : Task} (h : Nested r p (t :: outer)) :
    Stmt.nodesAll t.todo ⊆ Stmt.nodesAll (t.body p) := by
  cases h with
  | program inside => exact inside
  | call inside called rest => exact inside

theorem Nested.tail {t : Task} (h : Nested r p (t :: outer)) : Nested r p outer := by
  cases h with
  | program inside => exact .ended
  | call inside called rest => exact rest

theorem Nested.onwards {id : Nat} {routine : Option Procedure} {todo todo' : List Stmt}
    (h : Nested r p (⟨id, routine, todo⟩ :: outer))
    (hsub : Stmt.nodesAll todo' ⊆ Stmt.nodesAll todo) :
    Nested r p (⟨id, routine, todo'⟩ :: outer) := by
  cases h with
  | program inside => exact .program (List.Subset.trans hsub inside)
  | call inside called rest => exact .call (List.Subset.trans hsub inside) called rest

theorem Nested.calls {id : Nat} {routine : Option Procedure} {name : Token} {args : List Expr}
    {rest : List Stmt} (h : Nested r p (⟨id, routine, .call name args :: rest⟩ :: outer))
    (hq : r.calls.find? name.index = some q) (id' : Nat) :
    Nested r p (⟨id', some q, q.block.body⟩ :: ⟨id, routine, rest⟩ :: outer) := by
  refine .call (List.Subset.refl _) ⟨name, args, h.inside ?_, hq⟩ (h.onwards ?_)
  · exact List.mem_append_left _ List.mem_cons_self
  · exact List.subset_append_right _ _

theorem Step.nested (h : Step settings r a b) (ha : Nested r p a.tasks) : Nested r p b.tasks := by
  cases h with
  | skip | assign | valueFails | targetFails | callFails | tooDeep =>
    exact Nested.onwards ha (List.subset_append_right _ _)
  | compound =>
    refine Nested.onwards ha ?_
    rw [Stmt.nodesAll_append, Stmt.nodesAll, Stmt.nodes, List.cons_append]
    exact List.subset_cons_self _ _
  | enter prepared room => exact Nested.calls ha (prepare_eq_ok prepared).1 _
  | leave | unwind | finish | fail => exact Nested.tail ha

theorem Leads.nested (h : Leads settings r (.start settings p) b) : Nested r p b.tasks := by
  induction h with
  | refl => exact .program (List.Subset.refl _)
  | tail _ hstep ih => exact hstep.nested ih

/-- The bodies of the tasks need more and more room from the inside out. -/
theorem Nested.pairwise_shorter (h : Nested r p tasks) (settings : Settings) :
    tasks.Pairwise fun t u => Shorter settings r (t.body p) (u.body p) := by
  induction h with
  | ended => exact .nil
  | program inside => exact List.pairwise_singleton _ _
  | @call id callee todo caller outer inside called rest ih =>
    have hshorter : Shorter settings r callee.block.body (caller.body p) := shorter_of_calls called
    refine .cons (List.forall_mem_cons.mpr ⟨hshorter, fun u hu => ?_⟩) ih
    exact hshorter.trans ((List.pairwise_cons.mp ih).1 u hu)

theorem Nested.feasible (h : Nested r p tasks) (hp : Feasible settings r room p.block.body) :
    ∀ t ∈ tasks, ∃ room, Feasible settings r room (t.body p) := by
  induction h with
  | ended => exact List.forall_mem_nil _
  | program inside => exact List.forall_mem_singleton.mpr ⟨room, hp⟩
  | call inside called rest ih =>
    refine List.forall_mem_cons.mpr ⟨?_, ih⟩
    obtain ⟨room, hfeasible⟩ := ih _ List.mem_cons_self
    obtain ⟨less, _, hless⟩ := shorter_of_calls called room hfeasible
    exact ⟨less, hless⟩

theorem Nested.nests (h : Nested r p tasks) (hr : p.block.Resolved r .globals) :
    ∀ t ∈ tasks, ∃ path block, p.Nests path block ∧ path.head? = t.routine ∧
      t.body p = block.body := by
  induction h with
  | ended => exact List.forall_mem_nil _
  | program inside => exact List.forall_mem_singleton.mpr ⟨[], p.block, .program, rfl, rfl⟩
  | call inside called rest ih =>
    refine List.forall_mem_cons.mpr ⟨?_, ih⟩
    obtain ⟨path, block, hnests, _, hbody⟩ := ih _ List.mem_cons_self
    rw [hbody] at called
    obtain ⟨path', hdeclares⟩ := hnests.declares_of_calls hr called
    exact ⟨_, _, hdeclares.nests, rfl, rfl⟩

/-- The procedures of the tasks are declared. -/
theorem Nested.mem_procedures (h : Nested r p tasks) (hr : p.block.Resolved r .globals) :
    ∀ t ∈ tasks, ∀ q, t.routine = some q → q ∈ p.procedures := by
  intro t ht q hq
  obtain ⟨path, block, hnests, hhead, _⟩ := h.nests hr t ht
  rw [hq] at hhead
  cases hnests with
  | program => cases hhead
  | procedure outer declared =>
    cases hhead
    exact (Program.Declares.ofProcedure outer declared).mem_procedures

section

variable {file : String} {source : Bytes} {index : Nat}

/-- No two tasks of a program that can be completed are of the same procedure. -/
theorem Nested.nodup (h : Nested r p tasks) (hp : Program.ofSource file source index = .ok p)
    (hr : p.block.Resolved r .globals) (hbody : Feasible settings r room p.block.body) :
    (tasks.map Task.declaration).Nodup := by
  refine List.pairwise_map.mpr ((h.pairwise_shorter settings).imp_of_mem ?_)
  intro t u ht hu hshorter heq
  -- activations of one routine would have the same body, which is not shorter than itself
  have hroutine : t.routine = u.routine := by
    cases hq : t.routine with
    | none =>
      rw [Task.declaration, hq] at heq
      exact (Option.map_eq_none_iff.mp heq.symm).symm
    | some q =>
      rw [Task.declaration, hq] at heq
      obtain ⟨q', hq', htoken⟩ := Option.map_eq_some_iff.mp heq.symm
      rw [hq', Program.procedure_eq_of_token hp (h.mem_procedures hr t ht q hq)
        (h.mem_procedures hr u hu q' hq') htoken.symm]
  obtain ⟨room, hfeasible⟩ := h.feasible hbody t ht
  refine hfeasible.not_shorter ?_
  have hsame : u.body p = t.body p := by rw [Task.body, Task.body, hroutine]
  rw [hsame] at hshorter
  exact hshorter

theorem Nested.length_le (h : Nested r p tasks) (hp : Program.ofSource file source index = .ok p)
    (hr : p.block.Resolved r .globals) (hbody : Feasible settings r room p.block.body) :
    tasks.length ≤ 1 + p.procedures.length := by
  have hsub : (tasks.map Task.declaration) ⊆
      none :: p.procedures.map fun q => some q.token := by
    intro token htoken
    obtain ⟨t, ht, rfl⟩ := List.mem_map.mp htoken
    rw [Task.declaration]
    cases hq : t.routine with
    | none => exact List.mem_cons_self
    | some q =>
      exact List.mem_cons_of_mem _ (List.mem_map_of_mem (h.mem_procedures hr t ht q hq))
  have hle := (List.subperm_of_subset (h.nodup hp hr hbody) hsub).length_le
  rw [List.length_map, List.length_cons, List.length_map] at hle
  omega

end

/-- At a call of a procedure that has a live record already. -/
inductive Moment.RecursiveCall (r : Resolution) : Moment → Prop
  | mk {m : Machine} {id : Nat} {routine : Option Procedure} {name : Token} {args : List Expr}
      {rest : List Stmt} {outer : List Task} {callee : Procedure}
      (called : r.calls.find? name.index = some callee)
      (live : some callee.token ∈
        (⟨id, routine, .call name args :: rest⟩ :: outer : List Task).map Task.declaration) :
      RecursiveCall r (.running m (⟨id, routine, .call name args :: rest⟩ :: outer))

/-- A program that was read and resolved and whose run succeeds is at no moment in two activations
of one procedure. Its records are at most one more than the procedures it declares, and with this
limit the run has the same outcome. A run that comes to a call of a live procedure fails. -/
theorem successful_runs_do_not_recurse {file : String} {source : Bytes} {index : Nat}
    {p : Program} {r : Resolution} (hp : Program.ofSource file source index = .ok p)
    (hr : p.resolve.1 = .ok r) (settings : Settings) :
    (∀ bindings, (p.run r settings).result = .ok bindings →
      (∀ moment, Leads settings r (.start settings p) moment →
        moment.tasks.map Task.record = moment.stack.live ∧
          (∀ t ∈ moment.tasks, ∀ q, t.routine = some q → q ∈ p.procedures) ∧
          (moment.tasks.map Task.declaration).Nodup ∧
          moment.stack.depth ≤ 1 + p.procedures.length) ∧
      p.run r { settings with maxDepth := 1 + p.procedures.length } = p.run r settings) ∧
    (∀ moment, Leads settings r (.start settings p) moment → moment.RecursiveCall r →
      ∃ e, (p.run r settings).result = .error e) := by
  have hresolved := Program.resolved hr (Program.nodup_uses hp)
  refine ⟨fun bindings hrun => ⟨fun moment hleads => ?_, ?_⟩, fun moment hleads hcall => ?_⟩
  · obtain ⟨room, hbody⟩ := feasible_of_run hrun
    have hsound := hleads.sound (Moment.sound_start settings p)
    refine ⟨hsound.records, hleads.nested.mem_procedures hresolved,
      hleads.nested.nodup hp hresolved hbody, ?_⟩
    rw [hsound.depth_eq]
    exact hleads.nested.length_le hp hresolved hbody
  · obtain ⟨room, hbody⟩ := feasible_of_run hrun
    -- with this limit no call finds the stack full, since there is room for its record too
    have hdeep :
        NoOverflow (p.run r { settings with maxDepth := 1 + p.procedures.length }).result := by
      intro e he
      by_contra hover
      obtain ⟨moment, hleads, hfull⟩ := (run_isOverflow_iff _ r p).mp
        ⟨e, he, Bool.not_eq_false _ ▸ hover⟩
      cases hfull with
      | @mk m id routine name args rest outer callee values prepared full =>
        have hdepth : m.stack.depth = outer.length + 1 :=
          (hleads.sound (Moment.sound_start _ p)).depth_eq
        have hnested := Nested.calls hleads.nested (prepare_eq_ok prepared).1 0
        have hle : outer.length + 2 ≤ 1 + p.procedures.length :=
          hnested.length_le hp hresolved hbody
        have hfull : (1 + p.procedures.length : Int) ≤ m.stack.depth := full
        omega
    rcases Int.le_total settings.maxDepth (1 + p.procedures.length) with hle | hle
    · refine (below_program settings r p hle).run_eq fun e he => ?_
      cases hrun.symm.trans he
    · exact ((below_program settings r p hle).run_eq hdeep).symm
  · cases hresult : (p.run r settings).result with
    | error e => exact ⟨e, rfl⟩
    | ok bindings =>
      obtain ⟨room, hbody⟩ := feasible_of_run hresult
      cases hcall with
      | mk called live =>
        have hnested := Nested.calls hleads.nested called 0
        exact absurd live (List.nodup_cons.mp (hnested.nodup hp hresolved hbody)).1

/-- Two procedures, of which one calls the other twice, need room for three records. -/
theorem successful_runs_do_not_recurse_twice :
    let source := ("program p; var x : integer; procedure f; begin x := x + 1 end; " ++
      "procedure g; begin f(); f() end; begin x := 0; g() end.").toList.map fun c =>
        c.toNat.toUInt8
    ∃ p r, Program.ofSource "p.pas" source = .ok p ∧ p.resolve.1 = .ok r ∧
      p.procedures.length = 2 ∧ (p.run r {}).result = .ok [("x", .int 2)] ∧
      p.run r { maxDepth := 1 + p.procedures.length } = p.run r {} := by
  intro source
  obtain ⟨p, r, hp, hr, hrun⟩ : ∃ p r, Program.ofSource "p.pas" source = .ok p ∧
      p.resolve.1 = .ok r ∧ (p.procedures.length == 2 &&
        (p.run r {}).result.toOption == some [("x", .int 2)]) = true :=
    Program.exists_resolved (by decide +kernel)
  obtain ⟨hlength, hresult⟩ := Bool.and_eq_true_iff.mp hrun
  have hok : (p.run r {}).result = .ok [("x", .int 2)] :=
    eq_ok_of_toOption (beq_iff_eq.mp hresult)
  obtain ⟨hsuccess, _⟩ := successful_runs_do_not_recurse hp hr {}
  exact ⟨p, r, hp, hr, beq_iff_eq.mp hlength, hok, (hsuccess _ hok).2⟩

end Execution

end MiniPascal
