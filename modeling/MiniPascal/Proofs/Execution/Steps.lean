import Mathlib.Logic.Relation
import MiniPascal.Proofs.Execution.Frame

/-!
# Runs step by step

A run as a sequence of moments. A step does one thing: it opens a compound statement, assigns,
enters a procedure, or leaves a routine; after a failure it takes one record off the stack. Steps
do not count the room that is left. A call compares the number of live records with the limit.

What statements do at once is done by steps, one after the other. So the steps of a program lead
from its start to the outcome of its run, and as they leave no choice, they lead nowhere else.
-/
namespace MiniPascal

namespace Execution

/-- A live record, the procedure that it is an activation of, if it is of one, and the statements
of its body that are still to be run. -/
structure Task where
  record : Nat
  routine : Option Procedure
  todo : List Stmt

/-- A moment of a run: at work, on the way out of a failure, or at the end. The innermost live
record comes first. -/
inductive Moment
  | running (m : Machine) (tasks : List Task)
  | failing (e : RunError) (m : Machine) (tasks : List Task)
  | ended (outcome : Outcome)

namespace Moment

def stack : Moment → CallStack
  | running m _ => m.stack
  | failing _ m _ => m.stack
  | ended outcome => outcome.stack

def tasks : Moment → List Task
  | running _ tasks => tasks
  | failing _ _ tasks => tasks
  | ended _ => []

def failure? : Moment → Option RunError
  | running .. => none
  | failing e _ _ => some e
  | ended outcome =>
    match outcome.result with
    | .ok _ => none
    | .error e => some e

def start (settings : Settings) (p : Program) : Moment :=
  running (entered settings { name := p.name.name } {}) [⟨0, none, p.block.body⟩]

end Moment

inductive Step (settings : Settings) (r : Resolution) : Moment → Moment → Prop
  | skip {m : Machine} {id : Nat} {q : Option Procedure} {rest : List Stmt} {outer : List Task} :
      Step settings r (.running m (⟨id, q, .empty :: rest⟩ :: outer))
        (.running m (⟨id, q, rest⟩ :: outer))
  | compound {m : Machine} {id : Nat} {q : Option Procedure} {start : Token}
      {children rest : List Stmt} {outer : List Task} :
      Step settings r (.running m (⟨id, q, .compound start children :: rest⟩ :: outer))
        (.running m (⟨id, q, children ++ rest⟩ :: outer))
  | assign {m : Machine} {id : Nat} {q : Option Procedure} {target op : Token} {value : Expr}
      {rest : List Stmt} {outer : List Task} {v : Value} {holder : Nat} {x : Variable}
      (evaluated : evaluate r m.stack value = .ok v)
      (owned : owner r m.stack target = .ok (holder, x)) :
      Step settings r (.running m (⟨id, q, .assign target op value :: rest⟩ :: outer))
        (.running { m with stack := m.stack.set holder x.name v } (⟨id, q, rest⟩ :: outer))
  | valueFails {m : Machine} {id : Nat} {q : Option Procedure} {target op : Token} {value : Expr}
      {rest : List Stmt} {outer : List Task} {e : RunError}
      (evaluated : evaluate r m.stack value = .error e) :
      Step settings r (.running m (⟨id, q, .assign target op value :: rest⟩ :: outer))
        (.failing e m (⟨id, q, rest⟩ :: outer))
  | targetFails {m : Machine} {id : Nat} {q : Option Procedure} {target op : Token} {value : Expr}
      {rest : List Stmt} {outer : List Task} {v : Value} {e : RunError}
      (evaluated : evaluate r m.stack value = .ok v) (owned : owner r m.stack target = .error e) :
      Step settings r (.running m (⟨id, q, .assign target op value :: rest⟩ :: outer))
        (.failing e m (⟨id, q, rest⟩ :: outer))
  | enter {m : Machine} {id : Nat} {q : Option Procedure} {name : Token} {args : List Expr}
      {rest : List Stmt} {outer : List Task} {callee : Procedure} {values : List Value}
      (prepared : prepare r m.stack name args = .ok (callee, values))
      (room : m.stack.depth < settings.maxDepth) :
      Step settings r (.running m (⟨id, q, .call name args :: rest⟩ :: outer))
        (.running (entered settings (callRecord m.stack callee values) m)
          (⟨m.stack.nextId, some callee, callee.block.body⟩ :: ⟨id, q, rest⟩ :: outer))
  | callFails {m : Machine} {id : Nat} {q : Option Procedure} {name : Token} {args : List Expr}
      {rest : List Stmt} {outer : List Task} {e : RunError}
      (prepared : prepare r m.stack name args = .error e) :
      Step settings r (.running m (⟨id, q, .call name args :: rest⟩ :: outer))
        (.failing e m (⟨id, q, rest⟩ :: outer))
  | tooDeep {m : Machine} {id : Nat} {q : Option Procedure} {name : Token} {args : List Expr}
      {rest : List Stmt} {outer : List Task} {callee : Procedure} {values : List Value}
      (prepared : prepare r m.stack name args = .ok (callee, values))
      (full : settings.maxDepth ≤ m.stack.depth) :
      Step settings r (.running m (⟨id, q, .call name args :: rest⟩ :: outer))
        (.failing (.diagnostic (.atToken name (.depthExceeded callee.name settings.maxDepth))) m
          (⟨id, q, rest⟩ :: outer))
  | leave {m : Machine} {id : Nat} {q : Option Procedure} {caller : Task} {outer : List Task} :
      Step settings r (.running m (⟨id, q, []⟩ :: caller :: outer))
        (.running (completed settings m) (caller :: outer))
  | finish {m : Machine} {id : Nat} {q : Option Procedure} :
      Step settings r (.running m [⟨id, q, []⟩])
        (.ended (.after (.ok (m.stack.topRecord?.elim [] Record.members)) (completed settings m)))
  | unwind {e : RunError} {m : Machine} {task caller : Task} {outer : List Task} :
      Step settings r (.failing e m (task :: caller :: outer))
        (.failing e (popped m) (caller :: outer))
  | fail {e : RunError} {m : Machine} {task : Task} :
      Step settings r (.failing e m [task]) (.ended (.after (.error e) (popped m)))

abbrev Leads (settings : Settings) (r : Resolution) : Moment → Moment → Prop :=
  Relation.ReflTransGen (Step settings r)

variable {settings : Settings} {r : Resolution} {p : Program} {m m' : Machine} {id room : Nat}
  {q : Option Procedure} {rest : List Stmt} {outer : List Task} {a b c : Moment}

theorem Step.deterministic (h : Step settings r a b) (h' : Step settings r a c) : b = c := by
  cases h with
  | assign evaluated owned =>
    cases h' with
    | assign evaluated' owned' =>
      cases evaluated.symm.trans evaluated'
      cases owned.symm.trans owned'
      rfl
    | valueFails evaluated' => cases evaluated.symm.trans evaluated'
    | targetFails evaluated' owned' => cases owned.symm.trans owned'
  | valueFails evaluated =>
    cases h' with
    | assign evaluated' owned' => cases evaluated.symm.trans evaluated'
    | valueFails evaluated' =>
      cases evaluated.symm.trans evaluated'
      rfl
    | targetFails evaluated' owned' => cases evaluated.symm.trans evaluated'
  | targetFails evaluated owned =>
    cases h' with
    | assign evaluated' owned' => cases owned.symm.trans owned'
    | valueFails evaluated' => cases evaluated.symm.trans evaluated'
    | targetFails evaluated' owned' =>
      cases owned.symm.trans owned'
      rfl
  | enter prepared room =>
    cases h' with
    | enter prepared' room' =>
      cases prepared.symm.trans prepared'
      rfl
    | callFails prepared' => cases prepared.symm.trans prepared'
    | tooDeep prepared' full => exact absurd full (Int.not_le.mpr room)
  | callFails prepared =>
    cases h' with
    | enter prepared' room' => cases prepared.symm.trans prepared'
    | callFails prepared' =>
      cases prepared.symm.trans prepared'
      rfl
    | tooDeep prepared' full => cases prepared.symm.trans prepared'
  | tooDeep prepared full =>
    cases h' with
    | enter prepared' room => exact absurd full (Int.not_le.mpr room)
    | callFails prepared' => cases prepared.symm.trans prepared'
    | tooDeep prepared' full' =>
      cases prepared.symm.trans prepared'
      rfl
  | skip | compound | leave | finish | unwind | fail =>
    cases h'
    rfl

theorem rightUnique_step : Relator.RightUnique (Step settings r) :=
  fun _ _ _ => Step.deterministic

theorem not_step_ended {outcome : Outcome} : ¬ Step settings r (.ended outcome) b := by
  intro h
  cases h

theorem eq_of_ended_leads {o : Outcome} (h : Leads settings r (.ended o) b) : b = .ended o := by
  rcases h.cases_head with heq | ⟨_, hstep, _⟩
  · exact heq.symm
  · exact absurd hstep not_step_ended

/-- All moments of a run that ends lead to its end. -/
theorem Leads.onwards {o : Outcome} (h : Leads settings r a b)
    (hend : Leads settings r a (.ended o)) : Leads settings r b (.ended o) := by
  rcases Relation.ReflTransGen.total_of_right_unique rightUnique_step h hend with h | h
  · exact h
  · rw [eq_of_ended_leads h]

/-- A moment that leads to an end starts no endless run. -/
theorem Leads.acc {o : Outcome} (h : Leads settings r a (.ended o)) :
    Acc (fun next moment => Step settings r moment next) a := by
  induction h using Relation.ReflTransGen.head_induction_on with
  | refl => exact ⟨_, fun _ hstep => absurd hstep not_step_ended⟩
  | head hstep _ ih =>
    refine ⟨_, fun _ hstep' => ?_⟩
    rw [← hstep.deterministic hstep']
    exact ih

/-- Steps lead from a moment to where an answer takes the innermost routine: to the statements that
come next, or out of it with a failure. -/
inductive Realizes (settings : Settings) (r : Resolution) (moment : Moment) (id : Nat)
    (q : Option Procedure) (rest : List Stmt) (outer : List Task) :
    Except RunError Unit × Machine → Prop
  | done {m : Machine}
      (leads : Leads settings r moment (.running m (⟨id, q, rest⟩ :: outer))) :
      Realizes settings r moment id q rest outer (.ok (), m)
  | failed {e : RunError} {m : Machine} {todo : List Stmt}
      (leads : Leads settings r moment (.failing e m (⟨id, q, todo⟩ :: outer))) :
      Realizes settings r moment id q rest outer (.error e, m)

theorem Realizes.head {x : Except RunError Unit × Machine} (hstep : Leads settings r a b)
    (h : Realizes settings r b id q rest outer x) : Realizes settings r a id q rest outer x := by
  cases h with
  | done leads => exact .done (hstep.trans leads)
  | failed leads => exact .failed (hstep.trans leads)

theorem Realizes.bind {x y : Execution Unit} {next : List Stmt}
    (hx : Realizes settings r a id q next outer (x m))
    (hy : ∀ m', x m = (.ok (), m') →
      Realizes settings r (.running m' (⟨id, q, next⟩ :: outer)) id q rest outer (y m')) :
    Realizes settings r a id q rest outer ((x >>= fun _ => y) m) := by
  rcases hm : x m with ⟨e | u, m'⟩
  case error =>
    rw [Stateful.bind_of_error hm]
    rw [hm] at hx
    cases hx with
    | failed leads => exact .failed leads
  case ok =>
    rw [Stateful.bind_of_ok hm]
    rw [hm] at hx
    cases hx with
    | done leads => exact (hy m' hm).head leads

def roomLeft (settings : Settings) (m : Machine) : Nat :=
  (settings.maxDepth - m.stack.depth).toNat

theorem roomLeft_eq_of_frames {x : Execution Unit} {answer : Except RunError Unit}
    (hx : Frames x) (h : x m = (answer, m')) : roomLeft settings m' = roomLeft settings m := by
  rw [roomLeft, roomLeft, CallStack.depth, CallStack.depth, (hx h).1]

theorem depth_entered (record : Record) :
    (entered settings record m).stack.depth = m.stack.depth + 1 := by
  rw [stack_entered]
  rfl

theorem assign_realizes (target op : Token) (value : Expr) (m : Machine) :
    Realizes settings r (.running m (⟨id, q, .assign target op value :: rest⟩ :: outer)) id q rest
      outer ((do
        let v ← ask fun s => evaluate r s value
        assign r target v : Execution Unit) m) := by
  rw [ask_bind]
  cases hvalue : evaluate r m.stack value with
  | error e => exact .failed (.single (.valueFails hvalue))
  | ok v =>
    change Realizes _ _ _ _ _ _ _ (assign r target v m)
    rw [assign, ask_bind]
    cases howner : owner r m.stack target with
    | error e => exact .failed (.single (.targetFails hvalue howner))
    | ok found => exact .done (.single (.assign hvalue howner))

/-- Statements are carried out by steps if the calls among them are. -/
theorem statements_realize
    (hcall : ∀ {m : Machine} {name : Token} {args : List Expr} {rest : List Stmt},
      room = roomLeft settings m →
      Realizes settings r (.running m (⟨id, q, .call name args :: rest⟩ :: outer)) id q rest outer
        (call settings r room name args m)) (ss : List Stmt) :
    ∀ {m : Machine} {rest : List Stmt}, room = roomLeft settings m →
      Realizes settings r (.running m (⟨id, q, ss ++ rest⟩ :: outer)) id q rest outer
        (statements r (call settings r room) ss m) := by
  have hframes := frames_statement (r := r) (frames_call settings r room)
  induction ss using Stmt.sequence_induction with
  | nil =>
    intro m rest hroom
    exact .done .refl
  | compound start children others ihc iho =>
    intro m rest hroom
    rw [List.cons_append]
    refine Realizes.head (.single .compound) ((ihc hroom).bind fun m' hdone => iho ?_)
    rw [hroom, roomLeft_eq_of_frames (hframes (.compound start children)) hdone]
  | assign target op value others ih =>
    intro m rest hroom
    refine (assign_realizes target op value m).bind fun m' hdone => ih ?_
    rw [hroom, roomLeft_eq_of_frames (hframes (.assign target op value)) hdone]
  | call name args others ih =>
    intro m rest hroom
    refine (hcall hroom).bind fun m' hdone => ih ?_
    rw [hroom, roomLeft_eq_of_frames (hframes (.call name args)) hdone]
  | empty others ih =>
    intro m rest hroom
    exact (Realizes.done (.single .skip)).bind fun m' hdone => ih (by cases hdone; exact hroom)

/-- A call is carried out by steps. The room that it counts is the room that the limit leaves. -/
theorem call_realizes {name : Token} {args : List Expr} (hroom : room = roomLeft settings m) :
    Realizes settings r (.running m (⟨id, q, .call name args :: rest⟩ :: outer)) id q rest outer
      (call settings r room name args m) := by
  induction room generalizing m id q name args rest outer with
  | zero =>
    have hfull : settings.maxDepth ≤ m.stack.depth := by
      rw [roomLeft] at hroom
      omega
    cases hprepare : prepare r m.stack name args with
    | error e =>
      rw [call_of_error hprepare]
      exact .failed (.single (.callFails hprepare))
    | ok found =>
      rw [call_zero_of_ok hprepare]
      exact .failed (.single (.tooDeep hprepare hfull))
  | succ room ih =>
    cases hprepare : prepare r m.stack name args with
    | error e =>
      rw [call_of_error hprepare]
      exact .failed (.single (.callFails hprepare))
    | ok found =>
      obtain ⟨callee, values⟩ := found
      let record := callRecord m.stack callee values
      have hless : m.stack.depth < settings.maxDepth := by
        rw [roomLeft] at hroom
        omega
      have hroom' : room = roomLeft settings (entered settings record m) := by
        rw [roomLeft, depth_entered]
        rw [roomLeft] at hroom
        omega
      have hbody : Realizes settings r (.running (entered settings record m)
          (⟨m.stack.nextId, some callee, callee.block.body ++ []⟩ :: ⟨id, q, rest⟩ :: outer))
          m.stack.nextId (some callee) [] (⟨id, q, rest⟩ :: outer) _ :=
        statements_realize ih callee.block.body hroom'
      rw [List.append_nil] at hbody
      rw [call_succ_of_ok hprepare]
      refine Realizes.head (.single (.enter hprepare hless)) ?_
      -- leaving the callee is a step of its own, for a completed body and for a failed one
      generalize hanswer : statements r (call settings r room) callee.block.body
        (entered settings record m) = answer at hbody
      cases hbody with
      | done leads =>
        rw [within_eq_completed hanswer]
        exact .done (leads.tail .leave)
      | failed leads =>
        rw [within_eq_popped hanswer]
        exact .failed (leads.tail .unwind)

/-- The steps of a program lead to the outcome of its run. -/
theorem start_leads (settings : Settings) (r : Resolution) (p : Program) :
    Leads settings r (.start settings p) (.ended (p.run r settings)) := by
  let record : Record := { name := p.name.name }
  have hrun : p.run r settings =
    .after (program settings r p {}).1 (program settings r p {}).2 := rfl
  have hroom : (settings.maxDepth - 1).toNat =
      roomLeft settings (entered settings record {}) := by
    rw [roomLeft, depth_entered]
    rfl
  have hbody : Realizes settings r (.running (entered settings record {})
      [⟨0, none, p.block.body ++ []⟩]) 0 none [] [] _ :=
    statements_realize call_realizes p.block.body hroom
  rw [List.append_nil] at hbody
  generalize hanswer : statements r (call settings r (settings.maxDepth - 1).toNat) p.block.body
    (entered settings record {}) = answer at hbody
  cases hbody with
  | @done m' leads =>
    have hmain : (do
        statements r (call settings r (settings.maxDepth - 1).toNat) p.block.body
        ask fun s => .ok (s.topRecord?.elim [] Record.members) : Execution Bindings)
          (entered settings record {}) =
        (.ok (m'.stack.topRecord?.elim [] Record.members), m') := by
      rw [Stateful.bind_of_ok hanswer]
      rfl
    rw [hrun, program, within_eq_completed hmain]
    exact leads.tail .finish
  | failed leads =>
    rw [hrun, program, within_eq_popped (Stateful.bind_of_error hanswer)]
    exact leads.tail .fail

end Execution

end MiniPascal
