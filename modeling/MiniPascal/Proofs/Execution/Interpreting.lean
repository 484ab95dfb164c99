import MiniPascal.Execution.Interpreting
import MiniPascal.Proofs.Execution.Frame
import MiniPascal.Proofs.Resolution.Annotating

/-!
# Running and reporting at once

The interpreter gives the answers of a run, and it enters the error that it ends with, once: the
operation that goes wrong reports it, and the bodies around it only leave their records. The call
stack and the completed records are those of the run at the same point.
-/
namespace MiniPascal

structure Interpreter.Holds (i : Interpreter) (settings : Settings) (r : Resolution) (m : Machine) :
    Prop where
  settings : i.settings = settings
  resolution : i.resolution = r
  stack : i.stack = m.stack
  returned : i.returned = m.returned

theorem Interpreter.Holds.entered {i : Interpreter} {settings : Settings} {r : Resolution}
    {m : Machine} (hi : i.Holds settings r m)
    (record : Record) :
    Interpreter.Holds { i with stack := i.stack.enter record } settings r
      (Execution.entered settings record m) := by
  refine ⟨hi.settings, hi.resolution, ?_, ?_⟩
  · rw [Execution.stack_entered, hi.stack]
  · rw [Execution.returned_entered, hi.returned]

namespace Interpreting

variable {settings : Settings} {r : Resolution} {α β : Type}

/-- A computation changes nothing and finds out from the call stack what `F` does. -/
def Computes (settings : Settings) (r : Resolution) (x : Interpreting α)
    (F : CallStack → Except RunError α) : Prop :=
  ∀ ⦃i : Interpreter⦄, i.settings = settings → i.resolution = r → x.Ends i (F i.stack) i

/-- A computation does what a part of a run does. -/
def Follows (settings : Settings) (r : Resolution) (x : Interpreting α) (y : Execution α) : Prop :=
  ∀ ⦃i m⦄, i.Holds settings r m → ∃ i', x.Ends i (y m).1 i' ∧ i'.Holds settings r (y m).2

section

variable {x : Interpreting α} {f : α → Interpreting β}

theorem Computes.bind {F : CallStack → Except RunError α} {G : α → CallStack → Except RunError β}
    (hx : Computes settings r x F) (hf : ∀ a, Computes settings r (f a) (G a)) :
    Computes settings r (x >>= f) fun s => F s >>= fun a => G a s := by
  intro i hi hr
  have hx := hx hi hr
  dsimp only
  cases hF : F i.stack with
  | ok a =>
    rw [hF] at hx
    exact hx.bind (hf a hi hr)
  | error e =>
    rw [hF] at hx
    exact hx.bind_error

theorem computes_pure (a : α) : Computes settings r (pure a) fun _ => .ok a :=
  fun i _ _ => Stage.ends_pure i a

theorem computes_fail (t : Token) (c : Cause) :
    Computes settings r (fail t c : Interpreting α) fun _ => .error (.diagnostic (.atToken t c)) :=
  fun i _ _ => Stage.ends_fail _ i

theorem computes_throw {e : RunError} (he : e.diagnostic? = none) :
    Computes settings r (throw e : Interpreting α) fun _ => .error e :=
  fun i _ _ => Stage.ends_throw he i

/-- Something is found out about the settings or the resolution. -/
theorem Computes.asking {γ : Type} {g : Interpreter → γ} {v : γ} {k : γ → Interpreting α}
    {F : CallStack → Except RunError α}
    (hg : ∀ i : Interpreter, i.settings = settings → i.resolution = r → g i = v)
    (h : Computes settings r (k v) F) : Computes settings r (Stage.ask g >>= k) F := by
  intro i hi hr
  have hask := Stage.ends_ask g i (ε := RunError)
  rw [hg i hi hr] at hask
  exact hask.bind (h hi hr)

theorem computes_ask (g : CallStack → α) :
    Computes settings r (Stage.ask fun i => g i.stack) fun s => .ok (g s) :=
  fun i _ _ => Stage.ends_ask _ i

end

theorem computes_owner (t : Token) :
    Computes settings r (owner t) fun s => Execution.owner r s t := by
  refine Computes.asking (v := r) (fun i _ hr => hr) ?_
  unfold Execution.owner
  cases r.references.find? t.index with
  | none => exact computes_throw rfl
  | some v =>
    intro i hi hr
    refine (Stage.ends_ask Interpreter.stack i).bind ?_
    dsimp only
    cases i.stack.visible v.level with
    | none => exact Stage.ends_throw rfl i
    | some id => exact Stage.ends_pure i (id, v)

theorem computes_read (t : Token) :
    Computes settings r (read t) fun s => Execution.read r s t := by
  refine (computes_owner t).bind fun ⟨id, v⟩ => ?_
  intro i hi hr
  refine (Stage.ends_ask (fun i : Interpreter => i.stack.get? id) i).bind ?_
  dsimp only
  cases (i.stack.get? id).bind fun record => record.members.get? v.name with
  | none => exact Stage.ends_fail _ i
  | some value => exact Stage.ends_pure i value

theorem computes_operate (op : Token) (result : Except Value.OperationError Value) :
    Computes settings r (operate op result)
      fun _ => result.mapError (RunError.ofOperation op) := by
  cases result with
  | ok v => exact computes_pure v
  | error e =>
    cases e with
    | cause c => exact computes_fail op c
    | unknownOperator k => exact computes_throw rfl

theorem computes_evaluate : ∀ e : Expr,
    Computes settings r (evaluate e) fun s => Execution.evaluate r s e
  | .number _ v => computes_pure v
  | .variable t => computes_read t
  | .unary op e => (computes_evaluate e).bind fun _ => computes_operate op _
  | .binary left op right =>
    (computes_evaluate left).bind fun _ => (computes_evaluate right).bind fun _ =>
      computes_operate op _

theorem computes_evaluateAll (es : List Expr) :
    Computes settings r (evaluateAll es) fun s => Execution.evaluateAll r s es := by
  induction es with
  | nil => exact computes_pure []
  | cons e rest ih =>
    exact (computes_evaluate e).bind fun v => ih.bind fun values => computes_pure (v :: values)

theorem computes_prepare (name : Token) (args : List Expr) :
    Computes settings r (prepare name args) fun s => Execution.prepare r s name args := by
  refine Computes.asking (v := r) (fun i _ hr => hr) ?_
  unfold Execution.prepare
  cases r.calls.find? name.index with
  | none => exact computes_throw rfl
  | some p =>
    dsimp only
    split
    · exact (computes_evaluateAll args).bind fun values => computes_pure (p, values)
    · exact computes_fail name _

section

variable {x : Interpreting α} {y : Execution α}

theorem Follows.bind {f : α → Interpreting β} {g : α → Execution β} (hx : Follows settings r x y)
    (hf : ∀ a, Follows settings r (f a) (g a)) : Follows settings r (x >>= f) (y >>= g) := by
  intro i m hi
  obtain ⟨i', hx, hi'⟩ := hx hi
  rcases hy : y m with ⟨e | a, m'⟩
  · rw [hy] at hx hi'
    rw [Stateful.bind_of_error hy]
    exact ⟨i', hx.bind_error, hi'⟩
  · rw [hy] at hx hi'
    rw [Stateful.bind_of_ok hy]
    obtain ⟨i'', hf, hi''⟩ := hf a hi'
    exact ⟨i'', hx.bind hf, hi''⟩

theorem Computes.follows {F : CallStack → Except RunError α} (hx : Computes settings r x F) :
    Follows settings r x (Execution.ask F) := by
  intro i m hi
  have hx := hx hi.settings hi.resolution
  rw [hi.stack] at hx
  exact ⟨i, hx, hi⟩

theorem follows_pure (a : α) : Follows settings r (pure a) (pure a) :=
  fun i _ hi => ⟨i, Stage.ends_pure i a, hi⟩

end

theorem ends_log (event : List Record → CallEvent) (i : Interpreter) :
    (log event).Ends i (.ok ()) i := by
  refine (Stage.ends_ask Interpreter.settings i).bind ?_
  split
  · exact (Stage.ends_ask Interpreter.stack i).bind (Stage.ends_print _ i)
  · exact Stage.ends_pure i ()

theorem ends_enter (record : Record) (i : Interpreter) :
    (enter record).Ends i (.ok ()) { i with stack := i.stack.enter record } :=
  (Stage.ends_change _ i).bind (ends_log _ _)

theorem ends_leave (i : Interpreter) :
    leave.Ends i (.ok ()) { i with returned := i.stack.topRecord?.toList ++ i.returned } := by
  refine (Stage.ends_ask Interpreter.stack i).bind ?_
  cases i.stack.topRecord? with
  | none => exact Stage.ends_pure i ()
  | some record => exact (ends_log _ i).bind (Stage.ends_change _ i)

theorem Follows.within {x : Interpreting α} {y : Execution α} (hx : Follows settings r x y)
    (record : Record) :
    Follows settings r (within record x) (Execution.within settings record y) := by
  intro i m hi
  obtain ⟨i', hx, hi'⟩ := hx (hi.entered record)
  rcases hy : y (Execution.entered settings record m) with ⟨e | a, m'⟩
  · rw [hy] at hx hi'
    rw [Execution.within_eq_popped hy]
    have hbody : (do let a ← x; leave; return a : Interpreting α).Ends _ _ _ := hx.bind_error
    refine ⟨_, (ends_enter record i).bind (hbody.finishing _), ?_⟩
    exact ⟨hi'.settings, hi'.resolution, congrArg CallStack.pop hi'.stack, hi'.returned⟩
  · rw [hy] at hx hi'
    rw [Execution.within_eq_completed hy]
    have hbody : (do let a ← x; leave; return a : Interpreting α).Ends _ _ _ :=
      hx.bind ((ends_leave i').bind (Stage.ends_pure _ a))
    refine ⟨_, (ends_enter record i).bind (hbody.finishing _), ?_⟩
    refine ⟨hi'.settings, hi'.resolution, ?_, ?_⟩
    · rw [Execution.stack_completed, ← hi'.stack]
    · rw [Execution.returned_completed, ← hi'.stack, ← hi'.returned]

theorem follows_assign (target : Token) (value : Value) :
    Follows settings r (assign target value) (Execution.assign r target value) := by
  refine (computes_owner target).follows.bind fun ⟨id, v⟩ => ?_
  intro i m hi
  refine ⟨_, Stage.ends_change _ i, hi.settings, hi.resolution, ?_, hi.returned⟩
  exact congrArg (fun s => CallStack.set s id v.name value) hi.stack

section

variable {call : Token → List Expr → Interpreting Unit}
  {call' : Token → List Expr → Execution Unit}

mutual

theorem follows_statement
    (hcall : ∀ name args, Follows settings r (call name args) (call' name args)) : ∀ s : Stmt,
    Follows settings r (statement call s) (Execution.statement r call' s)
  | .compound _ children => follows_statements hcall children
  | .assign target _ value =>
    (computes_evaluate value).follows.bind fun v => follows_assign target v
  | .call name args => hcall name args
  | .empty => follows_pure ()

theorem follows_statements
    (hcall : ∀ name args, Follows settings r (call name args) (call' name args)) :
    ∀ ss : List Stmt,
    Follows settings r (statements call ss) (Execution.statements r call' ss)
  | [] => follows_pure ()
  | s :: rest => (follows_statement hcall s).bind fun _ => follows_statements hcall rest

end

end

theorem follows_call (room : Nat) (name : Token) (args : List Expr) :
    Follows settings r (call room name args) (Execution.call settings r room name args) := by
  induction room generalizing name args with
  | zero =>
    refine (computes_prepare name args).follows.bind fun ⟨p, values⟩ => ?_
    intro i m hi
    refine ⟨i, (Stage.ends_ask Interpreter.settings i).bind ?_, hi⟩
    rw [hi.settings]
    exact Stage.ends_fail _ i
  | succ room ih =>
    refine (computes_prepare name args).follows.bind fun ⟨p, values⟩ => ?_
    refine (computes_ask fun s => Execution.callRecord s p values).follows.bind fun record => ?_
    exact (follows_statements ih p.block.body).within record

theorem follows_program (p : Program) :
    Follows settings r (program p) (Execution.program settings r p) := by
  refine Follows.within (fun i m hi => ?_) _
  have hcall (name : Token) (args : List Expr) : Follows settings r _ _ :=
    follows_call (settings.maxDepth - 1).toNat name args
  have hbody := (follows_statements hcall p.block.body).bind fun _ =>
    (computes_ask fun s => s.topRecord?.elim [] Record.members).follows
  obtain ⟨i', hx, hi'⟩ := hbody hi
  refine ⟨i', (Stage.ends_ask Interpreter.settings i).bind ?_, hi'⟩
  rw [hi.settings]
  exact hx

/-- With a resolution, whatever was run before. -/
theorem ends_restart_program (p : Program) (r : Resolution) (i : Interpreter) :
    ∃ i', (do restart r; program p : Interpreting Bindings).Ends i
        (p.run r i.settings).result i' ∧
      i'.settings = i.settings ∧ i'.returned.reverse = (p.run r i.settings).returned := by
  have hstart : (restart r).Ends i (.ok ()) { settings := i.settings, resolution := r } :=
    Stage.ends_change _ i
  have hholds : Interpreter.Holds { settings := i.settings, resolution := r } i.settings r {} :=
    ⟨rfl, rfl, rfl, rfl⟩
  obtain ⟨i', hx, hi'⟩ := follows_program p hholds
  exact ⟨i', hstart.bind hx, hi'.settings, congrArg List.reverse hi'.returned⟩

/-- A program runs with the resolution that is given, or else with its own. -/
theorem ends_run (p : Program) (given : Option Resolution) (i : Interpreter) :
    let outcome := given.elim (p.resolveAndRun i.settings) fun r => p.run r i.settings
    ∃ i', (run p given).Ends i outcome.result i' ∧ i'.settings = i.settings ∧
      i'.returned.reverse = outcome.returned := by
  let cleared : Interpreter := { i with returned := [] }
  have hclear : (Stage.change fun i => { i with returned := [] } : Interpreting Unit).Ends i
      (.ok ()) cleared := Stage.ends_change _ i
  cases given with
  | some r =>
    obtain ⟨i', hx, hi'⟩ := ends_restart_program p r cleared
    exact ⟨i', hclear.bind ((Stage.ends_pure cleared r).bind hx), hi'⟩
  | none =>
    obtain ⟨output, _, hresolve, _⟩ := Annotating.ends_resolve p {}
    have hthrough := hresolve.through (ε := RunError) cleared
    rw [Option.elim, Program.resolveAndRun]
    cases hr : p.resolve.1 with
    | error d =>
      rw [hr] at hthrough
      have hresolution : (resolution p none).Ends cleared (.error (.diagnostic d)) cleared :=
        hthrough.bind_error
      exact ⟨cleared, hclear.bind hresolution.bind_error, rfl, rfl⟩
    | ok r =>
      rw [hr] at hthrough
      have hresolution : (resolution p none).Ends cleared (.ok r) cleared :=
        hthrough.bind (Stage.ends_pure cleared r)
      obtain ⟨i', hx, hi'⟩ := ends_restart_program p r cleared
      exact ⟨i', hclear.bind (hresolution.bind hx), hi'⟩

end Interpreting

end MiniPascal
