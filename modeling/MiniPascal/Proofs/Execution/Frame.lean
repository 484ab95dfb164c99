import MiniPascal.Proofs.CallStack
import MiniPascal.Proofs.Stateful
import MiniPascal.Proofs.Syntax.Nodes

/-!
# What running leaves alone

A run of statements ends with the same live records as it began, whether it succeeds or fails, and
all records are still there. This holds for every resolution, also for one that does not fit.
-/
namespace MiniPascal.Execution

variable {settings : Settings} {r : Resolution} {m m' : Machine} {α β : Type}

theorem ask_bind {f : CallStack → Except RunError α} {g : α → Execution β} :
    (ask f >>= g) m = match f m.stack with
      | .ok a => g a m
      | .error e => (.error e, m) := by
  have hask : ask f m = (f m.stack, m) := rfl
  cases hf : f m.stack with
  | ok a =>
    rw [hf] at hask
    exact Stateful.bind_of_ok hask
  | error e =>
    rw [hf] at hask
    exact Stateful.bind_of_error hask

def entered (settings : Settings) (record : Record) (m : Machine) : Machine :=
  (enter settings record m).2

theorem enter_eq (record : Record) :
    enter settings record m = (.ok (), entered settings record m) := rfl

theorem stack_entered (record : Record) :
    (entered settings record m).stack = m.stack.enter record := by
  change (if settings.logged then _ else _ : Machine).stack = _
  split <;> rfl

theorem returned_entered (settings : Settings) (record : Record) (m : Machine) :
    (entered settings record m).returned = m.returned := by
  change (if settings.logged then _ else _ : Machine).returned = _
  split <;> rfl

def popped (m : Machine) : Machine :=
  (pop m).2

def completed (settings : Settings) (m : Machine) : Machine :=
  popped (leave settings m).2

theorem leave_eq (settings : Settings) (m : Machine) :
    leave settings m = (.ok (), (leave settings m).2) := by
  have hget : (getThe Machine : Execution Machine) m = (.ok m, m) := rfl
  rw [leave, Stateful.bind_of_ok hget]
  cases m.stack.topRecord? with
  | none => rfl
  | some record => rfl

theorem stack_leave (settings : Settings) (m : Machine) :
    (leave settings m).2.stack = m.stack := by
  have hget : (getThe Machine : Execution Machine) m = (.ok m, m) := rfl
  rw [leave, Stateful.bind_of_ok hget]
  cases m.stack.topRecord? with
  | none => rfl
  | some record =>
    change (if settings.logged then _ else _ : Machine).stack = _
    split <;> rfl

theorem stack_completed (settings : Settings) (m : Machine) :
    (completed settings m).stack = m.stack.pop :=
  congrArg CallStack.pop (stack_leave settings m)

theorem returned_completed (settings : Settings) (m : Machine) :
    (completed settings m).returned = m.stack.topRecord?.toList ++ m.returned := by
  have hget : (getThe Machine : Execution Machine) m = (.ok m, m) := rfl
  rw [completed, leave, Stateful.bind_of_ok hget]
  cases m.stack.topRecord? with
  | none => rfl
  | some record =>
    change record :: (if settings.logged then _ else _ : Machine).returned = _
    split <;> rfl

theorem within_eq_completed {record : Record} {body : Execution α} {a : α}
    (h : body (entered settings record m) = (.ok a, m')) :
    within settings record body m = (.ok a, completed settings m') := by
  have hbody : (do
      let a ← body
      leave settings
      pop
      pure (Except.error a) : Execution (Except α α)) (entered settings record m) =
        (.ok (.error a), completed settings m') := by
    rw [Stateful.bind_of_ok h, Stateful.bind_of_ok (leave_eq settings m')]
    rfl
  rw [within, Stateful.bind_of_ok (enter_eq record)]
  exact (Stateful.bind_of_ok (Stateful.tryCatch_of_ok hbody)).trans rfl

theorem within_eq_popped {record : Record} {body : Execution α} {e : RunError}
    (h : body (entered settings record m) = (.error e, m')) :
    within settings record body m = (.error e, popped m') := by
  rw [within, Stateful.bind_of_ok (enter_eq record)]
  refine Stateful.bind_of_error ?_
  rw [Stateful.tryCatch_of_error (Stateful.bind_of_error h)]
  rfl

theorem within_of_ok {record : Record} {body : Execution α} {a : α}
    (h : body (entered settings record m) = (.ok a, m')) :
    ∃ m'', within settings record body m = (.ok a, m'') ∧ m''.stack = m'.stack.pop :=
  ⟨completed settings m', within_eq_completed h, stack_completed settings m'⟩

theorem within_of_error {record : Record} {body : Execution α} {e : RunError}
    (h : body (entered settings record m) = (.error e, m')) :
    ∃ m'', within settings record body m = (.error e, m'') ∧ m''.stack = m'.stack.pop :=
  ⟨popped m', within_eq_popped h, rfl⟩

/-- A new record is off the stack after its body, whatever the answer of the body is. -/
theorem exists_body_of_within {record : Record} {body : Execution α} {answer : Except RunError α}
    (h : within settings record body m = (answer, m')) :
    ∃ m'', body (entered settings record m) = (answer, m'') ∧ m'.stack = m''.stack.pop := by
  rcases hbody : body (entered settings record m) with ⟨e | a, m''⟩
  case error =>
    rw [within_eq_popped hbody] at h
    cases h
    exact ⟨m'', rfl, rfl⟩
  case ok =>
    rw [within_eq_completed hbody] at h
    cases h
    exact ⟨m'', rfl, stack_completed settings m''⟩

section

variable {name : Token} {args : List Expr} {callee : Procedure} {values : List Value} {room : Nat}

theorem callRecord_link_lt {s : CallStack} {callee : Procedure} {values : List Value} {outer : Nat}
    (h : (callRecord s callee values).link = some outer) : outer < s.nextId := by
  obtain ⟨id, _, hid⟩ := Option.bind_eq_some_iff.mp h
  exact CallStack.lt_nextId_of_enclosing hid

theorem call_of_error {e : RunError} (h : prepare r m.stack name args = .error e) (room : Nat) :
    call settings r room name args m = (.error e, m) := by
  cases room with
  | zero => rw [call, ask_bind, h]
  | succ room => rw [call, ask_bind, h]

theorem call_zero_of_ok (h : prepare r m.stack name args = .ok (callee, values)) :
    call settings r 0 name args m =
      (.error (.diagnostic (.atToken name (.depthExceeded callee.name settings.maxDepth))), m) := by
  rw [call, ask_bind, h]
  rfl

theorem call_succ_of_ok (h : prepare r m.stack name args = .ok (callee, values)) (room : Nat) :
    call settings r (room + 1) name args m = within settings (callRecord m.stack callee values)
      (statements r (call settings r room) callee.block.body) m := by
  rw [call, ask_bind, h]
  exact ask_bind

/-- A call fails at once, or it runs the body of its procedure within a new record. -/
theorem call_cases {answer : Except RunError Unit}
    (h : call settings r room name args m = (answer, m')) :
    ((∃ e, answer = .error e) ∧ m' = m) ∨
      ∃ less callee values, room = less + 1 ∧
        prepare r m.stack name args = .ok (callee, values) ∧
        within settings (callRecord m.stack callee values)
          (statements r (call settings r less) callee.block.body) m = (answer, m') := by
  cases hprepare : prepare r m.stack name args with
  | error e =>
    rw [call_of_error hprepare] at h
    cases h
    exact .inl ⟨⟨e, rfl⟩, rfl⟩
  | ok found =>
    obtain ⟨callee, values⟩ := found
    cases room with
    | zero =>
      rw [call_zero_of_ok hprepare] at h
      cases h
      exact .inl ⟨⟨_, rfl⟩, rfl⟩
    | succ less =>
      rw [call_succ_of_ok hprepare] at h
      exact .inr ⟨less, callee, values, rfl, rfl, h⟩

end

/-- Whatever the answer, the same records are live and all records are still there. -/
def Frames (x : Execution α) : Prop :=
  ∀ ⦃m answer m'⦄, x m = (answer, m') →
    m'.stack.live = m.stack.live ∧ m.stack.Extends m'.stack

theorem Frames.bind {x : Execution α} {g : α → Execution β} (hx : Frames x)
    (hg : ∀ a, Frames (g a)) : Frames (x >>= g) := by
  intro m answer m' h
  rcases hm : x m with ⟨e | a, m₁⟩
  case error =>
    rw [Stateful.bind_of_error hm] at h
    cases h
    exact hx hm
  case ok =>
    rw [Stateful.bind_of_ok hm] at h
    obtain ⟨hlive₁, hext₁⟩ := hx hm
    obtain ⟨hlive₂, hext₂⟩ := hg a h
    exact ⟨hlive₂.trans hlive₁, hext₁.trans hext₂⟩

theorem frames_ask (f : CallStack → Except RunError α) : Frames (ask f) := by
  intro m answer m' h
  cases h
  exact ⟨rfl, .refl _⟩

theorem frames_pure (a : α) : Frames (pure a) := by
  intro m answer m' h
  cases h
  exact ⟨rfl, .refl _⟩

theorem frames_throw (e : RunError) : Frames (throw e : Execution α) := by
  intro m answer m' h
  cases h
  exact ⟨rfl, .refl _⟩

theorem frames_assign (r : Resolution) (target : Token) (value : Value) :
    Frames (assign r target value) := by
  refine (frames_ask _).bind fun a => ?_
  intro m answer m' h
  cases h
  exact ⟨rfl, CallStack.extends_set _ _ _ _⟩

theorem frames_within {record : Record} {body : Execution α} (hb : Frames body) :
    Frames (within settings record body) := by
  intro m answer m' h
  obtain ⟨m₁, hbody, hstack⟩ := exists_body_of_within h
  obtain ⟨hlive, hext⟩ := hb hbody
  rw [stack_entered] at hlive hext
  rw [hstack]
  refine ⟨?_, (CallStack.extends_enter _ _).trans hext⟩
  rw [CallStack.pop, hlive]
  rfl

theorem frames_statements {call : Token → List Expr → Execution Unit}
    (hcall : ∀ name args, Frames (call name args)) (ss : List Stmt) :
    Frames (statements r call ss) := by
  induction ss using Stmt.sequence_induction with
  | nil => exact frames_pure ()
  | compound start children rest ihc ihr => exact ihc.bind fun _ => ihr
  | assign target op value rest ih =>
    exact ((frames_ask _).bind fun v => frames_assign r target v).bind fun _ => ih
  | call name args rest ih => exact (hcall name args).bind fun _ => ih
  | empty rest ih => exact (frames_pure ()).bind fun _ => ih

theorem frames_statement {call : Token → List Expr → Execution Unit}
    (hcall : ∀ name args, Frames (call name args)) (s : Stmt) : Frames (statement r call s) := by
  cases s with
  | compound start children => exact frames_statements hcall children
  | assign target op value => exact (frames_ask _).bind fun v => frames_assign r target v
  | call name args => exact hcall name args
  | empty => exact frames_pure ()

theorem frames_call (settings : Settings) (r : Resolution) (room : Nat) (name : Token)
    (args : List Expr) : Frames (call settings r room name args) := by
  induction room generalizing name args with
  | zero => exact (frames_ask _).bind fun _ => frames_throw _
  | succ room ih =>
    exact (frames_ask _).bind fun _ => (frames_ask _).bind fun _ =>
      frames_within (frames_statements ih _)

end MiniPascal.Execution
