import MiniPascal.Proofs.Execution.Steps
import MiniPascal.Proofs.Resolution
import MiniPascal.Proofs.Value

/-!
# The depth of the call stack

Every run ends, for every resolution, also for one in which procedures call each other in circles.
At every moment there are at most as many live records as the limit allows, or one if it allows
none. A run is reported to be too deep exactly where a call finds no room for its record.

The limit changes nothing but this: an outcome that is not cut off by a limit is the outcome under
every higher limit.
-/
namespace MiniPascal

def RunError.isOverflow (e : RunError) : Bool :=
  e.diagnostic?.any fun d => d.code == .stackOverflow

namespace Execution

section

variable {r : Resolution} {s : CallStack} {α β : Type}

def NoOverflow (x : Except RunError α) : Prop :=
  ∀ e, x = .error e → e.isOverflow = false

theorem noOverflow_ok (a : α) : NoOverflow (.ok a : Except RunError α) := by
  intro e h
  cases h

theorem noOverflow_error {e : RunError} (h : e.isOverflow = false) :
    NoOverflow (.error e : Except RunError α) := by
  intro e' he
  cases he
  exact h

theorem NoOverflow.bind {x : Except RunError α} {f : α → Except RunError β} (hx : NoOverflow x)
    (hf : ∀ a, NoOverflow (f a)) : NoOverflow (x >>= f) := by
  cases x with
  | error e => exact noOverflow_error (hx e rfl)
  | ok a => exact hf a

/-- A diagnostic about an operation has one of the codes of its causes. -/
theorem code_of_operation {op : Token} {x : Except Value.OperationError Value}
    (hx : ∀ c, x = .error (.cause c) → c.code ∈ Value.operationCodes) {d : Diagnostic}
    (h : x.mapError (RunError.ofOperation op) = .error (.diagnostic d)) :
    d.code ∈ Value.operationCodes := by
  match x with
  | .ok v => cases h
  | .error (.unknownOperator k) => cases h
  | .error (.cause c) =>
    cases h
    exact hx c rfl

theorem noOverflow_operation (op : Token) {x : Except Value.OperationError Value}
    (hx : ∀ c, x = .error (.cause c) → c.code ∈ Value.operationCodes) :
    NoOverflow (x.mapError (RunError.ofOperation op)) := by
  intro e he
  cases e with
  | diagnostic d =>
    refine beq_eq_false_iff_ne.mpr fun hcode => ?_
    have hmem := code_of_operation hx he
    rw [hcode] at hmem
    exact absurd hmem (by decide)
  | unresolvedReference | unresolvedCall | noFrame | unexpectedOperator => rfl

theorem noOverflow_owner (r : Resolution) (s : CallStack) (t : Token) :
    NoOverflow (owner r s t) := by
  unfold owner
  split
  · exact noOverflow_error rfl
  · split
    · exact noOverflow_error rfl
    · exact noOverflow_ok _

theorem noOverflow_read (r : Resolution) (s : CallStack) (t : Token) :
    NoOverflow (read r s t) := by
  refine (noOverflow_owner r s t).bind fun (id, v) => ?_
  dsimp only
  cases (s.get? id).bind fun record => record.members.get? v.name with
  | some value => exact noOverflow_ok value
  | none => exact noOverflow_error rfl

theorem noOverflow_evaluate (r : Resolution) (s : CallStack) : ∀ e, NoOverflow (evaluate r s e)
  | .number _ v => noOverflow_ok v
  | .variable t => noOverflow_read r s t
  | .unary op operand =>
    (noOverflow_evaluate r s operand).bind fun _ =>
      noOverflow_operation op fun _ => Value.code_of_unary
  | .binary left op right =>
    (noOverflow_evaluate r s left).bind fun _ => (noOverflow_evaluate r s right).bind fun _ =>
      noOverflow_operation op fun _ => Value.code_of_binary

theorem noOverflow_evaluateAll (r : Resolution) (s : CallStack) (es : List Expr) :
    NoOverflow (evaluateAll r s es) := by
  induction es with
  | nil => exact noOverflow_ok []
  | cons e rest ih =>
    exact (noOverflow_evaluate r s e).bind fun v => ih.bind fun vs => noOverflow_ok (v :: vs)

theorem noOverflow_prepare (r : Resolution) (s : CallStack) (name : Token) (args : List Expr) :
    NoOverflow (prepare r s name args) := by
  unfold prepare
  split
  · exact noOverflow_error rfl
  · split
    · exact (noOverflow_evaluateAll r s args).bind fun values => noOverflow_ok _
    · exact noOverflow_error rfl

end

/-- At a call whose arguments have values, and there is no room for its record. -/
inductive Moment.FullCall (settings : Settings) (r : Resolution) : Moment → Prop
  | mk {m : Machine} {id : Nat} {q : Option Procedure} {name : Token} {args : List Expr}
      {rest : List Stmt} {outer : List Task} {callee : Procedure} {values : List Value}
      (prepared : prepare r m.stack name args = .ok (callee, values))
      (full : settings.maxDepth ≤ m.stack.depth) :
      FullCall settings r (.running m (⟨id, q, .call name args :: rest⟩ :: outer))

/-- An error is raised at a step: there was none before. -/
structure Raises (settings : Settings) (r : Resolution) (a b : Moment) (e : RunError) : Prop where
  step : Step settings r a b
  before : a.failure? = none
  failure : b.failure? = some e

def ReportsOverflow (a b : Moment) : Prop :=
  a.failure? = none ∧ ∃ e, b.failure? = some e ∧ e.isOverflow = true

/-- What holds at every moment of a run: the tasks are those of the live records, of which there
are not more than the limit allows, and static links lead back. -/
structure Moment.Sound (settings : Settings) (moment : Moment) : Prop where
  records : moment.tasks.map Task.record = moment.stack.live
  depth_le : moment.stack.depth ≤ max 1 settings.maxDepth
  linksBack : moment.stack.LinksBack

variable {settings : Settings} {r : Resolution} {p : Program} {a b : Moment} {m m' : Machine}

theorem Moment.Sound.depth_eq (h : a.Sound settings) : a.stack.depth = a.tasks.length := by
  rw [CallStack.depth, ← h.records, List.length_map]

theorem Moment.sound_start (settings : Settings) (p : Program) :
    (start settings p).Sound settings := by
  have hstack : (start settings p).stack = CallStack.enter {} { name := p.name.name } :=
    stack_entered _
  refine ⟨?_, ?_, ?_⟩
  · rw [hstack]
    rfl
  · rw [hstack]
    exact Int.le_max_left _ _
  · rw [hstack]
    refine CallStack.LinksBack.enter (fun id record outer hid => ?_) fun outer houter => ?_
    · cases hid
    · cases houter

/-- A stack without its innermost record keeps what holds of it. -/
theorem Moment.Sound.pop {task : Task} (h : a.Sound settings)
    (hstack : b.stack = a.stack.pop) (htasks : a.tasks = task :: b.tasks) : b.Sound settings := by
  have hrecords := h.records
  rw [htasks, List.map_cons] at hrecords
  have hlive : b.stack.live = a.stack.live.tail := congrArg CallStack.live hstack
  refine ⟨?_, ?_, ?_⟩
  · rw [hlive, ← hrecords]
    rfl
  · have hle := h.depth_le
    rw [h.depth_eq, htasks, List.length_cons] at hle
    rw [CallStack.depth, hlive, ← hrecords, List.tail_cons, List.length_map]
    omega
  · rw [hstack]
    exact h.linksBack

theorem Step.sound (h : Step settings r a b) (ha : a.Sound settings) : b.Sound settings := by
  cases h with
  | skip | compound | valueFails | targetFails | callFails | tooDeep =>
    exact ⟨ha.records, ha.depth_le, ha.linksBack⟩
  | assign evaluated owned => exact ⟨ha.records, ha.depth_le, ha.linksBack.set _ _ _⟩
  | @enter m id q name args rest outer callee values prepared room =>
    let record := callRecord m.stack callee values
    have hstack : (entered settings record m).stack = m.stack.enter record := stack_entered _
    refine ⟨?_, ?_, ?_⟩
    · change m.stack.nextId :: _ = (entered settings record m).stack.live
      rw [hstack]
      exact congrArg (List.cons _) ha.records
    · change ((entered settings record m).stack.depth : Int) ≤ _
      rw [depth_entered]
      omega
    · change (entered settings record m).stack.LinksBack
      rw [hstack]
      exact CallStack.LinksBack.enter ha.linksBack fun outer => callRecord_link_lt
  | leave => exact ha.pop (stack_completed settings _) rfl
  | finish => exact ha.pop (stack_completed settings _) rfl
  | unwind => exact ha.pop rfl rfl
  | fail => exact ha.pop rfl rfl

theorem Leads.sound (h : Leads settings r a b) (ha : a.Sound settings) : b.Sound settings := by
  induction h with
  | refl => exact ha
  | tail _ hstep ih => exact hstep.sound ih

/-- A failure stays the failure of the run. -/
theorem Step.failure (h : Step settings r a b) {e : RunError} (ha : a.failure? = some e) :
    b.failure? = some e := by
  cases h with
  | unwind | fail => exact ha
  | _ => cases ha

theorem Step.reportsOverflow_iff (h : Step settings r a b) :
    ReportsOverflow a b ↔ a.FullCall settings r := by
  constructor
  · rintro ⟨hnone, e, he, hover⟩
    have hno {α : Type} {x : Except RunError α} (hx : NoOverflow x) {e' : RunError}
        (hfails : x = .error e') (heq : some e' = some e) : False := by
      rw [← Option.some.inj heq, hx e' hfails] at hover
      cases hover
    cases h with
    | skip | compound | assign | enter | leave | finish => cases he
    | unwind | fail => cases hnone
    | valueFails evaluated => exact (hno (noOverflow_evaluate r _ _) evaluated he).elim
    | targetFails evaluated owned => exact (hno (noOverflow_owner r _ _) owned he).elim
    | callFails prepared => exact (hno (noOverflow_prepare r _ _ _) prepared he).elim
    | tooDeep prepared full => exact .mk prepared full
  · rintro ⟨prepared, full⟩
    cases h.deterministic (.tooDeep prepared full)
    exact ⟨rfl, _, rfl, rfl⟩

/-- A call that finds no room makes no record. -/
theorem Step.stack_of_fullCall (h : Step settings r a b) (ha : a.FullCall settings r) :
    b.stack = a.stack := by
  cases ha with
  | mk prepared full =>
    cases h.deterministic (.tooDeep prepared full)
    rfl

theorem Leads.failure (h : Leads settings r a b) {e : RunError} (ha : a.failure? = some e) :
    b.failure? = some e := by
  induction h with
  | refl => exact ha
  | tail _ hstep ih => exact hstep.failure ih

/-- A run that has failed has raised its error at some step. -/
theorem exists_raises (h : Leads settings r a b) (ha : a.failure? = none) {e : RunError}
    (hb : b.failure? = some e) : ∃ c d, Leads settings r a c ∧ Raises settings r c d e := by
  induction h with
  | refl =>
    rw [ha] at hb
    cases hb
  | @tail c d hleads hstep ih =>
    cases hc : c.failure? with
    | none => exact ⟨c, d, hleads, hstep, hc, hb⟩
    | some e' =>
      have hsame : some e' = some e := (hstep.failure hc).symm.trans hb
      exact ih (hc.trans hsame)

/-- After the step that raises an error there is no moment without one. -/
theorem Raises.eq_of_leads {c : Moment} {e : RunError} (h : Raises settings r a b e)
    (hleads : Leads settings r a c) (hnone : c.failure? = none) : a = c := by
  rcases hleads.cases_head with heq | ⟨b', hstep, hrest⟩
  · exact heq
  · cases h.step.deterministic hstep
    cases hnone.symm.trans (Leads.failure hrest h.failure)

/-- A run raises an error at one step only. -/
theorem Raises.unique {start c d : Moment} {e e' : RunError} (h : Raises settings r a b e)
    (h' : Raises settings r c d e') (ha : Leads settings r start a)
    (hc : Leads settings r start c) : a = c := by
  rcases Relation.ReflTransGen.total_of_right_unique rightUnique_step ha hc with hac | hca
  · exact h.eq_of_leads hac h'.before
  · exact (h'.eq_of_leads hca h.before).symm

theorem Moment.failure?_ended {o : Outcome} {e : RunError} :
    (Moment.ended o).failure? = some e ↔ o.result = .error e := by
  rw [Moment.failure?]
  cases o.result with
  | ok b => exact ⟨nofun, nofun⟩
  | error e' => rw [Option.some.injEq, Except.error.injEq]

/-- The error of a run is what it has raised. -/
theorem run_raises_iff (settings : Settings) (r : Resolution) (p : Program) (e : RunError) :
    (p.run r settings).result = .error e ↔
      ∃ a b, Leads settings r (.start settings p) a ∧ Raises settings r a b e := by
  constructor
  · intro hresult
    exact exists_raises (start_leads settings r p) rfl (Moment.failure?_ended.mpr hresult)
  · rintro ⟨a, b, hleads, hraises⟩
    have hend := Leads.onwards (hleads.tail hraises.step) (start_leads settings r p)
    exact Moment.failure?_ended.mp (hend.failure hraises.failure)

/-- A run that fails raises its error at one step, and a run that succeeds raises none. -/
theorem run_raises_once (settings : Settings) (r : Resolution) (p : Program) (e : RunError) :
    (p.run r settings).result = .error e ↔
      ∃! a, Leads settings r (.start settings p) a ∧ ∃ b, Raises settings r a b e := by
  rw [run_raises_iff]
  constructor
  · rintro ⟨a, b, hleads, hraises⟩
    refine ⟨a, ⟨hleads, b, hraises⟩, ?_⟩
    rintro c ⟨hleads', d, hraises'⟩
    exact hraises'.unique hraises hleads' hleads
  · rintro ⟨a, ⟨hleads, b, hraises⟩, _⟩
    exact ⟨a, b, hleads, hraises⟩

theorem run_isOverflow_iff (settings : Settings) (r : Resolution) (p : Program) :
    (∃ e, (p.run r settings).result = .error e ∧ e.isOverflow = true) ↔
      ∃ moment, Leads settings r (.start settings p) moment ∧ moment.FullCall settings r := by
  constructor
  · rintro ⟨e, hresult, he⟩
    obtain ⟨moment, next, hleads, hraises⟩ := (run_raises_iff settings r p e).mp hresult
    refine ⟨moment, hleads, hraises.step.reportsOverflow_iff.mp ?_⟩
    exact ⟨hraises.before, e, hraises.failure, he⟩
  · rintro ⟨moment, hleads, hfull⟩
    cases hfull with
    | mk prepared full =>
      exact ⟨_, (run_raises_iff settings r p _).mpr
        ⟨_, _, hleads, .tooDeep prepared full, rfl, rfl⟩, rfl⟩

/-- Every run ends, whatever the program, the resolution and the limit are: there is no endless
sequence of steps, and from every moment steps lead to the outcome of the run. At every moment the
live records are as many as the limit allows, or fewer, the record of the program apart. The run is
reported to be too deep at a call whose arguments have values and that finds no room, at no other
step, and then no record is made. -/
theorem runs_end_within_the_limit (settings : Settings) (r : Resolution) (p : Program) :
    Acc (fun next moment => Step settings r moment next) (.start settings p) ∧
    (∀ moment, Leads settings r (.start settings p) moment →
      Leads settings r moment (.ended (p.run r settings)) ∧
        moment.stack.depth ≤ max 1 settings.maxDepth ∧ moment.stack.LinksBack) ∧
    (∀ a b, Leads settings r (.start settings p) a → Step settings r a b →
      (ReportsOverflow a b ↔ a.FullCall settings r) ∧
        (a.FullCall settings r → b.stack = a.stack)) ∧
    ((∃ e, (p.run r settings).result = .error e ∧ e.isOverflow = true) ↔
      ∃ moment, Leads settings r (.start settings p) moment ∧ moment.FullCall settings r) := by
  have hend := start_leads settings r p
  refine ⟨hend.acc, fun moment h => ?_, fun a b _ hstep => ?_, run_isOverflow_iff settings r p⟩
  · have hsound := h.sound (Moment.sound_start settings p)
    exact ⟨h.onwards hend, hsound.depth_le, hsound.linksBack⟩
  · exact ⟨hstep.reportsOverflow_iff, hstep.stack_of_fullCall⟩

/-- A procedure that calls itself, with room for three records. -/
theorem runs_end_within_the_limit_three :
    let source := "program p; procedure f; begin f() end; begin f() end.".toList.map fun c =>
      c.toNat.toUInt8
    let settings : Settings := { maxDepth := 3 }
    ∃ p r moment, Program.ofSource "p.pas" source = .ok p ∧ p.resolve.1 = .ok r ∧
      Leads settings r (.start settings p) moment ∧ moment.FullCall settings r ∧
      moment.stack.depth = 3 := by
  intro source settings
  obtain ⟨p, r, hp, hr, hover⟩ : ∃ p r, Program.ofSource "p.pas" source = .ok p ∧
      p.resolve.1 = .ok r ∧
        (Moment.ended (p.run r settings)).failure?.any RunError.isOverflow = true :=
    Program.exists_resolved (by decide +kernel)
  obtain ⟨e, hfails, hdeep⟩ := (Option.any_eq_true _ _).mp hover
  obtain ⟨_, hmoments, _, hoverflow⟩ := runs_end_within_the_limit settings r p
  obtain ⟨moment, hleads, hfull⟩ := hoverflow.mp ⟨e, Moment.failure?_ended.mp hfails, hdeep⟩
  have hle : (moment.stack.depth : Int) ≤ max 1 3 := (hmoments moment hleads).2.1
  have hge : (3 : Int) ≤ moment.stack.depth := by
    cases hfull with
    | mk prepared full => exact full
  exact ⟨p, r, moment, hp, hr, hleads, hfull, by omega⟩

section

variable {α β : Type} {d d' : Int}

/-- One computation answers as another does, unless the other is cut off by its limit. -/
def Below (x y : Execution α) : Prop :=
  ∀ ⦃m answer m'⦄, x m = (answer, m') → NoOverflow answer → y m = (answer, m')

theorem Below.refl (x : Execution α) : Below x x :=
  fun _ _ _ h _ => h

theorem Below.bind {x y : Execution α} {f g : α → Execution β} (hx : Below x y)
    (hf : ∀ a, Below (f a) (g a)) : Below (x >>= f) (y >>= g) := by
  intro m answer m' h hanswer
  rcases hm : x m with ⟨e | a, m₁⟩
  case error =>
    rw [Stateful.bind_of_error hm] at h
    cases h
    exact Stateful.bind_of_error (hx hm (noOverflow_error (hanswer e rfl)))
  case ok =>
    rw [Stateful.bind_of_ok hm] at h
    rw [Stateful.bind_of_ok (hx hm (noOverflow_ok a))]
    exact hf a h hanswer

theorem Below.within {record : Record} {x y : Execution α} (hx : Below x y) :
    Below (within { settings with maxDepth := d } record x)
      (within { settings with maxDepth := d' } record y) := by
  -- the limit has no part in entering and leaving, so both machines are the same by definition
  intro m answer m' h hanswer
  rcases hm : x (entered { settings with maxDepth := d } record m) with ⟨e | a, m₁⟩
  case error =>
    rw [within_eq_popped hm] at h
    cases h
    exact within_eq_popped (hx hm hanswer)
  case ok =>
    rw [within_eq_completed hm] at h
    cases h
    exact within_eq_completed (hx hm hanswer)

theorem below_statements {call call' : Token → List Expr → Execution Unit}
    (hcall : ∀ name args, Below (call name args) (call' name args)) (ss : List Stmt) :
    Below (statements r call ss) (statements r call' ss) := by
  induction ss using Stmt.sequence_induction with
  | nil => exact .refl _
  | compound start children rest ihc ihr => exact ihc.bind fun _ => ihr
  | assign target op value rest ih => exact (Below.refl _).bind fun _ => ih
  | call name args rest ih => exact (hcall name args).bind fun _ => ih
  | empty rest ih => exact (Below.refl _).bind fun _ => ih

/-- More room and a higher limit change the answer of a call only if it was cut off. -/
theorem below_call {room room' : Nat} (hroom : room ≤ room') (name : Token) (args : List Expr) :
    Below (call { settings with maxDepth := d } r room name args)
      (call { settings with maxDepth := d' } r room' name args) := by
  induction room generalizing room' name args with
  | zero =>
    intro m answer m' h hanswer
    cases hprepare : prepare r m.stack name args with
    | ok found =>
      rw [call_zero_of_ok hprepare] at h
      cases h
      cases hanswer _ rfl
    | error e =>
      rw [call_of_error hprepare] at h
      rw [call_of_error hprepare, h]
  | succ room ih =>
    obtain ⟨room', rfl⟩ := Nat.exists_eq_succ_of_ne_zero (Nat.ne_of_gt (Nat.zero_lt_of_lt hroom))
    rw [call, call]
    refine (Below.refl _).bind fun found => ?_
    obtain ⟨callee, values⟩ := found
    refine (Below.refl _).bind fun record => ?_
    exact (below_statements (ih (by omega)) _).within

theorem below_program (settings : Settings) (r : Resolution) (p : Program) (hle : d ≤ d') :
    Below (program { settings with maxDepth := d } r p)
      (program { settings with maxDepth := d' } r p) := by
  have hroom : (d - 1).toNat ≤ (d' - 1).toNat := by omega
  exact ((below_statements (below_call hroom) _).bind fun _ => .refl _).within

theorem Below.run_eq {settings' : Settings}
    (h : Below (program settings r p) (program settings' r p))
    (hresult : NoOverflow (p.run r settings).result) : p.run r settings' = p.run r settings := by
  have hrun (settings : Settings) : p.run r settings =
    .after (program settings r p {}).1 (program settings r p {}).2 := rfl
  rcases hm : program settings r p {} with ⟨answer, m⟩
  rw [hrun, hm] at hresult
  rw [hrun, hrun, hm, h hm hresult]

/-- An outcome that is not cut off by a limit is the outcome under every higher limit: the same
result, and the same records returned in the same order. -/
theorem limit_only_cuts_off (settings : Settings) (r : Resolution) (p : Program) {d d' : Int}
    (hle : d ≤ d') (hresult : ∀ e, (p.run r { settings with maxDepth := d }).result = .error e →
      e.isOverflow = false) :
    p.run r { settings with maxDepth := d' } = p.run r { settings with maxDepth := d } :=
  (below_program settings r p hle).run_eq hresult

/-- A run that divides by zero after one procedure has returned, with room for three records. -/
theorem limit_only_cuts_off_division :
    let source := ("program p; var x : integer; procedure g; begin x := 2 end; " ++
      "procedure f; begin g(); x := x div 0 end; begin f() end.").toList.map fun c =>
        c.toNat.toUInt8
    ∃ p r, Program.ofSource "p.pas" source = .ok p ∧ p.resolve.1 = .ok r ∧
      (p.run r { maxDepth := 3 }).result.toOption = none ∧
      (p.run r { maxDepth := 3 }).returned.length = 1 ∧
      p.run r { maxDepth := 1000 } = p.run r { maxDepth := 3 } := by
  intro source
  obtain ⟨p, r, hp, hr, hrun⟩ : ∃ p r, Program.ofSource "p.pas" source = .ok p ∧
      p.resolve.1 = .ok r ∧
        ((Moment.ended (p.run r { maxDepth := 3 })).failure?.any (fun e => !e.isOverflow) &&
          (p.run r { maxDepth := 3 }).returned.length == 1) = true :=
    Program.exists_resolved (by decide +kernel)
  obtain ⟨hresult, hreturned⟩ := Bool.and_eq_true_iff.mp hrun
  obtain ⟨e, hended, he⟩ := (Option.any_eq_true _ _).mp hresult
  have hfails := Moment.failure?_ended.mp hended
  refine ⟨p, r, hp, hr, congrArg Except.toOption hfails, beq_iff_eq.mp hreturned,
    limit_only_cuts_off {} r p (by decide) fun e' he' => ?_⟩
  cases hfails.symm.trans he'
  exact Bool.not_eq_true' _ ▸ he

end

end Execution

end MiniPascal
