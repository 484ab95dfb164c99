import MiniPascal.Proofs.Execution.Depth

/-!
# Activations and their returns

A run notes the record of each activation whose body is completed. `Trace` follows the steps of a
run and lists these activations, the first one first, each with its number and its record.

No number is given twice. So the completed activations and the live ones are all different, and a
completed one is never live again. While a run has not failed, the completed activations followed by
the live ones are a list that only ever gets longer: a call puts its number between the two parts,
and a return moves the border. Hence a callee returns before its caller. A failure moves no number
any more.
-/
namespace MiniPascal.Execution

variable {settings : Settings} {r : Resolution} {p : Program} {m : Machine} {id : Nat}
  {record : Record} {q : Option Procedure} {outer : List Task} {a b c : Moment}
  {done more before after : List (Nat × Record)}

namespace Moment

def ids (moment : Moment) : List Nat :=
  moment.tasks.map Task.record

def returned : Moment → List Record
  | running m _ => m.returned.reverse
  | failing _ m _ => m.returned.reverse
  | ended outcome => outcome.returned

/-- The activation that is about to be left because its body is complete, with its record. -/
def completes : Moment → List (Nat × Record)
  | running m (⟨id, _, []⟩ :: _) => (m.stack.get? id).toList.map fun record => (id, record)
  | _ => []

theorem mem_completes_iff :
    (id, record) ∈ a.completes ↔ ∃ m q outer, a = .running m (⟨id, q, []⟩ :: outer) ∧
      m.stack.get? id = some record := by
  constructor
  · intro h
    unfold completes at h
    split at h
    · obtain ⟨found, hfound, heq⟩ := List.mem_map.mp h
      cases heq
      exact ⟨_, _, _, rfl, Option.mem_toList.mp hfound⟩
    · cases h
  · rintro ⟨m, q, outer, rfl, hrecord⟩
    exact List.mem_map.mpr ⟨record, Option.mem_toList.mpr hrecord, rfl⟩

theorem completes_eq (h : m.stack.get? id = some record) :
    (running m (⟨id, q, []⟩ :: outer)).completes = [(id, record)] := by
  rw [completes, h]
  rfl

theorem completes_of_failure {e : RunError} (h : a.failure? = some e) : a.completes = [] := by
  cases a with
  | running m tasks => cases h
  | failing e m tasks => rfl
  | ended outcome => rfl

end Moment

/-- Steps lead from one moment to another, and on the way activations are completed. -/
inductive Trace (settings : Settings) (r : Resolution) :
    Moment → List (Nat × Record) → Moment → Prop
  | refl {a : Moment} : Trace settings r a [] a
  | head {a b c : Moment} {done : List (Nat × Record)} (first : Step settings r a b)
      (rest : Trace settings r b done c) : Trace settings r a (a.completes ++ done) c

theorem exists_trace (h : Leads settings r a b) : ∃ done, Trace settings r a done b := by
  induction h using Relation.ReflTransGen.head_induction_on with
  | refl => exact ⟨[], .refl⟩
  | head hstep _ ih =>
    obtain ⟨done, htrace⟩ := ih
    exact ⟨_, .head hstep htrace⟩

theorem Trace.leads (h : Trace settings r a done b) : Leads settings r a b := by
  induction h with
  | refl => exact .refl
  | head first rest ih => exact .head first ih

theorem Trace.trans (h : Trace settings r a before b) (h' : Trace settings r b after c) :
    Trace settings r a (before ++ after) c := by
  induction h with
  | refl => exact h'
  | head first rest ih =>
    rw [List.append_assoc]
    exact .head first (ih h')

theorem Trace.eq_nil_of_ended {o : Outcome} (h : Trace settings r (.ended o) done b) :
    done = [] := by
  cases h with
  | refl => rfl
  | head first rest => exact absurd first not_step_ended

/-- A run completes the same activations each time. -/
theorem Trace.unique {o o' : Outcome} (h : Trace settings r a done (.ended o))
    (h' : Trace settings r a more (.ended o')) : done = more := by
  generalize hend : Moment.ended o = last at h
  induction h generalizing more with
  | refl =>
    subst hend
    exact h'.eq_nil_of_ended.symm
  | head first rest ih =>
    cases h' with
    | refl => exact absurd first not_step_ended
    | head first' rest' =>
      cases first.deterministic first'
      rw [ih rest' hend]

theorem Trace.exists_completes {x : Nat × Record} (h : Trace settings r a done b) (hx : x ∈ done) :
    ∃ c, Leads settings r a c ∧ x ∈ c.completes := by
  induction h with
  | refl => cases hx
  | @head a b c done first rest ih =>
    rcases List.mem_append.mp hx with hx | hx
    · exact ⟨a, .refl, hx⟩
    · obtain ⟨c, hleads, hc⟩ := ih hx
      exact ⟨c, .head first hleads, hc⟩

/-- Nothing is completed after a failure. -/
theorem Trace.eq_nil_of_failure {e : RunError} (h : Trace settings r a done b)
    (ha : a.failure? = some e) : done = [] := by
  induction h with
  | refl => rfl
  | head first rest ih =>
    rw [Moment.completes_of_failure ha, ih (first.failure ha)]
    rfl

/-- At a moment the completed activations are accounted for: their records were noted in this
order, and their numbers are different from each other and from those of the live records. The
outermost live record is that of the program, with the number zero. -/
structure Moment.Accounted (settings : Settings) (done : List (Nat × Record)) (moment : Moment) :
    Prop extends moment.Sound settings where
  noted : moment.returned = done.map Prod.snd
  nodup : (done.map Prod.fst ++ moment.ids).Nodup
  made : ∀ id ∈ done.map Prod.fst ++ moment.ids, id < moment.stack.nextId
  bottom : ∀ id, moment.ids.getLast? = some id → id = 0

theorem Moment.accounted_start (settings : Settings) (p : Program) :
    (start settings p).Accounted settings [] := by
  have hstack : (start settings p).stack = CallStack.enter {} { name := p.name.name } :=
    stack_entered _
  refine { toSound := sound_start settings p, noted := ?_, nodup := List.nodup_singleton 0,
           made := fun id hid => ?_, bottom := fun id hid => ?_ }
  · exact congrArg List.reverse (returned_entered settings _ {})
  · rw [List.mem_singleton.mp hid, hstack]
    exact Nat.zero_lt_one
  · exact (Option.some.inj hid).symm

/-- An activation whose body is complete has a record, and it is the innermost one. -/
theorem Moment.Accounted.exists_record
    (h : (running m (⟨id, q, []⟩ :: outer)).Accounted settings done) :
    ∃ record, m.stack.get? id = some record ∧ m.stack.topRecord? = some record := by
  have hlt : id < m.stack.nextId := h.made id (List.mem_append_right _ List.mem_cons_self)
  obtain ⟨record, hget⟩ : ∃ record, m.stack.get? id = some record :=
    ⟨_, Array.getElem?_eq_getElem hlt⟩
  have hlive : m.stack.live = id :: outer.map Task.record := h.records.symm
  refine ⟨record, hget, ?_⟩
  rw [CallStack.topRecord?, CallStack.top?, hlive]
  exact hget

/-- A step that makes no record takes some numbers off the live ones; those of them that are
completed are noted. -/
theorem Moment.Accounted.onwards (ha : a.Accounted settings done) (gone : List Nat)
    (hb : b.Sound settings) (hnoted : b.returned = a.returned ++ more.map Prod.snd)
    (hids : a.ids = gone ++ b.ids) (hgone : (more.map Prod.fst).Sublist gone)
    (hnext : a.stack.nextId ≤ b.stack.nextId) : b.Accounted settings (done ++ more) := by
  have hsub : ((done ++ more).map Prod.fst ++ b.ids).Sublist (done.map Prod.fst ++ a.ids) := by
    rw [List.map_append, List.append_assoc, hids]
    exact (List.Sublist.refl _).append (hgone.append (List.Sublist.refl _))
  refine { toSound := hb, noted := ?_, nodup := ha.nodup.sublist hsub,
           made := fun id hid => ?_, bottom := fun id hid => ha.bottom id ?_ }
  · rw [hnoted, ha.noted, List.map_append]
  · exact Nat.lt_of_lt_of_le (ha.made id (hsub.subset hid)) hnext
  · rw [hids, List.getLast?_append, hid]
    rfl

theorem Step.accounted (h : Step settings r a b) (ha : a.Accounted settings done) :
    b.Accounted settings (done ++ a.completes) := by
  have hb := h.sound ha.toSound
  cases h with
  | skip | compound | valueFails | targetFails | callFails | tooDeep =>
    exact ha.onwards [] hb (List.append_nil _).symm rfl (List.Sublist.refl _)
      (Nat.le_refl _)
  | assign evaluated owned =>
    exact ha.onwards [] hb (List.append_nil _).symm rfl (List.Sublist.refl _)
      (CallStack.extends_set _ _ _ _).nextId_le
  | @enter m id q name args rest outer callee values prepared room =>
    let record := callRecord m.stack callee values
    have hstack : (entered settings record m).stack = m.stack.enter record := stack_entered _
    have hnext : (entered settings record m).stack.nextId = m.stack.nextId + 1 := by
      rw [hstack]
      exact Array.size_push _
    -- the new number is not smaller than any other
    have hfresh : m.stack.nextId ∉ done.map Prod.fst ++ _ := fun hmem =>
      Nat.lt_irrefl _ (ha.made _ hmem)
    change Moment.Accounted settings (done ++ []) _
    rw [List.append_nil]
    refine { toSound := hb, noted := ?_, nodup := ?_, made := fun j hj => ?_,
             bottom := fun j hj => ha.bottom j hj }
    · exact (congrArg List.reverse (returned_entered settings record m)).trans ha.noted
    · exact List.perm_middle.nodup_iff.mpr (List.nodup_cons.mpr ⟨hfresh, ha.nodup⟩)
    · change j < (entered settings record m).stack.nextId
      rw [hnext]
      rcases List.mem_cons.mp (List.perm_middle.mem_iff.mp hj) with rfl | hj
      · exact Nat.lt_succ_self _
      · exact Nat.lt_succ_of_lt (ha.made j hj)
  | leave | finish =>
    obtain ⟨record, hget, htop⟩ := ha.exists_record
    rw [Moment.completes_eq hget]
    refine ha.onwards [_] hb ?_ rfl (List.Sublist.refl _) ?_
    · have hreturned := (returned_completed settings _).trans (congrArg (·.toList ++ _) htop)
      exact (congrArg List.reverse hreturned).trans List.reverse_cons
    · exact Nat.le_of_eq (congrArg CallStack.nextId (stack_completed settings _)).symm
  | unwind | fail =>
    exact ha.onwards [_] hb (List.append_nil _).symm rfl (List.nil_sublist _)
      (Nat.le_refl _)

theorem Trace.accounted (h : Trace settings r a more b) (ha : a.Accounted settings done) :
    b.Accounted settings (done ++ more) := by
  induction h generalizing done with
  | refl =>
    rw [List.append_nil]
    exact ha
  | head first rest ih =>
    rw [← List.append_assoc]
    exact ih (first.accounted ha)

/-- A step before a failure completes a number or keeps it. -/
theorem Step.ids_sublist (h : Step settings r a b) (ha : a.Accounted settings done)
    (hnone : a.failure? = none) : a.ids.Sublist (a.completes.map Prod.fst ++ b.ids) := by
  cases h with
  | skip | compound | assign | valueFails | targetFails | callFails | tooDeep =>
    exact List.Sublist.refl _
  | enter prepared room => exact List.sublist_cons_self _ _
  | leave | finish =>
    obtain ⟨record, hget, _⟩ := ha.exists_record
    rw [Moment.completes_eq hget]
    exact List.Sublist.refl _
  | unwind | fail => cases hnone

/-- Live activations are completed in the order of the stack, unless they are never completed. -/
theorem Trace.exists_pending (h : Trace settings r a more b) (ha : a.Accounted settings done) :
    ∃ pending, a.ids.Sublist (more.map Prod.fst ++ pending) ∧
      ∀ id ∈ pending, id ∉ (done ++ more).map Prod.fst := by
  have hlive {a : Moment} {done : List (Nat × Record)} (ha : a.Accounted settings done) :
      ∀ id ∈ a.ids, id ∉ (done ++ []).map Prod.fst := by
    intro id hid hdone
    rw [List.append_nil] at hdone
    exact (List.nodup_append.mp ha.nodup).2.2 id hdone id hid rfl
  induction h generalizing done with
  | refl => exact ⟨_, List.Sublist.refl _, hlive ha⟩
  | @head a b c more first rest ih =>
    cases hfailure : a.failure? with
    | some e =>
      rw [(Trace.head first rest).eq_nil_of_failure hfailure]
      exact ⟨_, List.Sublist.refl _, hlive ha⟩
    | none =>
      obtain ⟨pending, hsub, hpending⟩ := ih (first.accounted ha)
      rw [List.append_assoc] at hpending
      refine ⟨pending, (first.ids_sublist ha hfailure).trans ?_, hpending⟩
      rw [List.map_append, List.append_assoc]
      exact (List.Sublist.refl _).append hsub

/-- A trace of a whole run can be cut at every moment of the run. -/
theorem Trace.exists_cut {o : Outcome} (h : Trace settings r (.start settings p) done (.ended o))
    (ha : Leads settings r (.start settings p) a) :
    ∃ before after, done = before ++ after ∧ a.Accounted settings before ∧
      Trace settings r a after (.ended o) := by
  obtain ⟨before, hbefore⟩ := exists_trace ha
  obtain ⟨after, hafter⟩ := exists_trace (ha.onwards h.leads)
  exact ⟨before, after, h.unique (hbefore.trans hafter),
    hbefore.accounted (Moment.accounted_start settings p), hafter⟩

section

variable {o : Outcome} (h : Trace settings r (.start settings p) done (.ended o))
include h

theorem Trace.mem_iff : (id, record) ∈ done ↔ ∃ m q outer,
    Leads settings r (.start settings p) (.running m (⟨id, q, []⟩ :: outer)) ∧
      m.stack.get? id = some record := by
  constructor
  · intro hmem
    obtain ⟨c, hleads, hc⟩ := h.exists_completes hmem
    obtain ⟨m, q, outer, rfl, hrecord⟩ := Moment.mem_completes_iff.mp hc
    exact ⟨m, q, outer, hleads, hrecord⟩
  · rintro ⟨m, q, outer, hleads, hrecord⟩
    obtain ⟨before, after, rfl, _, hafter⟩ := h.exists_cut hleads
    cases hafter with
    | head first rest =>
      rw [Moment.completes_eq hrecord]
      exact List.mem_append_right _ List.mem_cons_self

/-- What is above an activation on the stack is completed before it, the innermost first. -/
theorem Trace.sublist_of_mem {above below : List Task} {t : Task}
    (ha : Leads settings r (.start settings p) a) (htasks : a.tasks = above ++ t :: below)
    (ht : t.record ∈ done.map Prod.fst) :
    ((above ++ [t]).map Task.record).Sublist (done.map Prod.fst) := by
  obtain ⟨before, after, rfl, hacc, hafter⟩ := h.exists_cut ha
  obtain ⟨pending, hsub, hpending⟩ := hafter.exists_pending hacc
  have habove : ((above ++ [t]).map Task.record).Sublist a.ids := by
    rw [Moment.ids, htasks]
    exact ((List.Sublist.refl above).append (List.singleton_sublist.mpr List.mem_cons_self)).map _
  obtain ⟨front, back, heq, hfront, hback⟩ := List.sublist_append_iff.mp (habove.trans hsub)
  -- the number itself is not among those that stay pending, and it comes last
  have hnil : back = [] := by
    rcases List.eq_nil_or_concat' back with hnil | ⟨init, last, rfl⟩
    · exact hnil
    · rw [List.map_append, ← List.append_assoc] at heq
      obtain ⟨_, hlast⟩ := List.append_inj' heq rfl
      cases hlast
      exact absurd ht (hpending _ (hback.subset (List.mem_append_right _ List.mem_cons_self)))
  rw [hnil, List.append_nil] at heq
  rw [heq, List.map_append]
  exact hfront.trans (List.sublist_append_right _ _)

theorem Trace.not_mem_of_failing {e : RunError} {t : Task}
    (ha : Leads settings r (.start settings p) (.failing e m (t :: outer))) :
    t.record ∉ done.map Prod.fst := by
  obtain ⟨before, after, rfl, hacc, hafter⟩ := h.exists_cut ha
  rw [hafter.eq_nil_of_failure rfl, List.append_nil]
  intro hmem
  exact (List.nodup_append.mp hacc.nodup).2.2 _ hmem _ List.mem_cons_self rfl

/-- A run ends by completing the program, or by failing with nothing live but the program. -/
theorem Trace.end_cases :
    (∃ record front, done = front ++ [(0, record)] ∧ o.result = .ok record.members) ∨
      ∃ e, o.result = .error e ∧ 0 ∉ done.map Prod.fst := by
  rcases Relation.ReflTransGen.cases_tail h.leads with heq | ⟨c, hleads, hstep⟩
  · cases heq
  · obtain ⟨before, after, hdone, hacc, hafter⟩ := h.exists_cut hleads
    cases hstep with
    | @finish m id q =>
      obtain ⟨record, hget, htop⟩ := hacc.exists_record
      obtain rfl : id = 0 := hacc.bottom id rfl
      refine .inl ⟨record, before, ?_, ?_⟩
      · cases hafter with
        | head first rest =>
          cases first
          rw [hdone, Moment.completes_eq hget, rest.eq_nil_of_ended, List.append_nil]
      · rw [htop]
        rfl
    | @fail e m task =>
      have hzero : task.record = 0 := hacc.bottom _ rfl
      exact .inr ⟨e, rfl, hzero ▸ h.not_mem_of_failing hleads⟩

end

/-- A statement leaves the same records live, whether it is completed or fails, and after a run no
record is live. The records that a run has noted are those of the activations whose body was
completed, once each and as they were then: what was above an activation on the stack comes before
it, the program comes last, and an activation whose body has failed has none. -/
theorem every_return_is_noted_once (settings : Settings) (r : Resolution) (p : Program) :
    (∀ room s m answer m', statement r (call settings r room) s m = (answer, m') →
      m'.stack.live = m.stack.live ∧ m.stack.Extends m'.stack) ∧
    (p.run r settings).stack.live = [] ∧
    ∃ done : List (Nat × Record), (p.run r settings).returned = done.map Prod.snd ∧
      (done.map Prod.fst).Nodup ∧
      (∀ id record, (id, record) ∈ done ↔ ∃ m q outer,
        Leads settings r (.start settings p) (.running m (⟨id, q, []⟩ :: outer)) ∧
          m.stack.get? id = some record) ∧
      (∀ moment above t below, Leads settings r (.start settings p) moment →
        moment.tasks = above ++ t :: below → t.record ∈ done.map Prod.fst →
          ((above ++ [t]).map Task.record).Sublist (done.map Prod.fst)) ∧
      (∀ e m t outer, Leads settings r (.start settings p) (.failing e m (t :: outer)) →
        t.record ∉ done.map Prod.fst) ∧
      (∀ bindings, (p.run r settings).result = .ok bindings →
        ∃ record front, done = front ++ [(0, record)] ∧ record.members = bindings) ∧
      (∀ e, (p.run r settings).result = .error e → 0 ∉ done.map Prod.fst) := by
  obtain ⟨done, htrace⟩ := exists_trace (start_leads settings r p)
  have hacc := htrace.accounted (Moment.accounted_start settings p)
  refine ⟨fun room s m answer m' h => frames_statement (frames_call settings r room) s h,
    hacc.records.symm, done, hacc.noted, hacc.nodup.sublist (List.sublist_append_left _ _),
    fun id record => htrace.mem_iff, fun moment above t below => htrace.sublist_of_mem,
    fun e m t outer => htrace.not_mem_of_failing, fun bindings hrun => ?_, fun e hrun => ?_⟩
  · rcases htrace.end_cases with ⟨record, front, hdone, hresult⟩ | ⟨e, hresult, _⟩
    · exact ⟨record, front, hdone, Except.ok.inj (hresult.symm.trans hrun)⟩
    · cases hresult.symm.trans hrun
  · rcases htrace.end_cases with ⟨record, front, _, hresult⟩ | ⟨e', _, hzero⟩
    · cases hresult.symm.trans hrun
    · exact hzero

/-- The procedure `g` returns, and `f`, which has called it, divides by zero after that. -/
theorem every_return_is_noted_once_division :
    let source := ("program p; var x : integer; procedure g; begin x := 2 end; " ++
      "procedure f; begin g(); x := x div 0 end; begin f() end.").toList.map fun c =>
        c.toNat.toUInt8
    ∃ p r, Program.ofSource "p.pas" source = .ok p ∧ p.resolve.1 = .ok r ∧
      (p.run r).stack.live = [] ∧
      ∃ done : List (Nat × Record), (p.run r).returned = done.map Prod.snd ∧
        done.map (fun x => x.2.name) = ["g"] ∧ (∃ e, (p.run r).result = .error e) ∧
        0 ∉ done.map Prod.fst := by
  intro source
  obtain ⟨p, r, hp, hr, hrun⟩ : ∃ p r, Program.ofSource "p.pas" source = .ok p ∧
      p.resolve.1 = .ok r ∧ ((Moment.ended (p.run r)).failure?.isSome &&
        (p.run r).returned.map Record.name == ["g"]) = true :=
    Program.exists_resolved (by decide +kernel)
  obtain ⟨hfails, hnames⟩ := Bool.and_eq_true_iff.mp hrun
  obtain ⟨e, he⟩ := Option.isSome_iff_exists.mp hfails
  obtain ⟨_, hempty, done, hreturned, _, _, _, _, _, hprogram⟩ :=
    every_return_is_noted_once {} r p
  have hresult := Moment.failure?_ended.mp he
  refine ⟨p, r, hp, hr, hempty, done, hreturned, ?_, ⟨e, hresult⟩, hprogram e hresult⟩
  rw [hreturned, List.map_map] at hnames
  exact beq_iff_eq.mp hnames

end MiniPascal.Execution
