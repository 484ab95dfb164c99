import MiniPascal.Proofs.Execution.StaticChain

/-!
# What a call can change

The records that a routine can reach are those on its static chain. A call changes values only in
records that its new record can reach: on the chain that starts at its static link, and in records
made during the call. All other records are left as they are, whether the call is completed or
fails.

The proof follows a region of records: links do not lead out of it, and it holds the innermost live
record and every record yet to be made. A run only changes the region that it starts in.
-/
namespace MiniPascal

namespace CallStack

variable {s : CallStack} {region : Nat → Prop} {id j : Nat}

/-- A record is on the static chain that starts at another. -/
inductive OnChain (s : CallStack) : Nat → Nat → Prop
  | start {id : Nat} : OnChain s id id
  | link {first id outer : Nat} {record : Record} (inner : OnChain s first id)
      (found : s.get? id = some record) (linked : record.link = some outer) : OnChain s first outer

/-- A chain is over at a record without a link. -/
theorem OnChain.eq_of_unlinked (h : s.OnChain j id) (hj : (s.get? j).bind Record.link = none) :
    id = j := by
  induction h with
  | start => rfl
  | link inner found linked ih =>
    rw [ih] at found
    rw [found, Option.bind_some, linked] at hj
    cases hj

/-- A set of records that links do not lead out of, with the innermost live record and all records
that are not made yet. -/
structure Encloses (s : CallStack) (region : Nat → Prop) : Prop where
  top : ∀ id, s.top? = some id → region id
  links : ∀ id record outer, region id → s.get? id = some record → record.link = some outer →
    region outer
  fresh : ∀ id, s.nextId ≤ id → region id

def SameOutside (region : Nat → Prop) (s s' : CallStack) : Prop :=
  ∀ id record, s.get? id = some record → ¬ region id → s'.get? id = some record

theorem Encloses.enclosing (h : s.Encloses region) {level : Int} (hid : region id)
    (hj : s.enclosing id level = some j) : region j := by
  fun_induction CallStack.enclosing s id level with
  | case1 id hnone => cases hj
  | case2 id r hr hl =>
    cases hj
    exact hid
  | case3 id r hr hl hlink => cases hj
  | case4 id r hr hl outer hlink hlt ih => exact ih (h.links id r outer hid hr hlink) hj
  | case5 id r hr hl outer hlink hlt => cases hj

/-- What the innermost live record sees is in the region. -/
theorem Encloses.visible (h : s.Encloses region) {level : Int} (hj : s.visible level = some j) :
    region j := by
  obtain ⟨id, hid, hj⟩ := Option.bind_eq_some_iff.mp hj
  exact h.enclosing (h.top id hid) hj

theorem Encloses.set (h : s.Encloses region) (id : Nat) (name : String) (value : Value) :
    (s.set id name value).Encloses region := by
  refine ⟨h.top, fun j record outer hj hrecord hlink => ?_, fun j hj => h.fresh j ?_⟩
  · obtain ⟨old, hold, hsame⟩ : ∃ old, s.get? j = some old ∧ old.link = record.link := by
      rw [get?_set] at hrecord
      split at hrecord
      · obtain ⟨old, hold, rfl⟩ := Option.map_eq_some_iff.mp hrecord
        exact ⟨old, hold, rfl⟩
      · exact ⟨record, hrecord, rfl⟩
    exact h.links j old outer hj hold (hsame.trans hlink)
  · exact Nat.le_trans (extends_set s id name value).nextId_le hj

theorem Encloses.enter (h : s.Encloses region) {record : Record}
    (hlink : ∀ outer, record.link = some outer → region outer) :
    (s.enter record).Encloses region := by
  refine ⟨fun id hid => ?_, fun id found outer hid hfound houter => ?_, fun id hid => ?_⟩
  · cases hid
    exact h.fresh _ (Nat.le_refl _)
  · rw [get?_enter] at hfound
    split at hfound
    · cases hfound
      exact hlink outer houter
    · exact h.links id found outer hid hfound houter
  · exact h.fresh id (Nat.le_trans (extends_enter s record).nextId_le hid)

theorem sameOutside_set (hid : region id) (name : String) (value : Value) :
    SameOutside region s (s.set id name value) := by
  intro j record hj houtside
  rw [get?_set, if_neg, hj]
  rintro rfl
  exact houtside hid

theorem sameOutside_enter (record : Record) : SameOutside region s (s.enter record) := by
  intro id old hid _
  rw [get?_enter_of_lt record (lt_nextId_of_get? hid), hid]

theorem SameOutside.trans {s' s'' : CallStack} (h : SameOutside region s s')
    (h' : SameOutside region s' s'') : SameOutside region s s'' :=
  fun id record hid houtside => h' id record (h id record hid houtside) houtside

end CallStack

namespace Execution

variable {settings : Settings} {r : Resolution} {m m' : Machine} {α β : Type}
  {region : Nat → Prop}

/-- Run in a region, a computation stays in it and changes no record outside of it. -/
def Confined (region : Nat → Prop) (x : Execution α) : Prop :=
  ∀ ⦃m answer m'⦄, x m = (answer, m') → m.stack.Encloses region →
    m'.stack.Encloses region ∧ CallStack.SameOutside region m.stack m'.stack

theorem confined_of_unchanged {x : Execution α} (h : ∀ m, (x m).2 = m) : Confined region x := by
  intro m answer m' hx henc
  obtain rfl : m = m' := (h m).symm.trans (congrArg Prod.snd hx)
  exact ⟨henc, fun _ _ hid _ => hid⟩

theorem Confined.bind {x : Execution α} {g : α → Execution β} (hx : Confined region x)
    (hg : ∀ a, Confined region (g a)) : Confined region (x >>= g) := by
  intro m answer m' h henc
  rcases hm : x m with ⟨e | a, m₁⟩
  case error =>
    rw [Stateful.bind_of_error hm] at h
    cases h
    exact hx hm henc
  case ok =>
    rw [Stateful.bind_of_ok hm] at h
    obtain ⟨henc₁, hsame₁⟩ := hx hm henc
    obtain ⟨henc₂, hsame₂⟩ := hg a h henc₁
    exact ⟨henc₂, hsame₁.trans hsame₂⟩

theorem visible_of_owner {s : CallStack} {t : Token} {id : Nat} {v : Variable}
    (h : owner r s t = .ok (id, v)) : s.visible v.level = some id := by
  unfold owner at h
  split at h
  · cases h
  · split at h
    · cases h
    · next hvisible =>
      cases h
      exact hvisible

/-- A variable that is assigned to belongs to a visible record. -/
theorem confined_assign (target : Token) (value : Value) :
    Confined region (assign r target value) := by
  intro m answer m' h henc
  rw [assign, ask_bind] at h
  cases howner : owner r m.stack target with
  | error e =>
    rw [howner] at h
    cases h
    exact ⟨henc, fun _ _ hid _ => hid⟩
  | ok found =>
    rw [howner] at h
    cases h
    exact ⟨henc.set _ _ _, CallStack.sameOutside_set (henc.visible (visible_of_owner howner)) _ _⟩

theorem confined_statements {call : Token → List Expr → Execution Unit}
    (hcall : ∀ name args, Confined region (call name args)) (ss : List Stmt) :
    Confined region (statements r call ss) := by
  induction ss using Stmt.sequence_induction with
  | nil => exact confined_of_unchanged fun _ => rfl
  | compound start children rest ihc ihr => exact ihc.bind fun _ => ihr
  | assign target op value rest ih =>
    refine Confined.bind (Confined.bind (confined_of_unchanged fun _ => rfl) fun v => ?_)
      fun _ => ih
    exact confined_assign target v
  | call name args rest ih => exact (hcall name args).bind fun _ => ih
  | empty rest ih => exact Confined.bind (confined_of_unchanged fun _ => rfl) fun _ => ih

/-- A new record that is linked into the region is a place to run a body in. -/
theorem within_confined {record : Record} {body : Execution α} {answer : Except RunError α}
    (hbody : Confined region body) (henc : (m.stack.enter record).Encloses region)
    (h : within settings record body m = (answer, m')) :
    (∀ id found outer, region id → m'.stack.get? id = some found → found.link = some outer →
      region outer) ∧ (∀ id, m'.stack.nextId ≤ id → region id) ∧
      CallStack.SameOutside region m.stack m'.stack := by
  have hentered : (entered settings record m).stack = m.stack.enter record := stack_entered record
  obtain ⟨m₁, hm₁, hstack⟩ := exists_body_of_within h
  obtain ⟨henc₁, hsame⟩ := hbody hm₁ (hentered ▸ henc)
  rw [hentered] at hsame
  rw [hstack]
  exact ⟨henc₁.links, henc₁.fresh, (CallStack.sameOutside_enter record).trans hsame⟩

theorem confined_call (settings : Settings) (r : Resolution) (room : Nat) (name : Token)
    (args : List Expr) : Confined region (call settings r room name args) := by
  induction room using Nat.strongRecOn generalizing name args with
  | _ room ih =>
    intro m answer m' h henc
    rcases call_cases h with ⟨_, rfl⟩ | ⟨less, callee, values, hroom, _, hwithin⟩
    · exact ⟨henc, fun _ _ hid _ => hid⟩
    · have hless : less < room := by omega
      obtain ⟨hlinks, hfresh, hsame⟩ := within_confined (confined_statements (ih less hless) _)
        (henc.enter fun outer => henc.visible) hwithin
      refine ⟨⟨fun id hid => henc.top id ?_, hlinks, hfresh⟩, hsame⟩
      rw [CallStack.top?, ← (frames_call settings r room name args h).1]
      exact hid

/-- The region of a call: the static chain of its procedure, and what is made during the call. -/
def callRegion (s : CallStack) (q : Procedure) (id : Nat) : Prop :=
  s.nextId ≤ id ∨ ∃ link, s.visible q.level = some link ∧ s.OnChain link id

theorem encloses_callRegion (s : CallStack) (q : Procedure) (values : List Value) :
    (s.enter (callRecord s q values)).Encloses (callRegion s q) := by
  refine ⟨fun id hid => ?_, fun id found outer hid hfound houter => ?_, fun id hid => ?_⟩
  · cases hid
    exact .inl (Nat.le_refl _)
  · rw [CallStack.get?_enter] at hfound
    split at hfound
    · cases hfound
      exact .inr ⟨outer, houter, .start⟩
    · rcases hid with hid | ⟨link, hlink, hchain⟩
      · exact absurd (CallStack.lt_nextId_of_get? hfound) (Nat.not_lt.mpr hid)
      · exact .inr ⟨link, hlink, hchain.link hfound houter⟩
  · exact .inl (Nat.le_trans (CallStack.extends_enter s _).nextId_le hid)

/-- In every state, a call changes only records on the static chain of its procedure. -/
theorem call_sameOutside {room : Nat} {name : Token} {args : List Expr} {q : Procedure}
    {answer : Except RunError Unit} (hq : r.calls.find? name.index = some q)
    (h : call settings r room name args m = (answer, m')) :
    CallStack.SameOutside (callRegion m.stack q) m.stack m'.stack := by
  rcases call_cases h with ⟨_, rfl⟩ | ⟨less, callee, values, rfl, hprepare, hwithin⟩
  · exact fun _ _ hid _ => hid
  · obtain rfl : callee = q := Option.some.inj ((prepare_eq_ok hprepare).1.symm.trans hq)
    exact (within_confined (confined_statements (confined_call settings r less) _)
      (encloses_callRegion m.stack callee values) hwithin).2.2

/-- Wherever a run of a program that was read and resolved arrives at a call, the call changes
values only in records on the static chain that starts at the static link of its record, or in new
records. It changes nothing else of any record, and evaluating an expression changes nothing. -/
theorem calls_change_only_their_environment {file : String} {source : Bytes} {index : Nat}
    {p : Program} {r : Resolution} (hp : Program.ofSource file source index = .ok p)
    (hr : p.resolve.1 = .ok r) (settings : Settings) :
    (∀ acts room m name args rest answer m',
      Reaches settings r p acts room m (.call name args :: rest) →
      call settings r room name args m = (answer, m') →
        ∃ q link, r.calls.find? name.index = some q ∧
          (∀ values, (callRecord m.stack q values).link = some link) ∧
          (∀ id record, m.stack.get? id = some record → ¬ m.stack.OnChain link id →
            m'.stack.get? id = some record) ∧
          ∀ id record, m.stack.get? id = some record →
            ∃ members, m'.stack.get? id = some { record with members }) ∧
    (∀ acts room m ss e, Reaches settings r p acts room m ss →
      ask (fun s => evaluate r s e) m = (evaluate r m.stack e, m)) := by
  have hresolved := Program.resolved hr (Program.nodup_uses hp)
  refine ⟨fun acts room m name args rest answer m' harrived h => ?_, fun _ _ _ _ _ _ => rfl⟩
  obtain ⟨q, path, link, hfind, _, hvisible, _⟩ := callee_of_arrived (harrived.chained hresolved).2
  refine ⟨q, link, hfind, fun _ => hvisible, fun id record hid houtside => ?_, ?_⟩
  · refine call_sameOutside hfind h id record hid ?_
    rintro (hfresh | ⟨link', hlink', hchain⟩)
    · exact absurd (CallStack.lt_nextId_of_get? hid) (Nat.not_lt.mpr hfresh)
    · obtain rfl : link = link' := Option.some.inj (hvisible.symm.trans hlink')
      exact houtside hchain
  · exact (frames_call settings r room name args h).2

def beginsWithCall (test : Token → List Expr → Bool) : List Stmt → Bool
  | .call name args :: _ => test name args
  | _ => false

theorem exists_of_beginsWithCall {test : Token → List Expr → Bool} {body : List Stmt}
    (h : beginsWithCall test body = true) :
    ∃ name args rest, body = .call name args :: rest ∧ test name args = true := by
  unfold beginsWithCall at h
  split at h
  · exact ⟨_, _, _, rfl, h⟩
  · cases h

/-- The procedure `show` assigns to a variable that a parameter of its caller has the name of. -/
theorem calls_change_only_their_environment_caller :
    let source := ("program p; var x : integer; procedure show; begin x := 1 end; " ++
      "procedure f(x : integer); begin show() end; begin f(7) end.").toList.map fun c =>
        c.toNat.toUInt8
    ∃ p r acts room m name args rest, Program.ofSource "p.pas" source = .ok p ∧
      p.resolve.1 = .ok r ∧ Reaches {} r p acts room m (.call name args :: rest) ∧
      ∀ answer m', call {} r room name args m = (answer, m') →
        ((m'.stack.get? 1).bind fun record => record.members.get? "x") = some (.int 7) := by
  intro source
  obtain ⟨p, r, hp, hr, htest⟩ : ∃ p r, Program.ofSource "p.pas" source = .ok p ∧
      p.resolve.1 = .ok r ∧
        (let m := entered {} { name := p.name.name } {}
        entersCall r m.stack (fun q values =>
          let s := (entered {} (callRecord m.stack q values) m).stack
          beginsWithCall (fun inner _ => (s.get? 0).bind Record.link == none &&
            ((s.get? 1).bind fun record => record.members.get? "x") == some (.int 7) &&
            ((r.calls.find? inner.index).bind fun q => s.visible q.level) == some 0)
            q.block.body) p.block.body) = true :=
    Program.exists_resolved (by decide +kernel)
  have hstart : Reaches {} r p [(0, none)] 999 (entered {} { name := p.name.name } {})
      p.block.body := .start
  obtain ⟨q, values, htest, harrived⟩ := hstart.exists_enter htest
  obtain ⟨inner, args', rest', hinner, htest⟩ := exists_of_beginsWithCall htest
  rw [hinner] at harrived
  rw [Bool.and_eq_true_iff, Bool.and_eq_true_iff, beq_iff_eq, beq_iff_eq, beq_iff_eq] at htest
  obtain ⟨⟨hprogram, hcaller⟩, hcallee⟩ := htest
  refine ⟨p, r, _, 998, _, inner, args', rest', hp, hr, harrived, fun answer m' h => ?_⟩
  obtain ⟨hcalls, _⟩ := calls_change_only_their_environment hp hr {}
  obtain ⟨q', link, hfind, hlink, hsame, _⟩ := hcalls _ _ _ _ _ _ _ _ harrived h
  obtain rfl : link = 0 := by
    rw [hfind] at hcallee
    exact Option.some.inj ((hlink []).symm.trans hcallee)
  obtain ⟨caller, hget, hx⟩ := Option.bind_eq_some_iff.mp hcaller
  rw [hsame 1 caller hget fun hchain => absurd (hchain.eq_of_unlinked hprogram) (by decide)]
  exact hx

end Execution

end MiniPascal
