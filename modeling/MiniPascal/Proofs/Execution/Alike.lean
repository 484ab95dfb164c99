import MiniPascal.Proofs.Execution.Returns
import MiniPascal.Proofs.Resolution.Alike
import MiniPascal.Proofs.Semantics.Simulation

/-!
# Runs of alike programs

A program has no branches: the only thing that a number decides is whether an operation fails
because of it. Everything else depends on the types of values, and the type of a result on the types
of the operands. Alike programs therefore run side by side, their call stacks agreeing record by
record in all but the numbers, until one of them fails because of a number.

Two computations are compared from alike machines on. Nothing is said about them if one fails for a
reason that the other need not have.
-/
namespace MiniPascal

def Bindings.types (b : Bindings) : List (String × Kind) :=
  b.map fun item => (item.1, item.2.type)

/-- A failure that tells nothing about a run with other numbers: a number causes it, or the program
does not match its resolution. -/
def RunError.Excused : RunError → Prop
  | .diagnostic d => d.code ∈ Code.numeric
  | _ => True

/-- Records that differ in the numbers of their members only. -/
structure Record.Alike (a b : Record) : Prop where
  name : a.name = b.name
  kind : a.kind = b.kind
  level : a.level = b.level
  link : a.link = b.link
  types : a.members.types = b.members.types

structure CallStack.Alike (s s' : CallStack) : Prop where
  live : s.live = s'.live
  nextId : s.nextId = s'.nextId
  records : ∀ id, Option.Rel Record.Alike (s.get? id) (s'.get? id)

structure Machine.Alike (m m' : Machine) : Prop where
  stack : m.stack.Alike m'.stack
  returned : List.Forall₂ Record.Alike m.returned m'.returned

namespace Bindings

variable {b b' : Bindings} {v v' : Value}

theorem lookup_types (b : Bindings) (x : String) :
    List.lookup x b.types = (b.get? x).map Value.type := by
  unfold get?
  induction b with
  | nil => rfl
  | cons item rest ih =>
    rw [types, List.map_cons, List.lookup_cons, List.lookup_cons]
    split
    · rfl
    · exact ih

theorem types_set (h : b.types = b'.types) (hv : v.type = v'.type) (x : String) :
    (set x v b).types = (set x v' b').types := by
  induction b generalizing b' with
  | nil =>
    cases b' with
    | nil => exact congrArg (fun k => [(x, k)]) hv
    | cons item' rest' => cases h
  | cons item rest ih =>
    cases b' with
    | nil => cases h
    | cons item' rest' =>
      obtain ⟨n, w⟩ := item
      obtain ⟨n', w'⟩ := item'
      obtain ⟨hitem, hrest⟩ := List.cons.inj h
      obtain ⟨rfl, hw⟩ := Prod.mk.inj hitem
      rw [set, set]
      split
      · exact congrArg₂ (fun k rest => (n, k) :: rest) hv hrest
      · exact congrArg₂ (fun k rest => (n, k) :: rest) hw (ih hrest)

theorem types_ofList {items items' : List (String × Value)} (h : types items = types items') :
    (ofList items).types = (ofList items').types := by
  unfold ofList
  suffices ∀ b b' : Bindings, b.types = b'.types →
      types (items.foldl (fun b item => set item.1 item.2 b) b) =
        types (items'.foldl (fun b item => set item.1 item.2 b) b') from this [] [] rfl
  induction items generalizing items' with
  | nil =>
    cases items' with
    | nil => exact fun b b' hb => hb
    | cons item' rest' => cases h
  | cons item rest ih =>
    cases items' with
    | nil => cases h
    | cons item' rest' =>
      intro b b' hb
      obtain ⟨hitem, hrest⟩ := List.cons.inj h
      obtain ⟨hname, htype⟩ := Prod.mk.inj hitem
      rw [List.foldl_cons, List.foldl_cons, ← hname]
      exact ih hrest _ _ (types_set hb htype item.1)

theorem types_zip (names : List String) {values values' : List Value}
    (h : values.map Value.type = values'.map Value.type) :
    types (names.zip values) = types (names.zip values') := by
  have hzip (values : List Value) :
      types (names.zip values) = names.zip (values.map Value.type) := by
    rw [List.zip_map_right]
    rfl
  rw [hzip, hzip, h]

end Bindings

namespace CallStack

theorem nextId_enter (s : CallStack) (record : Record) :
    (s.enter record).nextId = s.nextId + 1 :=
  Array.size_push record

theorem nextId_set (s : CallStack) (id : Nat) (name : String) (value : Value) :
    (s.set id name value).nextId = s.nextId :=
  Array.size_modify

namespace Alike

variable {s s' : CallStack} {record record' : Record} {v v' : Value}

theorem enclosing (h : s.Alike s') (id : Nat) (level : Int) :
    s.enclosing id level = s'.enclosing id level := by
  induction id using Nat.strongRecOn with
  | ind id ih =>
    have hrecord := h.records id
    rw [CallStack.enclosing, CallStack.enclosing]
    generalize s.get? id = found at hrecord ⊢
    generalize s'.get? id = found' at hrecord ⊢
    cases hrecord with
    | none => rfl
    | @some record record' hr =>
      dsimp only
      rw [hr.level, hr.link]
      split
      · rfl
      · split
        · rfl
        · next outer _ =>
          split
          · next hlt => exact ih outer hlt
          · rfl

theorem visible (h : s.Alike s') (level : Int) : s.visible level = s'.visible level := by
  rw [CallStack.visible, CallStack.visible, top?, top?, h.live]
  exact congrArg (Option.bind _) (funext fun id => h.enclosing id level)

theorem topRecord? (h : s.Alike s') : Option.Rel Record.Alike s.topRecord? s'.topRecord? := by
  rw [CallStack.topRecord?, CallStack.topRecord?, top?, top?, h.live]
  cases s'.live.head? with
  | none => exact .none
  | some id => exact h.records id

/-- Alike records have values of the same type under every name. -/
theorem type_get? (h : s.Alike s') (id : Nat) (x : String) :
    ((s.get? id).bind fun record => record.members.get? x).map Value.type =
      ((s'.get? id).bind fun record => record.members.get? x).map Value.type := by
  have hrecord := h.records id
  generalize s.get? id = found at hrecord ⊢
  generalize s'.get? id = found' at hrecord ⊢
  cases hrecord with
  | none => rfl
  | some hr =>
    rw [Option.bind_some, Option.bind_some, ← Bindings.lookup_types, ← Bindings.lookup_types,
      hr.types]

theorem enter (h : s.Alike s') (hr : record.Alike record') :
    (s.enter record).Alike (s'.enter record') := by
  refine ⟨?_, ?_, fun id => ?_⟩
  · exact congrArg₂ List.cons h.nextId h.live
  · rw [nextId_enter, nextId_enter, h.nextId]
  · rw [get?_enter, get?_enter, h.nextId]
    split
    · exact .some hr
    · exact h.records id

theorem pop (h : s.Alike s') : s.pop.Alike s'.pop :=
  ⟨congrArg List.tail h.live, h.nextId, h.records⟩

theorem set (h : s.Alike s') (id : Nat) (x : String) (hv : v.type = v'.type) :
    (s.set id x v).Alike (s'.set id x v') := by
  refine ⟨h.live, ?_, fun j => ?_⟩
  · rw [nextId_set, nextId_set, h.nextId]
  · rw [get?_set, get?_set]
    have hrecord := h.records j
    generalize s.get? j = found at hrecord ⊢
    generalize s'.get? j = found' at hrecord ⊢
    split
    · cases hrecord with
      | none => exact .none
      | some hr =>
        exact .some ⟨hr.name, hr.kind, hr.level, hr.link, Bindings.types_set hr.types hv x⟩
    · exact hrecord

end Alike

end CallStack

/-- Two answers are related values, or failures for one cause at the same token, and `also` holds;
unless one of them is excused. -/
inductive Concur {α β : Type} (rel : α → β → Prop) (also : Prop) :
    Except RunError α → Except RunError β → Prop
  | ok {a : α} {b : β} (h : rel a b) (ha : also) : Concur rel also (.ok a) (.ok b)
  | error {t t' : Token} (c : Cause) (ht : t.Alike t') (ha : also) :
      Concur rel also (.error (.diagnostic (.atToken t c))) (.error (.diagnostic (.atToken t' c)))
  | left {e : RunError} {y : Except RunError β} (he : e.Excused) : Concur rel also (.error e) y
  | right {e : RunError} {x : Except RunError α} (he : e.Excused) : Concur rel also x (.error e)

section

variable {α β γ δ : Type} {rel : α → β → Prop} {rel' : γ → δ → Prop} {also also' : Prop}
  {x : Except RunError α} {y : Except RunError β}

theorem Concur.mono (h : Concur rel also x y) (ha : also → also') : Concur rel also' x y := by
  cases h with
  | ok h hs => exact .ok h (ha hs)
  | error c ht hs => exact .error c ht (ha hs)
  | left he => exact .left he
  | right he => exact .right he

theorem Concur.bind {f : α → Except RunError γ} {g : β → Except RunError δ}
    (h : Concur rel also x y) (hf : ∀ a b, rel a b → Concur rel' also (f a) (g b)) :
    Concur rel' also (x >>= f) (y >>= g) := by
  cases h with
  | ok h _ => exact hf _ _ h
  | error c ht hs => exact .error c ht hs
  | left he => exact .left he
  | right he => exact .right he

end

abbrev SameType (v v' : Value) : Prop := v.type = v'.type

namespace Execution

variable {r r' : Resolution} {s s' : CallStack} {settings : Settings} {m m' : Machine}
  {also : Prop}

/-- Operations whose results have the same type do the same to operands of the same types. -/
theorem concur_operation {op op' : Token} (hop : op.Alike op') (ha : also)
    {x y : Except Value.OperationError Value} {type : Except Cause Kind}
    (hx : Value.Typed x type) (hy : Value.Typed y type) :
    Concur SameType also (x.mapError (RunError.ofOperation op))
      (y.mapError (RunError.ofOperation op')) := by
  cases hx with
  | numeric hc => exact .left hc
  | unknown => exact .left trivial
  | @value v =>
    generalize htype : Except.ok v.type = type at hy
    cases hy with
    | numeric hc => exact .right hc
    | unknown => exact .right trivial
    | value => exact .ok (Except.ok.inj htype) ha
    | cause => cases htype
  | cause c =>
    generalize htype : Except.error c = type at hy
    cases hy with
    | numeric hc => exact .right hc
    | unknown => exact .right trivial
    | value => cases htype
    | cause =>
      cases htype
      exact .error c hop ha

/-- The records that hold a variable have the same number. -/
theorem concur_owner (hr : r.Matches r') (hs : s.Alike s') (ha : also) {t t' : Token}
    (ht : t.Alike t') :
    Concur (fun found found' => found.1 = found'.1 ∧ found.2.name = found'.2.name) also
      (owner r s t) (owner r' s' t') := by
  unfold owner
  cases hv : r.references.find? t.index with
  | none => exact .left trivial
  | some v =>
    obtain ⟨v', hv', hname, hlevel⟩ := hr.references t.index v hv
    rw [← ht.index, hv']
    dsimp only
    rw [← hlevel, ← hs.visible]
    cases s.visible v.level with
    | none => exact .left trivial
    | some id => exact .ok ⟨rfl, hname⟩ ha

theorem concur_read (hr : r.Matches r') (hs : s.Alike s') (ha : also) {t t' : Token}
    (ht : t.Alike t') : Concur SameType also (read r s t) (read r' s' t') := by
  refine (concur_owner hr hs ha ht).bind ?_
  rintro ⟨id, v⟩ ⟨_, v'⟩ ⟨rfl, hname⟩
  have htype := hs.type_get? id v.name
  dsimp only
  rw [← hname]
  generalize (s.get? id).bind (fun record => record.members.get? v.name) = found at htype ⊢
  generalize (s'.get? id).bind (fun record => record.members.get? v.name) = found' at htype ⊢
  cases found with
  | none =>
    cases found' with
    | none => exact .error _ ht ha
    | some w' => cases htype
  | some w =>
    cases found' with
    | none => cases htype
    | some w' => exact .ok (Option.some.inj htype) ha

theorem concur_evaluate (hr : r.Matches r') (hs : s.Alike s') (ha : also) {e e' : Expr}
    (he : e.Alike e') : Concur SameType also (evaluate r s e) (evaluate r' s' e') := by
  induction he with
  | number type => exact .ok type ha
  | «variable» token => exact concur_read hr hs ha token
  | unary token operand ih =>
    refine ih.bind fun v v' hv => ?_
    rw [← token.kind]
    exact concur_operation token ha (Value.typed_unary _ v) (hv ▸ Value.typed_unary _ v')
  | @binary op op' left left' right right' first token second ihf ihs =>
    refine ihf.bind fun a a' hfirst => ihs.bind fun b b' hsecond => ?_
    have htypes := congrArg₂ (Value.resultType op.kind) hfirst hsecond
    rw [← token.kind]
    exact concur_operation token ha (Value.typed_binary _ a b) (htypes ▸ Value.typed_binary _ a' b')

theorem concur_evaluateAll (hr : r.Matches r') (hs : s.Alike s') (ha : also) {es es' : List Expr}
    (hes : List.Forall₂ Expr.Alike es es') :
    Concur (fun vs vs' => vs.map Value.type = vs'.map Value.type) also (evaluateAll r s es)
      (evaluateAll r' s' es') := by
  induction hes with
  | nil => exact .ok rfl ha
  | cons he hrest ih =>
    exact (concur_evaluate hr hs ha he).bind fun v v' hv => ih.bind fun vs vs' hvs =>
      .ok (congrArg₂ List.cons hv hvs) ha

theorem concur_prepare (hr : r.Matches r') (hs : s.Alike s') (ha : also) {name name' : Token}
    {args args' : List Expr} (hname : name.Alike name')
    (hargs : List.Forall₂ Expr.Alike args args') :
    Concur (fun found found' => found.1.Alike found'.1 ∧
        found.2.map Value.type = found'.2.map Value.type) also
      (prepare r s name args) (prepare r' s' name' args') := by
  unfold prepare
  cases hp : r.calls.find? name.index with
  | none => exact .left trivial
  | some p =>
    obtain ⟨p', hp', halike⟩ := hr.calls name.index p hp
    have hparams := congrArg List.length halike.params
    rw [List.length_map, List.length_map] at hparams
    rw [← hname.index, hp']
    dsimp only
    rw [← halike.name, ← hparams, ← hargs.length_eq]
    split
    · exact (concur_evaluateAll hr hs ha hargs).bind fun vs vs' hvs => .ok ⟨halike, hvs⟩ ha
    · exact .error _ hname ha

theorem alike_callRecord (hs : s.Alike s') {p p' : Procedure} (hp : p.Alike p')
    {values values' : List Value} (hvalues : values.map Value.type = values'.map Value.type) :
    (callRecord s p values).Alike (callRecord s' p' values') := by
  refine ⟨hp.name, rfl, ?_, ?_, Bindings.types_ofList ?_⟩
  · exact congrArg (· + 1) hp.level
  · exact (hs.visible p.level).trans (congrArg s'.visible hp.level)
  · rw [← hp.params]
    exact Bindings.types_zip _ hvalues

end Execution

namespace Machine.Alike

variable {settings : Settings} {m m' : Machine}

theorem entered (settings : Settings) (h : m.Alike m') {record record' : Record}
    (hr : record.Alike record') :
    (Execution.entered settings record m).Alike (Execution.entered settings record' m') := by
  refine ⟨?_, ?_⟩
  · rw [Execution.stack_entered, Execution.stack_entered]
    exact h.stack.enter hr
  · rw [Execution.returned_entered, Execution.returned_entered]
    exact h.returned

theorem popped (h : m.Alike m') : (Execution.popped m).Alike (Execution.popped m') :=
  ⟨h.stack.pop, h.returned⟩

theorem completed (h : m.Alike m') :
    (Execution.completed settings m).Alike (Execution.completed settings m') := by
  refine ⟨?_, ?_⟩
  · rw [Execution.stack_completed, Execution.stack_completed]
    exact h.stack.pop
  · have htop := h.stack.topRecord?
    generalize hm : m.stack.topRecord? = top at htop
    generalize hm' : m'.stack.topRecord? = top' at htop
    cases htop with
    | none =>
      rw [Execution.returned_completed, Execution.returned_completed, hm, hm']
      exact h.returned
    | some hr =>
      rw [Execution.returned_completed, Execution.returned_completed, hm, hm']
      exact .cons hr h.returned

end Machine.Alike

namespace Execution

variable {α β γ δ : Type} {rel : α → β → Prop} {rel' : γ → δ → Prop} {r r' : Resolution}
  {settings : Settings}

/-- From alike machines two computations give answers that concur, and leave alike machines. -/
def Parallel (rel : α → β → Prop) (x : Execution α) (y : Execution β) : Prop :=
  ∀ ⦃m m'⦄, m.Alike m' → Concur rel ((x m).2.Alike (y m').2) (x m).1 (y m').1

theorem parallel_ask {f : CallStack → Except RunError α} {g : CallStack → Except RunError β}
    (h : ∀ ⦃s s'⦄, s.Alike s' → Concur rel True (f s) (g s')) : Parallel rel (ask f) (ask g) :=
  fun _ _ hm => (h hm.stack).mono fun _ => hm

theorem Parallel.bind {x : Execution α} {y : Execution β} {f : α → Execution γ}
    {g : β → Execution δ} (hx : Parallel rel x y)
    (hf : ∀ a b, rel a b → Parallel rel' (f a) (g b)) : Parallel rel' (x >>= f) (y >>= g) := by
  intro m m' hm
  have hconcur := hx hm
  rcases hxm : x m with ⟨answer, m₁⟩
  rcases hym : y m' with ⟨answer', m₁'⟩
  rw [hxm, hym] at hconcur
  dsimp only at hconcur
  cases hconcur with
  | ok h hm₁ =>
    rw [Stateful.bind_of_ok hxm, Stateful.bind_of_ok hym]
    exact hf _ _ h hm₁
  | error c ht hm₁ =>
    rw [Stateful.bind_of_error hxm, Stateful.bind_of_error hym]
    exact .error c ht hm₁
  | left he =>
    rw [Stateful.bind_of_error hxm]
    exact .left he
  | right he =>
    rw [Stateful.bind_of_error hym]
    exact .right he

theorem Parallel.within {record record' : Record} (hr : record.Alike record') {x : Execution α}
    {y : Execution β} (hx : Parallel rel x y) :
    Parallel rel (within settings record x) (within settings record' y) := by
  intro m m' hm
  have hconcur := hx (hm.entered settings hr)
  rcases hxm : x (entered settings record m) with ⟨answer, m₁⟩
  rcases hym : y (entered settings record' m') with ⟨answer', m₁'⟩
  rw [hxm, hym] at hconcur
  dsimp only at hconcur
  cases hconcur with
  | ok h hm₁ =>
    rw [within_eq_completed hxm, within_eq_completed hym]
    exact .ok h hm₁.completed
  | error c ht hm₁ =>
    rw [within_eq_popped hxm, within_eq_popped hym]
    exact .error c ht hm₁.popped
  | left he =>
    rw [within_eq_popped hxm]
    exact .left he
  | right he =>
    rw [within_eq_popped hym]
    exact .right he

abbrev Parallel₀ (x y : Execution Unit) : Prop := Parallel (fun _ _ => True) x y

theorem parallel_pure : Parallel₀ (pure ()) (pure ()) :=
  fun _ _ hm => .ok trivial hm

theorem parallel_assign (hr : r.Matches r') {target target' : Token} (ht : target.Alike target')
    {v v' : Value} (hv : SameType v v') : Parallel₀ (assign r target v) (assign r' target' v') := by
  refine (parallel_ask fun s s' hs => concur_owner hr hs trivial ht).bind ?_
  rintro ⟨id, x⟩ ⟨_, x'⟩ ⟨rfl, hname⟩ m m' hm
  have hstack := hm.stack.set id x.name hv
  dsimp only at hname ⊢
  rw [← hname]
  exact .ok trivial ⟨hstack, hm.returned⟩

theorem parallel_statements (hr : r.Matches r') {call call' : Token → List Expr → Execution Unit}
    (hcall : ∀ {name name' args args'}, name.Alike name' → List.Forall₂ Expr.Alike args args' →
      Parallel₀ (call name args) (call' name' args')) (ss : List Stmt) :
    ∀ {ss' : List Stmt}, List.Forall₂ Stmt.Alike ss ss' →
      Parallel₀ (statements r call ss) (statements r' call' ss') := by
  induction ss using Stmt.sequence_induction with
  | nil =>
    intro ss' h
    cases h
    exact parallel_pure
  | compound start children rest ihc ihr =>
    intro ss' h
    cases h with
    | cons h hrest =>
      cases h with
      | compound token inner => exact (ihc inner).bind fun _ _ _ => ihr hrest
  | assign target op value rest ih =>
    intro ss' h
    cases h with
    | cons h hrest =>
      cases h with
      | assign named token right =>
        refine Parallel.bind ?_ fun _ _ (_ : True) => ih hrest
        refine (parallel_ask fun s s' hs => concur_evaluate hr hs trivial right).bind ?_
        exact fun v v' hv => parallel_assign hr named hv
  | call name args rest ih =>
    intro ss' h
    cases h with
    | cons h hrest =>
      cases h with
      | call named values => exact (hcall named values).bind fun _ _ _ => ih hrest
  | empty rest ih =>
    intro ss' h
    cases h with
    | cons h hrest =>
      cases h
      exact parallel_pure.bind fun _ _ _ => ih hrest

/-- Calls run side by side: they find room or they do not, and enter alike records. -/
theorem parallel_call (hr : r.Matches r') (settings : Settings) (room : Nat) :
    ∀ {name name' : Token} {args args' : List Expr}, name.Alike name' →
      List.Forall₂ Expr.Alike args args' →
      Parallel₀ (call settings r room name args) (call settings r' room name' args') := by
  induction room with
  | zero =>
    intro name name' args args' hname hargs
    refine (parallel_ask fun s s' hs => concur_prepare hr hs trivial hname hargs).bind ?_
    rintro ⟨p, values⟩ ⟨p', values'⟩ ⟨hp, _⟩ m m' hm
    dsimp only at hp ⊢
    rw [← hp.name]
    exact .error _ hname hm
  | succ room ih =>
    intro name name' args args' hname hargs
    refine (parallel_ask fun s s' hs => concur_prepare hr hs trivial hname hargs).bind ?_
    rintro ⟨p, values⟩ ⟨p', values'⟩ ⟨hp, hvalues⟩
    refine Parallel.bind ?_ fun record record' (hrecord : record.Alike record') =>
      (parallel_statements hr ih _ hp.block.body).within hrecord
    exact parallel_ask fun s s' hs => .ok (alike_callRecord hs hp hvalues) trivial

theorem parallel_program (hr : r.Matches r') (settings : Settings) {p p' : Program}
    (hp : p.Alike p') : Parallel (fun b b' => b.types = b'.types) (program settings r p)
      (program settings r' p') := by
  have hrecord : Record.Alike { name := p.name.name } { name := p'.name.name } :=
    ⟨hp.name.name, rfl, rfl, rfl, rfl⟩
  refine Parallel.within hrecord ?_
  refine (parallel_statements hr (parallel_call hr settings _) _ hp.block.body).bind fun _ _ _ => ?_
  refine parallel_ask fun s s' hs => .ok ?_ trivial
  have htop := hs.topRecord?
  generalize s.topRecord? = top at htop ⊢
  generalize s'.topRecord? = top' at htop ⊢
  cases htop with
  | none => rfl
  | some hr => exact hr.types

/-- A program that was read and resolved fails for a number or for one of three other causes. -/
theorem not_excused {file : String} {source : Bytes} {index : Nat} {p : Program}
    (hp : Program.ofSource file source index = .ok p) (hr : p.resolve.1 = .ok r)
    (settings : Settings)
    (hnumeric : ∀ d, (p.run r settings).diagnostic? = some d → d.code ∉ Code.numeric)
    {e : RunError} (he : (p.run r settings).result = .error e) :
    ¬ e.Excused ∧ ∃ d, e = .diagnostic d ∧
      d.code ∈ [Code.unboundVariable, .typeMismatch, .stackOverflow] := by
  obtain ⟨o, ho, hruns⟩ := Semantics.exists_outcome hp hr settings
  rcases Semantics.exists_of_outcome ho with ⟨b, hb, rfl⟩ | ⟨d, hd, rfl⟩
  · cases he.symm.trans hb
  · cases he.symm.trans hd
    have hnot : d.code ∉ Code.numeric := by
      refine hnumeric d ?_
      rw [Outcome.diagnostic?, hd]
      rfl
    refine ⟨hnot, d, rfl, ?_⟩
    have hcode := hruns.code
    simp only [Semantics.failureCodes, Code.numeric, List.mem_cons] at hcode hnot ⊢
    tauto

/-- A program takes the same way whatever its numbers are. Two alike programs that were read and
resolved are run with the same limit. If neither run fails with a division by zero or an integer
that does not fit, then both succeed with the same names bound to values of the same types, or both
fail for the same cause at the same token: a variable without a value, operands of the wrong type,
or a stack that is too deep. Either way alike records are completed, in the same order. -/
theorem runs_agree_up_to_numbers {file file' : String} {source source' : Bytes} {index : Nat}
    {p p' : Program} (hp : Program.ofSource file source index = .ok p)
    (hp' : Program.ofSource file' source' index = .ok p') (hr : p.resolve.1 = .ok r)
    (hr' : p'.resolve.1 = .ok r') (halike : p.Alike p') (settings : Settings)
    (hnumeric : ∀ d, (p.run r settings).diagnostic? = some d → d.code ∉ Code.numeric)
    (hnumeric' : ∀ d, (p'.run r' settings).diagnostic? = some d → d.code ∉ Code.numeric) :
    let o := p.run r settings
    let o' := p'.run r' settings
    ((∃ b b', o.result = .ok b ∧ o'.result = .ok b' ∧ b.types = b'.types) ∨
      ∃ t t' c, o.result = .error (.diagnostic (.atToken t c)) ∧
        o'.result = .error (.diagnostic (.atToken t' c)) ∧ t.Alike t' ∧
        c.code ∈ [Code.unboundVariable, .typeMismatch, .stackOverflow]) ∧
    List.Forall₂ Record.Alike o.returned o'.returned := by
  intro o o'
  have hstart : Machine.Alike {} {} := ⟨⟨rfl, rfl, fun _ => .none⟩, .nil⟩
  have hconcur := parallel_program (halike.matches hp hp' hr hr') settings halike hstart
  have hreturned (h : ((program settings r p {}).2).Alike (program settings r' p' {}).2) :
      List.Forall₂ Record.Alike o.returned o'.returned := List.rel_reverse h.returned
  change Concur _ _ o.result o'.result at hconcur
  generalize hresult : o.result = x at hconcur ⊢
  generalize hresult' : o'.result = y at hconcur ⊢
  cases hconcur with
  | ok h hm => exact ⟨.inl ⟨_, _, rfl, rfl, h⟩, hreturned hm⟩
  | error c ht hm =>
    obtain ⟨_, d, hd, hcode⟩ := not_excused hp hr settings hnumeric hresult
    cases hd
    exact ⟨.inr ⟨_, _, c, rfl, rfl, ht, hcode⟩, hreturned hm⟩
  | left he => exact absurd he (not_excused hp hr settings hnumeric hresult).1
  | right he => exact absurd he (not_excused hp' hr' settings hnumeric' hresult').1

/-- After the procedure has returned, `DIV` meets a real in both programs; in the second one it
stands further to the right. -/
theorem runs_agree_up_to_numbers_mismatch :
    let head := "program p; var x : integer; y : real; procedure f(a : integer); "
    let source := (head ++ "begin x := a + 1; y := x / 4 end; " ++
      "begin f(3); x := y div 2 end.").toList.map fun c => c.toNat.toUInt8
    let source' := (head ++ "begin x := a + 10; y := x / 7 end; " ++
      "begin f(250); x := y div 8 end.").toList.map fun c => c.toNat.toUInt8
    ∃ p r p' r', Program.ofSource "p.pas" source = .ok p ∧ p.resolve.1 = .ok r ∧
      Program.ofSource "p.pas" source' = .ok p' ∧ p'.resolve.1 = .ok r' ∧ p.Alike p' ∧
      (∃ t t' c, (p.run r).result = .error (.diagnostic (.atToken t c)) ∧
        (p'.run r').result = .error (.diagnostic (.atToken t' c)) ∧ t.Alike t' ∧
        t.pos ≠ t'.pos) ∧
      (p.run r).returned.map Record.name = ["f"] ∧
      List.Forall₂ Record.Alike (p.run r).returned (p'.run r').returned := by
  intro head source source'
  let mismatch (o : Outcome) : Bool := o.diagnostic?.any fun d => d.code == .typeMismatch
  let place (o : Outcome) : Option Position := o.diagnostic?.map Diagnostic.pos
  obtain ⟨p, r, hp, hr, h⟩ : ∃ p r, Program.ofSource "p.pas" source = .ok p ∧
      p.resolve.1 = .ok r ∧ ((Program.ofSource "p.pas" source').toOption.any fun p' =>
        p'.resolve.1.toOption.any fun r' => p.isAlike p' &&
          (mismatch (p.run r) && mismatch (p'.run r') && place (p.run r) != place (p'.run r') &&
            (p.run r).returned.map Record.name == ["f"])) = true :=
    Program.exists_resolved (by decide +kernel)
  obtain ⟨p', r', hp', hr', h⟩ := Program.exists_resolved h
  simp only [Bool.and_eq_true, bne_iff_ne, beq_iff_eq] at h
  obtain ⟨halike, ⟨⟨hmismatch, hmismatch'⟩, hplace⟩, hnames⟩ := h
  have hnumeric {o : Outcome} (ho : mismatch o = true) :
      ∀ d, o.diagnostic? = some d → d.code ∉ Code.numeric := by
    intro d hd
    obtain ⟨d', hd', hcode⟩ := (Option.any_eq_true _ _).mp ho
    cases hd.symm.trans hd'
    rw [beq_iff_eq.mp hcode]
    decide
  have hprograms := Program.alike_of_isAlike halike
  obtain ⟨hresult, hreturned⟩ := runs_agree_up_to_numbers hp hp' hr hr' hprograms {}
    (hnumeric hmismatch) (hnumeric hmismatch')
  refine ⟨p, r, p', r', hp, hr, hp', hr', hprograms, ?_, hnames, hreturned⟩
  rcases hresult with ⟨b, b', hb, _⟩ | ⟨t, t', c, ht, ht', hsame, _⟩
  · simp only [mismatch, Outcome.diagnostic?, hb] at hmismatch
    cases hmismatch
  · refine ⟨t, t', c, ht, ht', hsame, fun hpos => hplace ?_⟩
    simp only [place, Outcome.diagnostic?, ht, ht']
    exact congrArg some hpos

end Execution

end MiniPascal
