import MiniPascal.Proofs.Resolution.Bodies
import MiniPascal.Proofs.Resolution.Watch
import MiniPascal.Proofs.Resolution.WellScoped

/-!
# What the resolver takes for granted

In a program that was read no insertion is refused, and each type is found in the outermost scope.
This rests on names and on repetitions: no identifier spells a built-in type, and a block is left
before its first insertion if a name is declared twice in it. So nothing is ever said about a type
that is not known.
-/
namespace MiniPascal

/-- A symbol is not refused. A type is that of the outermost scope, and the scopes further in do not
have its name. -/
def Reliance.Holds : Reliance → Prop
  | taken S symbol => ∃ scope, S.current.insert? symbol = some scope
  | known S type =>
    ∃ inner outermost, S.toList = inner ++ [outermost] ∧
      (∀ s ∈ inner, s.find? type.kind.text = none) ∧
      outermost.find? type.kind.text = some (.builtinType type.kind.text 1) ∧
      S.lookup type.kind.text = some (.builtinType type.kind.text 1)

def Reliance.inserted? : Reliance → Option String
  | taken _ symbol => some symbol.name
  | known .. => none

def ScopeEvent.inserted? : ScopeEvent → Option String
  | inserted name => some name
  | _ => none

def Diagnostic.BlamesType (d : Diagnostic) : Prop := ∃ name, d.cause = .typeNotFound name

namespace Scopes

variable {S : Scopes} {symbol : Symbol}

theorem taken_of_new (h : S.current.find? symbol.name = none) :
    (Reliance.taken S symbol).Holds := by
  have hinsert : S.current.insert? symbol = some { S.current with
      symbols := S.current.symbols ++ [symbol.atLevel S.current.level] } := by
    rw [Scope.insert?, h]
  exact ⟨_, hinsert⟩

/-- Symbols have the level of their scope, and the built-in types stand for themselves. -/
structure Grounded (S : Scopes) : Prop where
  leveled : S.Leveled
  types : S.KnowsTypes

theorem grounded_globals : globals.Grounded :=
  ⟨leveled_globals, opens_globals.shows.types⟩

theorem Grounded.enter (h : S.Grounded) (name : String) : (S.enter name).Grounded :=
  ⟨h.leveled.enter name, h.types⟩

theorem Grounded.insert (h : S.Grounded) (hname : ¬ IsBuiltin symbol.name) :
    (S.insert symbol).Grounded :=
  ⟨h.leveled.insert symbol, h.types.insert hname⟩

theorem Grounded.insertAll {symbols : List Symbol} (h : S.Grounded)
    (hnames : ∀ symbol ∈ symbols, ¬ IsBuiltin symbol.name) : (S.insertAll symbols).Grounded := by
  unfold Scopes.insertAll
  induction symbols generalizing S with
  | nil => exact h
  | cons symbol rest ih =>
    obtain ⟨hname, hnames⟩ := List.forall_mem_cons.mp hnames
    exact ih (h.insert hname) hnames

/-- The other names are still new when the first one has been inserted. -/
theorem Fresh.insert {names : List String} (hlevel : symbol.level = S.current.level)
    (h : S.Fresh (symbol.name :: names)) : (S.insert symbol).Fresh names := by
  rw [insert_eq_append (h.2 _ List.mem_cons_self) hlevel]
  exact Fresh.append [symbol] h

theorem Grounded.known (h : S.Grounded) {t : Token} (ht : t.kind.isBasicType = true) :
    (Reliance.known S t).Holds := by
  have hlookup := h.types.lookup_type ht
  obtain ⟨inner, outermost, hscopes, hinner, hfound⟩ := h.leveled.exists_outermost hlookup rfl
  exact ⟨inner, outermost, hscopes, hinner, hfound, hlookup⟩

end Scopes

namespace Resolver

variable {α β : Type} {x : Resolver α}

def insertedNames (events : List ScopeEvent) : List String :=
  events.reverse.filterMap ScopeEvent.inserted?

theorem insertedNames_cons (e : ScopeEvent) (events : List ScopeEvent) :
    insertedNames (e :: events) = insertedNames events ++ e.inserted?.toList := by
  rw [insertedNames, List.reverse_cons, List.filterMap_append]
  cases e <;> rfl

def Blameless (result : Except Diagnostic α) : Prop :=
  ∀ d, result = .error d → ¬ d.BlamesType

theorem blameless_ok (a : α) : Blameless (.ok a) := by
  intro d hd
  cases hd

theorem blameless_error {d : Diagnostic} (h : ¬ d.BlamesType) :
    Blameless (.error d : Except Diagnostic α) := by
  intro d' hd
  cases hd
  exact h

def Plain (x : Resolver α) : Prop :=
  ∀ ⦃f result f'⦄, x f = (result, f') →
    insertedNames f'.events = insertedNames f.events ∧ Blameless result

theorem Plain.bind {g : α → Resolver β} (hx : Plain x) (hg : ∀ a, Plain (g a)) :
    Plain (x >>= g) := by
  intro f result f' h
  rcases hrun : x f with ⟨d | a, f₁⟩
  · rw [Stateful.bind_of_error hrun] at h
    cases h
    obtain ⟨hnames, hd⟩ := hx hrun
    exact ⟨hnames, blameless_error (hd d rfl)⟩
  · rw [Stateful.bind_of_ok hrun] at h
    obtain ⟨hnames, hd⟩ := hg a h
    exact ⟨hnames.trans (hx hrun).1, hd⟩

theorem plain_pure (a : α) : Plain (pure a) := by
  intro f result f' h
  cases h
  exact ⟨rfl, blameless_ok a⟩

theorem plain_note {e : ScopeEvent} (he : e.inserted? = none) : Plain (note e) := by
  intro f result f' h
  cases h
  refine ⟨?_, blameless_ok ()⟩
  rw [insertedNames_cons, he, Option.toList_none, List.append_nil]

theorem plain_fail (t : Token) {c : Cause} (hc : ∀ name, c ≠ .typeNotFound name) :
    Plain (fail t c : Resolver α) := by
  intro f result f' h
  cases h
  refine ⟨rfl, blameless_error ?_⟩
  rintro ⟨name, hname⟩
  exact hc name hname

theorem plain_modify {change : Findings → Findings}
    (hchange : ∀ f, (change f).events = f.events) : Plain (modify change : Resolver Unit) := by
  intro f result f' h
  cases h
  exact ⟨congrArg insertedNames (hchange f), blameless_ok ()⟩

theorem holdsOfSteps_plain : HoldsOfSteps Plain where
  nothing := plain_pure ()
  sequence hx hy := hx.bind fun _ => hy
  lookUp _ _ := plain_note rfl
  enterReference _ _ := plain_modify fun _ => rfl
  enterCall _ _ := plain_modify fun _ => rfl
  noVariable t _ := plain_fail t fun _ => Cause.noConfusion
  noProcedure t _ := plain_fail t fun _ => Cause.noConfusion
  wrongArity t _ _ _ := plain_fail t fun _ => Cause.noConfusion

theorem plain_enter (S : Scopes) (name : String) : Plain (enter S name) :=
  (plain_note rfl).bind fun _ => plain_pure _

theorem plain_leave (S : Scopes) : Plain (leave S) := plain_note rfl

theorem plain_noRepetition (S : Scopes) (decls : List Decl) : Plain (noRepetition S decls) := by
  unfold noRepetition
  split
  · exact plain_fail _ fun _ => Cause.noConfusion
  · exact plain_pure ()

end Resolver

/-- All that was relied on holds, and the insertions among it are those of the log. -/
structure Watch.Sound (w : Watch) : Prop where
  holds : ∀ r ∈ w.relied, r.Holds
  logged : w.relied.filterMap Reliance.inserted? = Resolver.insertedNames w.found.events

theorem Watch.Sound.rely {w : Watch} (hw : w.Sound) {r : Reliance} (hr : r.Holds)
    {found : Findings} (hnames : Resolver.insertedNames found.events =
      Resolver.insertedNames w.found.events ++ r.inserted?.toList) :
    Watch.Sound { found, relied := w.relied ++ [r] } := by
  constructor
  · intro r' hr'
    rcases List.mem_append.mp hr' with hr' | hr'
    · exact hw.holds r' hr'
    · rw [List.mem_singleton.mp hr']
      exact hr
  · rw [List.filterMap_append, hw.logged, hnames]
    cases r <;> rfl

namespace Watched

open Resolver (Plain Blameless)

section

variable {α β : Type} {x : Watched α} {w w' : Watch}

def Safe (x : Watched α) : Prop :=
  ∀ ⦃w result w'⦄, w.Sound → x w = (result, w') → w'.Sound ∧ Blameless result

theorem Safe.bind {g : α → Watched β} (hx : Safe x)
    (hg : ∀ w a w', x w = (.ok a, w') → Safe (g a)) : Safe (x >>= g) := by
  intro w result w' hw h
  rcases hrun : x w with ⟨d | a, w₁⟩
  · rw [Stateful.bind_of_error hrun] at h
    cases h
    obtain ⟨hw', hd⟩ := hx hw hrun
    exact ⟨hw', Resolver.blameless_error (hd d rfl)⟩
  · rw [Stateful.bind_of_ok hrun] at h
    exact hg w a w₁ hrun (hx hw hrun).1 h

theorem safe_pure (a : α) : Safe (pure a) := by
  intro w result w' hw h
  cases h
  exact ⟨hw, Resolver.blameless_ok a⟩

theorem safe_lift {x : Resolver α} (hx : Plain x) : Safe (lift x) := by
  intro w result w' hw h
  cases h
  obtain ⟨hnames, hd⟩ := hx (f := w.found) rfl
  exact ⟨⟨hw.holds, hw.logged.trans hnames.symm⟩, hd⟩

/-- Scopes that come of a step of the resolver which enters nothing in the tables. -/
theorem Follows.settled {x : Resolver α} {x' : Watched α} {P : α → Resolution → Prop} {a : α}
    (h : Follows x' x) (hx : Resolver.Settles [] x P) (hw : x' w = (.ok a, w')) : P a default :=
  (hx (h.answer hw)).2 List.nodup_nil default (List.forall_mem_nil _)

end

variable {S : Scopes}

theorem safe_insert {symbol : Symbol} (h : S.current.find? symbol.name = none) :
    Safe (insert S symbol) := by
  intro w result w' hw hrun
  cases hrun
  have hnames := Resolver.insertedNames_cons (.inserted symbol.name) w.found.events
  exact ⟨hw.rely (Scopes.taken_of_new h) hnames, Resolver.blameless_ok _⟩

theorem safe_type (hS : S.Grounded) {t : Token} (ht : t.kind.isBasicType = true) :
    Safe (type S t) := by
  have htype : Resolver.type S t = pure () := by
    unfold Resolver.type
    rw [hS.types.lookup_type ht]
  intro w result w' hw hrun
  rw [type, htype] at hrun
  cases hrun
  exact ⟨hw.rely (hS.known ht) (List.append_nil _).symm, Resolver.blameless_ok ()⟩

theorem safe_types (hS : S.Grounded) {ps : List Param}
    (hps : ∀ p ∈ ps, p.type.kind.isBasicType = true) : Safe (types S ps) := by
  induction ps with
  | nil => exact safe_pure ()
  | cons p rest ih =>
    obtain ⟨hp, hrest⟩ := List.forall_mem_cons.mp hps
    exact (safe_type hS hp).bind fun _ _ _ _ => ih hrest

/-- What follows the insertion of a new name goes on with it inserted. -/
theorem safe_insert_bind {β : Type} {symbol : Symbol} {g : Scopes → Watched β}
    (h : S.current.find? symbol.name = none) (hg : Safe (g (S.insert symbol))) :
    Safe (insert S symbol >>= g) := by
  apply (safe_insert h).bind
  intro w S' w' hinsert
  have hS' : S' = S.insert symbol :=
    (follows_insert S symbol).settled (Resolver.insert_settles S symbol) hinsert
  rw [hS']
  exact hg

theorem safe_params (S : Scopes) (ps : List Param) : Safe (params S ps) := by
  induction ps generalizing S with
  | nil => exact safe_pure S
  | cons p rest ih =>
    rw [params]
    cases hfind : S.current.find? p.name.name with
    | some found =>
      rw [Option.isSome_some, if_pos rfl]
      exact safe_lift (Resolver.plain_fail _ fun _ => Cause.noConfusion)
    | none =>
      rw [Option.isSome_none, if_neg Bool.false_ne_true]
      exact (safe_insert hfind).bind fun _ S' _ _ => ih S'

theorem safe_procedures (hS : S.Grounded) {decls : List Decl}
    (hdecls : ∀ node ∈ Decl.nodesAll decls, node.Admissible)
    (hfresh : S.Fresh ((Decl.procedureSymbols S.current.level decls).map Symbol.name)) :
    Safe (procedures S decls) := by
  induction decls generalizing S with
  | nil => exact safe_pure S
  | cons d rest ih =>
    rw [Decl.nodesAll, List.forall_mem_append] at hdecls
    obtain ⟨hd, hrest⟩ := hdecls
    cases d with
    | «variable» => exact ih hS hrest hfresh
    | procedure name ps block =>
      let symbol : Symbol := .procedure (.declared S.current.level name ps block)
      rw [Decl.nodes, List.forall_mem_cons, List.forall_mem_append] at hd
      obtain ⟨hname, hps, _⟩ := hd
      have hnew : S.current.find? symbol.name = none := hfresh.2 _ List.mem_cons_self
      have hgrounded : (S.insert symbol).Grounded := hS.insert hname
      apply (safe_types hS fun p hp => (Param.admissible hps p hp).2).bind
      intro _ _ _ _
      apply safe_insert_bind hnew
      apply ih hgrounded hrest
      rw [Scopes.level_insert]
      exact Scopes.Fresh.insert rfl hfresh

mutual

theorem safe_declarations {S : Scopes} (hS : S.Grounded) : ∀ decls : List Decl,
    (∀ node ∈ Decl.nodesAll decls, node.Admissible) →
      S.Fresh ((Decl.variableSymbols S.current.level decls).map Symbol.name) →
        Safe (declarations S decls)
  | [], _, _ => safe_pure S
  | .variable name type :: rest, hdecls, hfresh => by
    let symbol : Symbol := .variable (.declared S.current.level name type)
    rw [Decl.nodesAll, Decl.nodes, List.forall_mem_append, List.forall_mem_cons,
      List.forall_mem_singleton] at hdecls
    obtain ⟨⟨hname, htype⟩, hrest⟩ := hdecls
    have hnew : S.current.find? symbol.name = none := hfresh.2 _ List.mem_cons_self
    have hgrounded : (S.insert symbol).Grounded := hS.insert hname
    rw [declarations, declaration]
    simp only [bind_assoc]
    apply (safe_type hS htype).bind
    intro _ _ _ _
    apply safe_insert_bind hnew
    apply safe_declarations hgrounded rest hrest
    rw [Scopes.level_insert]
    exact Scopes.Fresh.insert rfl hfresh
  | .procedure name ps block :: rest, hdecls, hfresh => by
    rw [Decl.nodesAll, Decl.nodes, List.forall_mem_append, List.forall_mem_cons,
      List.forall_mem_append] at hdecls
    obtain ⟨⟨_, hps, hblock⟩, hrest⟩ := hdecls
    rw [declarations, declaration]
    simp only [bind_assoc, pure_bind]
    apply (safe_lift (Resolver.plain_enter S name.name)).bind
    intro w inner w₁ henter
    have hinner := (follows_lift _).settled (Resolver.enter_settles S name.name) henter
    apply (safe_params inner ps).bind
    intro w₁ inner' w₂ hparams
    obtain ⟨_, hinner'⟩ :=
      (follows_params inner ps).settled (Resolver.params_settles inner ps) hparams
    have hnames : ∀ symbol ∈ Param.symbols inner.current.level ps, ¬ IsBuiltin symbol.name := by
      intro symbol hsymbol
      obtain ⟨p, hp, rfl⟩ := List.mem_map.mp hsymbol
      exact (Param.admissible hps p hp).1
    have hgrounded : inner'.Grounded := by
      rw [hinner', hinner]
      exact (hS.enter name.name).insertAll (hinner ▸ hnames)
    apply (safe_block hgrounded block hblock).bind
    intro _ inner' _ _
    apply (safe_lift (Resolver.plain_leave inner')).bind
    intro _ _ _ _
    exact safe_declarations hS rest hrest hfresh

theorem safe_block {S : Scopes} (hS : S.Grounded) : ∀ b : Block,
    (∀ node ∈ b.nodes, node.Admissible) → Safe (block S b)
  | .mk decls start body, hb => by
    rw [Block.nodes, List.forall_mem_cons, List.forall_mem_append] at hb
    obtain ⟨_, hdecls, _⟩ := hb
    have hnames := Decl.admissible hdecls
    rw [block]
    apply (safe_lift (Resolver.plain_noRepetition S decls)).bind
    intro w _ w₁ hnew
    -- the block is left here unless all names are new
    have hfresh := (follows_lift _).settled (Resolver.noRepetition_settles S decls) hnew
    apply (safe_procedures hS hdecls hfresh.symbols.left).bind
    intro w₁ S₁ w₂ hprocedures
    have hknown :=
      (follows_procedures S decls).settled (Resolver.procedures_settles S decls) hprocedures
    have hgrounded : S₁.Grounded := by
      rw [hknown]
      apply hS.insertAll
      intro symbol hsymbol
      rw [Decl.procedureSymbols_eq, List.mem_map] at hsymbol
      obtain ⟨d, hd, rfl⟩ := hsymbol
      rw [Decl.name_symbol]
      exact hnames d (List.mem_filter.mp hd).1
    have hvariables :
        S₁.Fresh ((Decl.variableSymbols S₁.current.level decls).map Symbol.name) := by
      rw [hknown, Scopes.withProcedures_eq_append hfresh]
      exact hfresh.symbols.append
    apply (safe_declarations hgrounded decls hdecls hvariables).bind
    intro _ S₂ _ _
    apply (safe_lift (Resolver.holdsOfSteps_plain.statements S₂ body)).bind
    intro _ _ _ _
    exact safe_pure S₂

end

theorem safe_program {p : Program} (hp : ∀ node ∈ p.nodes, node.Admissible) : Safe (program p) := by
  simp only [program, inserts, Resolver.builtins, bind_assoc, pure_bind]
  apply (safe_lift (Resolver.plain_note rfl)).bind
  intro _ _ _ _
  apply safe_insert_bind rfl
  apply safe_insert_bind (by decide)
  apply (safe_block Scopes.grounded_globals p.block (List.forall_mem_cons.mp hp).2).bind
  intro _ S₂ _ _
  apply (safe_lift (Resolver.plain_leave S₂)).bind
  intro _ _ _ _
  exact safe_pure S₂.current

end Watched

namespace Program

/-- Watching a program resolved gives the same answer and the same events. -/
theorem watch_fst (p : Program) : p.watch.1 = p.resolve := by
  have hfollows : (Resolver.program p).run.run {} = _ := Watched.follows_program p {}
  rw [watch, resolve, hfollows]
  rcases Watched.program p {} with ⟨d | globals, w⟩
  · rfl
  · rfl

/-- No identifier is a keyword in any letter case. In a program that was read, whether it can be
resolved or not, every insertion of a symbol is accepted by the scope, and every type is found in
the outermost scope. These are the insertions of the log, and no diagnostic is about a type that is
not known. -/
theorem insertions_and_types_never_fail {file : String} {source : Bytes} {index : Nat}
    {p : Program} (hp : Program.ofSource file source index = .ok p) :
    (∀ (c c' : Cursor) (t : Token), c.next = (.ok t, c') → t.kind = .identifier →
      ∀ k ∈ Kind.keywords, t.name.toList.map Char.toUpper ≠ k.text.toList) ∧
    p.watch.1 = p.resolve ∧ (∀ r ∈ p.watch.2, r.Holds) ∧
    p.watch.2.filterMap Reliance.inserted? = p.resolve.2.filterMap ScopeEvent.inserted? ∧
    ∀ d, p.resolve.1 = .error d → ¬ d.BlamesType := by
  have hstart : Watch.Sound {} := ⟨List.forall_mem_nil _, rfl⟩
  have hwatch := watch_fst p
  refine ⟨fun c c' t hnext hkind => Kind.upper_ne_of_ofWord? (Cursor.ofWord?_of_next hnext hkind),
    hwatch, ?_⟩
  rw [← hwatch]
  rcases hrun : Watched.program p {} with ⟨result, w⟩
  obtain ⟨hw, hresult⟩ := Watched.safe_program (admissible_nodes hp) hstart hrun
  unfold watch
  rw [hrun]
  cases result with
  | error d => exact ⟨hw.holds, hw.logged, Resolver.blameless_error (hresult d rfl)⟩
  | ok globals => exact ⟨hw.holds, hw.logged, Resolver.blameless_ok _⟩

/-- The variable `x` of `f` is inserted beside that of the program, and then `y` is not found. -/
theorem insertions_and_types_never_fail_nested :
    let source := ("program p; var x : real; procedure f(a : integer); var X, x : integer; " ++
      "begin y := x end; begin end.").toList.map fun c => c.toNat.toUInt8
    ∃ p d, Program.ofSource "p.pas" source = .ok p ∧ p.resolve.1 = .error d ∧
      p.watch.2.filterMap Reliance.inserted? = ["INTEGER", "REAL", "f", "x", "a", "X", "x"] ∧
      (p.watch.2.filter fun r => r.inserted?.isNone).length = 4 ∧
      (∀ r ∈ p.watch.2, r.Holds) ∧ ¬ d.BlamesType := by
  intro source
  have heval : ((Program.ofSource "p.pas" source).toOption.any fun p =>
      p.resolve.1.toOption.isNone && decide (p.watch.2.filterMap Reliance.inserted? =
          ["INTEGER", "REAL", "f", "x", "a", "X", "x"] ∧
        (p.watch.2.filter fun r => r.inserted?.isNone).length = 4)) = true := by
    decide +kernel
  obtain ⟨p, hp, hfacts⟩ := (Option.any_eq_true _ _).mp heval
  rw [Bool.and_eq_true, decide_eq_true_eq] at hfacts
  obtain ⟨hnone, hnames, htypes⟩ := hfacts
  obtain ⟨_, _, hholds, _, hblame⟩ := insertions_and_types_never_fail (eq_ok_of_toOption hp)
  rcases hresolve : p.resolve.1 with d | r
  · exact ⟨p, d, eq_ok_of_toOption hp, hresolve, hnames, htypes, hholds, hblame d hresolve⟩
  · rw [hresolve] at hnone
    cases hnone

end Program

end MiniPascal
