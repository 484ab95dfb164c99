import MiniPascal.Proofs.Resolution.Thorough
import MiniPascal.Proofs.Stage
import MiniPascal.Resolution.Annotating

/-!
# Resolving and annotating at once

The annotator gives the answers of the resolver, and it enters the error that it ends with, once.
The scopes that it has open and its tables are those that the resolver has at the same point. What
it writes on the way is the program with the labels of the finished resolution, if that fits the
program: a label written for a use shows what the name stands for there, and this is what the tables
say in the end.
-/
namespace MiniPascal

structure Annotator.Holds (a : Annotator) (scopes : List Scope) (f : Findings) (out : String) :
    Prop where
  scopes : a.scopes = scopes
  references : a.references = f.references
  calls : a.calls = f.calls
  out : a.out = out

theorem Annotator.logged_insert (a : Annotator) (symbol : Symbol) :
    (a.insert symbol).logged = a.logged := by
  unfold insert
  split <;> rfl

namespace Annotator.Holds

variable {a : Annotator} {S : Scopes} {f : Findings} {out : String}

theorem current_eq (h : a.Holds S.toList f out) : a.current = S.current := by
  rw [Annotator.current, h.scopes]
  rfl

theorem lookup_eq (h : a.Holds S.toList f out) (x : String) : a.lookup x = S.lookup x := by
  rw [Annotator.lookup, h.scopes]
  rfl

theorem insert (h : a.Holds S.toList f out) (symbol : Symbol) :
    (a.insert symbol).Holds (S.insert symbol).toList f out := by
  refine ⟨?_, ?_, ?_, ?_⟩ <;> rw [Annotator.insert, h.scopes]
  · rfl
  · exact h.references
  · exact h.calls
  · exact h.out

theorem enter (h : a.Holds S.toList f out) (name : String) :
    (a.enter name).Holds (S.enter name).toList f out := by
  refine ⟨?_, h.references, h.calls, h.out⟩
  rw [Annotator.enter, Annotator.nextLevel, h.scopes]
  rfl

theorem leave (h : a.Holds S.toList f out) : a.leave.Holds S.enclosing f out := by
  refine ⟨?_, h.references, h.calls, h.out⟩
  rw [Annotator.leave, h.scopes]
  rfl

end Annotator.Holds

namespace Scopes

/-- Inserting symbols changes the innermost scope only, and not its level. -/
theorem frame_insertAll (S : Scopes) (symbols : List Symbol) :
    (S.insertAll symbols).enclosing = S.enclosing ∧
      (S.insertAll symbols).current.level = S.current.level := by
  unfold insertAll
  induction symbols generalizing S with
  | nil => exact ⟨rfl, rfl⟩
  | cons symbol rest ih =>
    obtain ⟨henclosing, hlevel⟩ := ih (S.insert symbol)
    exact ⟨henclosing, hlevel.trans (S.level_insert symbol)⟩

theorem frame_declare (S : Scopes) (d : Decl) :
    (S.declare d).enclosing = S.enclosing ∧ (S.declare d).current.level = S.current.level := by
  cases d with
  | «variable» name type => exact ⟨rfl, S.level_insert _⟩
  | procedure name params block => exact ⟨rfl, rfl⟩

theorem frame_body (S : Scopes) (decls : List Decl) :
    (S.body decls).enclosing = S.enclosing ∧ (S.body decls).current.level = S.current.level := by
  have hfold (T : Scopes) (decls : List Decl) : (decls.foldl declare T).enclosing = T.enclosing ∧
      (decls.foldl declare T).current.level = T.current.level := by
    induction decls generalizing T with
    | nil => exact ⟨rfl, rfl⟩
    | cons d rest ih =>
      obtain ⟨henclosing, hlevel⟩ := T.frame_declare d
      obtain ⟨henclosing', hlevel'⟩ := ih (T.declare d)
      exact ⟨henclosing'.trans henclosing, hlevel'.trans hlevel⟩
  obtain ⟨henclosing, hlevel⟩ := S.frame_insertAll (Decl.procedureSymbols S.current.level decls)
  obtain ⟨henclosing', hlevel'⟩ := hfold (S.withProcedures decls) decls
  exact ⟨henclosing'.trans henclosing, hlevel'.trans hlevel⟩

end Scopes

namespace Annotating

variable {α β γ δ : Type} {scopes : List Scope} {S : Scopes}

/-- What a computation does where the resolver gives an answer. `P` speaks of both values, of the
scopes that are open then, and of what has been written. -/
inductive Matches (P : α → β → List Scope → String → Prop) (x : Annotating α) (a : Annotator)
    (out : String) : Except Diagnostic β × Findings → Prop
  | ok {v : α} {b : β} {a' : Annotator} {f : Findings} {scopes : List Scope} {w : String}
      (hx : x.Ends a (.ok v) a') (hlogged : a'.logged = a.logged)
      (ha : a'.Holds scopes f (out ++ w)) (hP : P v b scopes w) : Matches P x a out (.ok b, f)
  | error {d : Diagnostic} {a' : Annotator} (hx : x.Ends a (.error d) a')
      (hlogged : a'.logged = a.logged) (f : Findings) : Matches P x a out (.error d, f)

/-- A computation does what the resolver does where these scopes are open. -/
def Follows (scopes : List Scope) (x : Annotating α) (y : Resolver β)
    (P : α → β → List Scope → String → Prop) : Prop :=
  ∀ ⦃a f out⦄, a.Holds scopes f out → Matches P x a out (y f)

def Within (S : Scopes) (fits : Prop) (R : α → String → Prop) :
    α → β → List Scope → String → Prop :=
  fun v _ T w => S.toList = T ∧ (fits → R v w)

def Opens (S : Scopes) (fits : Prop) (R : α → String → Prop) :
    α → Scopes → List Scope → String → Prop :=
  fun v b T w => S = b ∧ S.toList = T ∧ (fits → R v w)

section

variable {x : Annotating α} {y : Resolver β} {P : α → β → List Scope → String → Prop}

theorem Follows.mono {Q : α → β → List Scope → String → Prop} (h : Follows scopes x y P)
    (hPQ : ∀ v b T w, P v b T w → Q v b T w) : Follows scopes x y Q := by
  intro a f out ha
  have hmatch := h ha
  generalize y f = answer at hmatch ⊢
  cases hmatch with
  | ok hx hl ha' hP => exact .ok hx hl ha' (hPQ _ _ _ _ hP)
  | error hx hl f => exact .error hx hl f

theorem Follows.bind {g : α → Annotating γ} {k : β → Resolver δ}
    {Q : γ → δ → List Scope → String → Prop} (hx : Follows scopes x y P)
    (hg : ∀ v b T w, P v b T w → Follows T (g v) (k b) fun v' b' T' w' => Q v' b' T' (w ++ w')) :
    Follows scopes (x >>= g) (y >>= k) Q := by
  intro a f out ha
  have hmatch := hx ha
  generalize hy : y f = answer at hmatch
  cases hmatch with
  | @ok v b _ _ _ w hx hl ha' hP =>
    rw [Stateful.bind_of_ok hy]
    have hmatch := hg v b _ w hP ha'
    generalize k b _ = answer at hmatch ⊢
    cases hmatch with
    | ok hg hl' ha'' hQ =>
      rw [String.append_assoc] at ha''
      exact .ok (hx.bind hg) (hl'.trans hl) ha'' hQ
    | error hg hl' f => exact .error (hx.bind hg) (hl'.trans hl) f
  | error hx hl f =>
    rw [Stateful.bind_of_error hy]
    exact .error hx.bind_error hl f

theorem follows_pure {v : α} {b : β} (h : P v b scopes "") :
    Follows scopes (pure v) (pure b) P := by
  intro a f out ha
  exact .ok (Stage.ends_pure a v) rfl (by rwa [String.append_empty]) h

theorem follows_fail (t : Token) (c : Cause) : Follows scopes (fail t c) (Resolver.fail t c) P :=
  fun _ f _ _ => .error (Stage.ends_fail _ _) rfl f

/-- Some steps of the annotator are none of the resolver. -/
theorem Follows.before {g : γ → Annotating α} {z : Annotating γ}
    {R : γ → Unit → List Scope → String → Prop} (hz : Follows scopes z (pure ()) R)
    (hg : ∀ v T w, R v () T w → Follows T (g v) y fun v' b T' w' => P v' b T' (w ++ w')) :
    Follows scopes (z >>= g) y P := by
  have h := hz.bind (k := fun _ => y) fun v _ T w hR => hg v T w hR
  rwa [pure_bind] at h

theorem Follows.behind {g : α → Annotating γ} {Q : γ → β → List Scope → String → Prop}
    (hx : Follows scopes x y P) (hg : ∀ v b T w, P v b T w →
      Follows T (g v) (pure b) fun v' b' T' w' => Q v' b' T' (w ++ w')) :
    Follows scopes (x >>= g) y Q := by
  have h := hx.bind (k := pure) hg
  rwa [bind_pure] at h

theorem Follows.returning {g : β → δ} {Q : α → δ → List Scope → String → Prop}
    (hx : Follows scopes x y P) (hQ : ∀ v b T w, P v b T w → Q v (g b) T w) :
    Follows scopes x (do return g (← y)) Q := by
  have h := hx.bind (g := pure) (k := fun b => pure (g b)) (Q := Q) fun v b T w hP =>
    follows_pure (by rw [String.append_empty]; exact hQ v b T w hP)
  rwa [bind_pure] at h

end

/-- Something is found out about the scopes. -/
theorem Follows.asking {g : Annotator → γ} {v : γ} {k : γ → Annotating α} {y : Resolver β}
    {P : α → β → List Scope → String → Prop} (hg : ∀ {a f out}, a.Holds S.toList f out → g a = v)
    (h : Follows S.toList (k v) y P) : Follows S.toList (Stage.ask g >>= k) y P := by
  intro a f out ha
  have hask := Stage.ends_ask g a (ε := Diagnostic)
  rw [hg ha] at hask
  have hmatch := h ha
  generalize y f = answer at hmatch ⊢
  cases hmatch with
  | ok hx hl ha' hP => exact .ok (hask.bind hx) hl ha' hP
  | error hx hl f => exact .error (hask.bind hx) hl f

/-- A step after which all is as it was. -/
theorem Follows.quiet_bind {x : Annotating α} {y : Resolver β} {g : α → Annotating γ}
    {k : β → Resolver δ} {Q : γ → δ → List Scope → String → Prop}
    (hx : Follows S.toList x y (Within S True fun _ w => w = ""))
    (hg : ∀ v b, Follows S.toList (g v) (k b) Q) : Follows S.toList (x >>= g) (y >>= k) Q := by
  refine hx.bind fun v b T w ⟨hT, hw⟩ => ?_
  subst hT
  rw [hw trivial]
  simpa only [String.empty_append] using hg v b

/-- A step that opens other scopes and writes nothing. -/
theorem Follows.quiet_open {S' : Scopes} {x : Annotating α} {y : Resolver Scopes}
    {g : α → Annotating γ} {k : Scopes → Resolver δ} {Q : γ → δ → List Scope → String → Prop}
    (hx : Follows S.toList x y (Opens S' True fun _ w => w = ""))
    (hg : ∀ v, Follows S'.toList (g v) (k S') Q) : Follows S.toList (x >>= g) (y >>= k) Q := by
  refine hx.bind fun v b T w ⟨hb, hT, hw⟩ => ?_
  subst hb hT
  rw [hw trivial]
  simpa only [String.empty_append] using hg v

theorem follows_line (i : Nat) (s : String) (b : β) :
    Follows S.toList (line i s) (pure b) fun _ b' T w =>
      b = b' ∧ S.toList = T ∧ w = renderedLine i s := by
  intro a f out ha
  have hout : (a.out ++ renderedLine i s) = out ++ renderedLine i s := by rw [ha.out]
  exact .ok (Stage.ends_change _ a) rfl ⟨ha.scopes, ha.references, ha.calls, hout⟩ ⟨rfl, rfl, rfl⟩

theorem ends_log (e : ScopeEvent) (a : Annotator) : (log e).Ends a (.ok ()) a := by
  refine (Stage.ends_ask Annotator.logged a).bind ?_
  split
  · exact Stage.ends_print e.text a
  · exact Stage.ends_pure a ()

theorem follows_log (e : ScopeEvent) :
    Follows S.toList (log e) (Resolver.note e) (Within S True fun _ w => w = "") := by
  intro a f out ha
  have hout : a.out = out ++ "" := by rw [ha.out, String.append_empty]
  exact .ok (ends_log e a) rfl ⟨ha.scopes, ha.references, ha.calls, hout⟩ ⟨rfl, fun _ => rfl⟩

theorem follows_insert (symbol : Symbol) :
    Follows S.toList (insert symbol) (Resolver.insert S symbol)
      (Opens (S.insert symbol) True fun _ w => w = "") := by
  refine (follows_log _).quiet_bind fun _ _ => ?_
  intro a f out ha
  refine .ok (Stage.ends_change _ a) (a.logged_insert symbol) ?_ ⟨rfl, rfl, fun _ => rfl⟩
  rw [String.append_empty]
  exact ha.insert symbol

theorem follows_enter (name : String) :
    Follows S.toList (enter name) (Resolver.enter S name)
      (Opens (S.enter name) True fun _ w => w = "") := by
  refine (follows_log _).quiet_bind fun _ _ => ?_
  intro a f out ha
  refine .ok (Stage.ends_change _ a) rfl ?_ ⟨rfl, rfl, fun _ => rfl⟩
  rw [String.append_empty]
  exact ha.enter name

theorem ends_leave (a : Annotator) : leave.Ends a (.ok ()) a.leave :=
  (Stage.ends_ask _ a).bind <| (Stage.ends_ask _ a).bind <|
    (ends_log _ a).bind (Stage.ends_change _ a)

theorem follows_leave : Follows S.toList leave (Resolver.leave S) fun _ _ T w =>
    S.enclosing = T ∧ w = "" := by
  intro a f out ha
  refine .ok (ends_leave a) rfl ?_ ⟨rfl, rfl⟩
  obtain ⟨hscopes, hreferences, hcalls, hout⟩ := ha.leave
  exact ⟨hscopes, hreferences, hcalls, hout.trans (String.append_empty).symm⟩

/-- The resolver looks up names in the scopes that the annotator has open. -/
theorem Follows.lookingUp {t : Token} {k : Option Symbol → Annotating α} {y : Resolver β}
    {P : α → β → List Scope → String → Prop} (h : Follows S.toList (k (S.lookup t.name)) y P) :
    Follows S.toList (lookUp t >>= k)
      (do Resolver.note (.lookedUp t.name S.current.name); y) P := by
  unfold lookUp
  simp only [bind_assoc]
  refine Follows.asking (v := S.current) (fun ha => ha.current_eq) ?_
  exact (follows_log _).quiet_bind fun _ _ => Follows.asking (fun ha => ha.lookup_eq t.name) h

theorem follows_type (t : Token) :
    Follows S.toList (type t) (Resolver.type S t) (Within S True fun _ w => w = "") := by
  refine Follows.asking (fun ha => ha.lookup_eq t.kind.text) ?_
  unfold Resolver.type
  cases S.lookup t.kind.text with
  | none => exact follows_fail t _
  | some symbol =>
    cases symbol with
    | builtinType name level => exact follows_pure ⟨rfl, fun _ => rfl⟩
    | _ => exact follows_fail t _

theorem follows_types (ps : List Param) :
    Follows S.toList (types ps) (Resolver.types S ps) (Within S True fun _ w => w = "") := by
  induction ps with
  | nil => exact follows_pure ⟨rfl, fun _ => rfl⟩
  | cons p rest ih => exact (follows_type p.type).quiet_bind fun _ _ => ih

theorem follows_refer (i : Nat) (v : Variable) :
    Follows S.toList (Stage.change fun a => { a with references := a.references.insert i v })
      (modify fun f => { f with references := f.references.insert i v })
      (Within S True fun _ w => w = "") := by
  intro a f out ha
  refine .ok (Stage.ends_change _ a) rfl ⟨ha.scopes, ?_, ha.calls, ?_⟩ ⟨rfl, fun _ => rfl⟩
  · exact congrArg (Table.insert · i v) ha.references
  · exact ha.out.trans (String.append_empty).symm

theorem follows_enlist (i : Nat) (p : Procedure) :
    Follows S.toList (Stage.change fun a => { a with calls := a.calls.insert i p })
      (modify fun f => { f with calls := f.calls.insert i p })
      (Within S True fun _ w => w = "") := by
  intro a f out ha
  refine .ok (Stage.ends_change _ a) rfl ⟨ha.scopes, ha.references, ?_, ?_⟩ ⟨rfl, fun _ => rfl⟩
  · exact congrArg (Table.insert · i p) ha.calls
  · exact ha.out.trans (String.append_empty).symm

theorem follows_noRepetition (decls : List Decl) :
    Follows S.toList (noRepetition decls) (Resolver.noRepetition S decls)
      (Within S True fun _ w => w = "") := by
  refine Follows.asking (fun ha => ha.current_eq) ?_
  unfold Resolver.noRepetition
  dsimp only
  cases Resolver.firstRepeated (S.current.symbols.map Symbol.name) (decls.map Decl.name) with
  | none => exact follows_pure ⟨rfl, fun _ => rfl⟩
  | some t => exact follows_fail t _

theorem Follows.checking {t : Token} {k : Unit → Annotating α} {y : Resolver Scopes}
    {P : α → Scopes → List Scope → String → Prop} (h : Follows S.toList (k ()) y P) :
    Follows S.toList (checkNew t >>= k) (Resolver.Thorough.ifNew S t y) P := by
  unfold checkNew Resolver.Thorough.ifNew
  simp only [bind_assoc]
  refine Follows.asking (fun ha => ha.current_eq) ?_
  split
  · exact follows_fail t _
  · simpa only [pure_bind] using h

theorem follows_procedures (decls : List Decl) :
    Follows S.toList (procedures decls) (Resolver.Thorough.procedures S decls)
      (Opens (S.withProcedures decls) True fun _ w => w = "") := by
  unfold Scopes.withProcedures Scopes.insertAll
  induction decls generalizing S with
  | nil => exact follows_pure ⟨rfl, rfl, fun _ => rfl⟩
  | cons d rest ih =>
    cases d with
    | «variable» name type => exact ih
    | procedure name params block =>
      rw [procedures, Resolver.Thorough.procedures, Resolver.Thorough.ifNew_bind]
      refine Follows.checking ?_
      simp only [bind_assoc]
      refine (follows_types params).quiet_bind fun _ _ => ?_
      refine Follows.asking (fun ha => ha.current_eq) ?_
      refine (follows_insert _).quiet_open fun _ => ?_
      have hrest := ih (S := S.insert (.procedure (.declared S.current.level name params block)))
      rw [Scopes.level_insert] at hrest
      exact hrest

section

variable (r : Resolution)

/-- What is written for a reference shows what it stands for. -/
theorem follows_reference (t : Token) :
    Follows S.toList (reference t) (Resolver.reference S t)
      (Within S ((Node.expr (.variable t)).Resolved r S)
        fun v w => v = r.labelling.reference t ∧ w = "") := by
  refine Follows.lookingUp ?_
  cases hlookup : S.lookup t.name with
  | none => exact follows_fail t _
  | some symbol =>
    cases symbol with
    | «variable» v =>
      refine (follows_refer t.index v).behind fun _ _ T w ⟨hT, hw⟩ => ?_
      refine follows_pure ⟨hT, fun ⟨v', hv', hentry⟩ => ⟨?_, ?_⟩⟩
      · cases hlookup.symm.trans hv'
        simp only [Resolution.labelling, hentry]
      · rw [hw trivial, String.append_empty]
    | _ => exact follows_fail t _

theorem follows_expression : ∀ e : Expr,
    Follows S.toList (expression e) (Resolver.expression S e)
      (Within S (∀ node ∈ e.nodes, node.Resolved r S)
        fun v w => v = e.render r.labelling ∧ w = "")
  | .number t v => follows_pure ⟨rfl, fun _ => ⟨rfl, rfl⟩⟩
  | .variable t => (follows_reference r t).mono fun _ _ _ _ ⟨hT, hv⟩ =>
      ⟨hT, fun h => hv (List.forall_mem_singleton.mp h)⟩
  | .unary op e => by
    refine (follows_expression e).behind fun v _ T w ⟨hT, hv⟩ => ?_
    refine follows_pure ⟨hT, fun h => ?_⟩
    obtain ⟨rfl, rfl⟩ := hv (List.forall_mem_cons.mp h).2
    exact ⟨rfl, rfl⟩
  | .binary left op right => by
    refine (follows_expression left).bind fun v _ T w ⟨hT, hv⟩ => ?_
    subst hT
    refine (follows_expression right).behind fun v' _ T w' ⟨hT, hv'⟩ => ?_
    refine follows_pure ⟨hT, fun h => ?_⟩
    rw [Expr.nodes, List.forall_mem_cons, List.forall_mem_append] at h
    obtain ⟨rfl, rfl⟩ := hv h.2.1
    obtain ⟨rfl, rfl⟩ := hv' h.2.2
    exact ⟨rfl, rfl⟩

theorem follows_expressions (es : List Expr) :
    Follows S.toList (expressions es) (Resolver.expressions S es)
      (Within S (∀ node ∈ es.flatMap Expr.nodes, node.Resolved r S)
        fun v w => v = (es.map fun e => e.render r.labelling) ∧ w = "") := by
  induction es with
  | nil => exact follows_pure ⟨rfl, fun _ => ⟨rfl, rfl⟩⟩
  | cons e rest ih =>
    refine (follows_expression r e).bind fun v _ T w ⟨hT, hv⟩ => ?_
    subst hT
    refine ih.behind fun v' _ T w' ⟨hT, hv'⟩ => follows_pure ⟨hT, fun h => ?_⟩
    rw [List.flatMap_cons, List.forall_mem_append] at h
    obtain ⟨rfl, rfl⟩ := hv h.1
    obtain ⟨rfl, rfl⟩ := hv' h.2
    exact ⟨rfl, rfl⟩

theorem follows_call (name : Token) (args : List Expr) :
    Follows S.toList (call name args) (Resolver.call S name args)
      (Within S (∀ node ∈ (Stmt.call name args).nodes, node.Resolved r S)
        fun v w => v = r.labelling.call name ++ "(" ++
          String.intercalate ", " (args.map fun e => e.render r.labelling) ++ ")" ∧ w = "") := by
  refine Follows.lookingUp ?_
  cases hlookup : S.lookup name.name with
  | none => exact follows_fail name _
  | some symbol =>
    cases symbol with
    | procedure p =>
      dsimp only
      split
      · refine (follows_expressions r args).bind fun v _ T w ⟨hT, hv⟩ => ?_
        subst hT
        refine (follows_enlist name.index p).behind fun _ _ T w' ⟨hT, hw'⟩ => ?_
        refine follows_pure ⟨hT, fun h => ?_⟩
        rw [Stmt.nodes, List.forall_mem_cons] at h
        obtain ⟨⟨p', hp', _, hentry⟩, hargs⟩ := h
        obtain ⟨rfl, rfl⟩ := hv hargs
        cases hlookup.symm.trans hp'
        rw [hw' trivial]
        simp only [Resolution.labelling, hentry]
        exact ⟨trivial, rfl⟩
      · exact follows_fail name _
    | _ => exact follows_fail name _

mutual

theorem follows_statement (indent : Nat) : ∀ s : Stmt,
    Follows S.toList (statement indent s) (Resolver.statement S s)
      (Within S (∀ node ∈ s.nodes, node.Resolved r S)
        fun _ w => w = s.render r.labelling indent)
  | .compound start children => by
    refine (follows_line indent "begin" ()).before fun _ T w ⟨_, hT, hw⟩ => ?_
    subst hT hw
    refine (follows_statements (indent + 1) children).behind fun _ _ T w ⟨hT, hw⟩ => ?_
    subst hT
    refine (follows_line indent "end;" _).mono fun _ _ T w' ⟨_, hT, hw'⟩ => ⟨hT, fun h => ?_⟩
    rw [Stmt.nodes, List.forall_mem_cons] at h
    rw [hw h.2, hw', Stmt.render, String.append_assoc]
  | .assign target op value => by
    refine (follows_expression r value).bind fun v _ T w ⟨hT, hv⟩ => ?_
    subst hT
    refine (follows_reference r target).behind fun v' _ T w' ⟨hT, hv'⟩ => ?_
    subst hT
    refine (follows_line indent _ _).mono fun _ _ T w'' ⟨_, hT, hw''⟩ => ⟨hT, fun h => ?_⟩
    rw [Stmt.nodes, List.forall_mem_cons, List.forall_mem_cons] at h
    obtain ⟨rfl, rfl⟩ := hv h.2.2
    obtain ⟨rfl, rfl⟩ := hv' h.2.1
    rw [hw'']
    rfl
  | .call name args => by
    refine (follows_call r name args).behind fun v _ T w ⟨hT, hv⟩ => ?_
    subst hT
    refine (follows_line indent _ _).mono fun _ _ T w' ⟨_, hT, hw'⟩ => ⟨hT, fun h => ?_⟩
    obtain ⟨rfl, rfl⟩ := hv h
    rw [hw', Stmt.render, String.empty_append]
    simp only [String.append_assoc]
    rfl
  | .empty => follows_pure ⟨rfl, fun _ => rfl⟩

theorem follows_statements (indent : Nat) : ∀ ss : List Stmt,
    Follows S.toList (statements indent ss) (Resolver.statements S ss)
      (Within S (∀ node ∈ Stmt.nodesAll ss, node.Resolved r S)
        fun _ w => w = Stmt.renderAll r.labelling indent ss)
  | [] => follows_pure ⟨rfl, fun _ => rfl⟩
  | s :: rest => by
    refine (follows_statement indent s).bind fun _ _ T w ⟨hT, hw⟩ => ?_
    subst hT
    refine (follows_statements indent rest).mono fun _ _ T w' ⟨hT, hw'⟩ => ⟨hT, fun h => ?_⟩
    rw [Stmt.nodesAll, List.forall_mem_append] at h
    rw [hw h.1, hw' h.2, Stmt.renderAll]

end

theorem follows_params (ps : List Param) :
    Follows S.toList (params ps) (Resolver.params S ps)
      (Opens (S.insertAll (Param.symbols S.current.level ps)) True fun v w =>
        v = (ps.map fun p => r.labelling.declared p.name S.current.level ++ " : " ++
          p.type.kind.text) ∧ w = "") := by
  unfold Scopes.insertAll Param.symbols
  induction ps generalizing S with
  | nil => exact follows_pure ⟨rfl, rfl, fun _ => ⟨rfl, rfl⟩⟩
  | cons p rest ih =>
    refine Follows.checking (Follows.asking (fun ha => ha.current_eq) ?_)
    refine (follows_insert _).quiet_open fun _ => ?_
    have hrest := ih (S := S.insert (.variable (.declared S.current.level p.name p.type)))
    rw [Scopes.level_insert] at hrest
    refine hrest.behind fun v b T w ⟨hb, hT, hv⟩ => ?_
    obtain ⟨rfl, rfl⟩ := hv trivial
    exact follows_pure ⟨hb, hT, fun _ => ⟨rfl, rfl⟩⟩

mutual

theorem follows_declaration (S : Scopes) (indent : Nat) : ∀ d : Decl,
    Follows S.toList (declaration indent d) (Resolver.Thorough.declaration S d)
      (Opens (S.declare d) (d.Resolved r S)
        fun _ w => w = d.render r.labelling S.current.level indent)
  | .variable name type => by
    refine (follows_type type).quiet_bind fun _ _ => Follows.checking ?_
    refine Follows.asking (fun ha => ha.current_eq) ?_
    refine (follows_insert _).behind fun _ b T w ⟨hb, hT, hw⟩ => ?_
    subst hb hT
    refine (follows_line indent _ _).mono fun _ b T w' ⟨hb, hT, hw'⟩ => ?_
    refine ⟨hb, hT, fun _ => ?_⟩
    rw [hw trivial, hw', Decl.render, String.empty_append]
    rfl
  | .procedure name params block => by
    refine Follows.asking (fun ha => ha.current_eq) ?_
    refine (follows_enter name.name).quiet_open fun _ => ?_
    refine (follows_params r params).bind fun shown b T w ⟨hb, hT, hshown⟩ => ?_
    subst hb hT
    obtain ⟨rfl, rfl⟩ := hshown trivial
    refine (follows_line indent _ ()).before fun _ T w' ⟨_, hT, hw'⟩ => ?_
    subst hT
    refine (follows_block _ (indent + 1) (indent + 1) block).bind fun _ b T w'' ⟨hb, hT, hw''⟩ => ?_
    subst hb hT
    refine (follows_line (indent + 1) _ ()).before fun _ T w₄ ⟨_, hT, hw₄⟩ => ?_
    subst hT
    refine follows_leave.returning fun _ _ T w₅ ⟨hT, hw₅⟩ => ⟨rfl, ?_, fun h => ?_⟩
    · rw [← hT]
      exact ((Scopes.frame_body _ block.decls).1.trans
        (Scopes.frame_insertAll (S.enter name.name) _).1).symm
    · have hlevel : (S.enter name.name).current.level = S.current.level + 1 := rfl
      have hname : r.labelling.declared name S.current.level =
          name.name ++ toString S.current.level := rfl
      rw [hw', hw'' h.2, hw₄, hw₅, (Scopes.frame_insertAll _ _).2, hlevel, List.isEmpty_map,
        Decl.render, renderParams, hname]
      simp only [String.empty_append, String.append_empty, String.append_assoc]

theorem follows_declarations (S : Scopes) (indent : Nat) : ∀ decls : List Decl,
    Follows S.toList (declarations indent decls) (Resolver.Thorough.declarations S decls)
      (Opens (decls.foldl Scopes.declare S) (Decl.AllResolved r S decls)
        fun _ w => w = Decl.renderAll r.labelling S.current.level indent decls)
  | [] => follows_pure ⟨rfl, rfl, fun _ => rfl⟩
  | d :: rest => by
    refine (follows_declaration S indent d).bind fun _ b T w ⟨hb, hT, hw⟩ => ?_
    subst hb hT
    refine (follows_declarations _ indent rest).mono fun _ b T w' ⟨hb, hT, hw'⟩ => ?_
    rw [(S.frame_declare d).2] at hw'
    refine ⟨hb, hT, fun h => ?_⟩
    obtain ⟨hd, hrest⟩ := h
    rw [hw hd, hw' hrest, Decl.renderAll]

theorem follows_block (S : Scopes) (declIndent bodyIndent : Nat) : ∀ b : Block,
    Follows S.toList (block declIndent bodyIndent b) (Resolver.Thorough.block S b)
      (Opens (S.body b.decls) (b.Resolved r S)
        fun _ w => w = b.render r.labelling S.current.level declIndent bodyIndent)
  | .mk decls start body => by
    refine (follows_noRepetition decls).quiet_bind fun _ _ => ?_
    refine (follows_procedures decls).quiet_open fun _ => ?_
    refine (follows_declarations _ declIndent decls).bind fun _ b T w' ⟨hb, hT, hw'⟩ => ?_
    subst hb hT
    refine (follows_line bodyIndent "begin" ()).before fun _ T w'' ⟨_, hT, hw''⟩ => ?_
    subst hT
    refine (follows_statements r (bodyIndent + 1) body).returning fun _ _ T w₄ ⟨hT, hw₄⟩ => ?_
    subst hT
    refine ⟨rfl, rfl, fun h => ?_⟩
    obtain ⟨_, hdecls, hbody⟩ := h
    have hlevel : (S.withProcedures decls).current.level = S.current.level :=
      (S.frame_insertAll _).2
    rw [hw' hdecls, hw'', hw₄ hbody, hlevel, Block.render, String.append_assoc]

end

end

theorem follows_inserts (symbols : List Symbol) :
    Follows S.toList (inserts symbols) (Resolver.inserts S symbols)
      (Opens (S.insertAll symbols) True fun _ w => w = "") := by
  unfold Scopes.insertAll
  induction symbols generalizing S with
  | nil => exact follows_pure ⟨rfl, rfl, fun _ => rfl⟩
  | cons symbol rest ih =>
    exact (follows_insert symbol).quiet_open fun _ => ih

theorem follows_program (r : Resolution) (p : Program) :
    Follows [] (program p) (Resolver.program p) fun v b _ w =>
      v = b ∧ (p.block.Resolved r .globals → w = r.annotated p) := by
  have hglobal : Follows [] (enter "global") (Resolver.note (.entered "global")) fun _ _ T w =>
      Scopes.toList { current := { name := "global" } } = T ∧ w = "" := by
    intro a f out ha
    refine .ok ((ends_log _ a).bind (Stage.ends_change _ a)) rfl ?_ ⟨rfl, rfl⟩
    refine ⟨?_, ha.references, ha.calls, ha.out.trans (String.append_empty).symm⟩
    rw [Annotator.enter, Annotator.nextLevel, ha.scopes]
    rfl
  rw [← Resolver.Thorough.program_eq]
  refine hglobal.bind fun _ _ T w ⟨hT, hw⟩ => ?_
  subst hT hw
  refine (follows_inserts _).quiet_open fun _ => ?_
  refine (follows_line 0 _ ()).before fun _ T w' ⟨_, hT, hw'⟩ => ?_
  subst hT
  refine (follows_block r _ 1 0 p.block).bind fun _ b T w'' ⟨hb, hT, hw''⟩ => ?_
  subst hb hT
  refine (follows_line 0 _ ()).before fun _ T w₄ ⟨_, hT, hw₄⟩ => ?_
  subst hT
  refine Follows.asking (fun ha => ha.current_eq) ?_
  refine follows_leave.bind fun _ _ T w₅ ⟨hT, hw₅⟩ => follows_pure ⟨rfl, fun h => ?_⟩
  have hname : r.labelling.declared p.name 0 = p.name.name ++ "0" := rfl
  rw [hw', hw'' h, hw₄, hw₅, (Scopes.frame_insertAll _ _).2, Resolution.annotated,
    Program.render, hname]
  simp only [String.empty_append, String.append_empty, String.append_assoc]
  rfl

/-- Resolving a program gives its resolution with the annotated program, if the resolution fits. -/
theorem ends_resolve (p : Program) (a : Annotator) :
    ∃ output a', (resolve p).Ends a (p.resolve.1.map fun r => ⟨r, output⟩) a' ∧
      a'.logged = a.logged ∧
      ∀ r, p.resolve.1 = .ok r → p.block.Resolved r .globals → output = r.annotated p := by
  have hstart : restart.Ends a (.ok ()) { logged := a.logged } := Stage.ends_change _ a
  have hholds : Annotator.Holds { logged := a.logged } [] {} "" := ⟨rfl, rfl, rfl, rfl⟩
  have hmatch := follows_program (p.resolve.1.toOption.getD default) p hholds
  unfold Program.resolve at hmatch ⊢
  change Matches _ (program p) _ _ ((Resolver.program p).run.run {}) at hmatch
  generalize (Resolver.program p).run.run {} = answer at hmatch ⊢
  cases hmatch with
  | @error d a' hx hl f => exact ⟨"", a', hstart.bind hx.bind_error, hl, fun r hr => by cases hr⟩
  | @ok globals _ a' f _ w hx hl ha' hP =>
    obtain ⟨rfl, hw⟩ := hP
    have hanswer := Stage.ends_ask (ε := Diagnostic) (fun a : Annotator =>
      ({ resolution := ⟨globals, a.references, a.calls⟩, output := a.out } : Resolved)) a'
    refine ⟨w, a', ?_, hl, fun r hr hfits => ?_⟩
    · rw [ha'.references, ha'.calls, ha'.out, String.empty_append] at hanswer
      exact hstart.bind (hx.bind hanswer)
    · cases hr
      exact hw hfits

/-- What is left of the program before has no part in resolving a program. -/
theorem resolve_congr (p : Program) {a b : Annotator} (h : a.logged = b.logged) (j : Journal) :
    resolve p (a, j) = resolve p (b, j) := by
  have hstart (a : Annotator) : restart (a, j) = (.ok (), { logged := a.logged }, j) := rfl
  unfold resolve
  rw [Stateful.bind_of_ok (hstart a), Stateful.bind_of_ok (hstart b), h]

end Annotating

end MiniPascal
