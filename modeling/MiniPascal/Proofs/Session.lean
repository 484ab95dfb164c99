import MiniPascal.Session
import MiniPascal.Proofs.Execution.Depth
import MiniPascal.Proofs.Pipeline

/-!
# Sessions without a memory

The calls of a session share what it keeps: the journal, the scopes and the text that resolving has
left, and the stack of the last run. Each call answers as it would in a new session, whatever has
come before it and however that has ended. Only the numbers of tokens go on: a program that is read
is the one that a new session reads, with the indices of its tokens shifted.

A call that fails with a diagnostic adds this diagnostic to the reports, and no other call adds
anything; the error that a run ends with is raised at one of its steps. A source that goes through
all stages reports nothing exactly if it succeeds, since from a source that was read and resolved no
run fails without a diagnostic.
-/
namespace MiniPascal

def Relabeling.shift (n : Nat) : Relabeling where
  toFun t := { t with index := t.index + n }
  kind _ := rfl
  text _ := rfl

def Diagnostic.relabel (f : Relabeling) (d : Diagnostic) : Diagnostic :=
  { d with token := d.token.map f.toFun }

namespace Cursor

def renumbered (c : Cursor) (n : Nat) : Cursor :=
  { c with index := c.index + n }

theorem next_renumbered (c : Cursor) (n : Nat) :
    (c.renumbered n).next = (c.next.1.map (Relabeling.shift n).toFun, c.next.2.renumbered n) := by
  have hreading := reading_next c
  generalize c.next = outcome at hreading ⊢
  cases hreading with
  | token hgap hrest htoken =>
    rw [(Reading.token (c := c.renumbered n) hgap hrest htoken).next_eq]
    simp only [afterToken, renumbered, Except.map, Relabeling.shift, Nat.add_right_comm]
  | endOfFile hgap => exact (Reading.endOfFile (c := c.renumbered n) hgap).next_eq
  | invalid hgap hrest hb htoken =>
    exact (Reading.invalid (c := c.renumbered n) hgap hrest hb htoken).next_eq
  | unclosed hgap hrest hinside htail =>
    exact (Reading.unclosed (c := c.renumbered n) hgap hrest hinside htail).next_eq

theorem stream_renumbered (c : Cursor) (n : Nat) :
    (c.renumbered n).stream = (Relabeling.shift n).stream c.stream := by
  fun_induction stream c with
  | case1 c d c' hnext =>
    have hnext' := next_renumbered c n
    rw [hnext] at hnext'
    rw [stream_of_error hnext']
    rfl
  | case2 c t c' hnext hk =>
    have hnext' := next_renumbered c n
    rw [hnext] at hnext'
    rw [stream_of_endOfFile hnext' hk]
    rfl
  | case3 c t c' hnext hk rest ih =>
    have hnext' := next_renumbered c n
    rw [hnext] at hnext'
    rw [stream_of_token hnext' hk, ih]
    rfl

end Cursor

/-- Where the numbers of tokens begin shows in the tokens of the answer only. -/
theorem Program.ofSource_shift (file : String) (source : Bytes) (n : Nat) :
    Program.ofSource file source n =
      ((Program.ofSource file source).map (Program.relabel (.shift n))).mapError
        (Diagnostic.relabel (.shift n)) := by
  have hstream : TokenStream.ofSource file source n =
      (Relabeling.shift n).stream (TokenStream.ofSource file source) := by
    have hshift := Cursor.stream_renumbered (.ofSource file source) n
    rw [Cursor.renumbered, Cursor.ofSource, Nat.zero_add] at hshift
    exact hshift
  have hcarries := Program.ofStream_carriesUpTo (.shift n) (TokenStream.ofSource file source)
  rw [← hstream] at hcarries
  change (Relabeling.shift n).CarriesUpTo _ _ (Program.ofSource file source)
    (Program.ofSource file source n) at hcarries
  generalize Program.ofSource file source = x at hcarries ⊢
  generalize Program.ofSource file source n = y at hcarries ⊢
  rcases hcarries with hcarries | ⟨d, hstop, rfl, rfl⟩
  · cases hcarries with
    | ok h => exact congrArg Except.ok h
    | error t c => rfl
  · have htoken := (TokenStream.lexical_of_failed hstop).2
    refine congrArg Except.error ?_
    rw [Diagnostic.relabel, htoken]
    cases d
    cases htoken
    rfl

/-- A source succeeds without a report, or it fails with one diagnostic, which is reported. -/
theorem Pipeline.reports_cases (file : String) (source : Bytes) :
    (∃ b, (ofSource file source).bindings = some b ∧ (ofSource file source).failure = none ∧
      (ofSource file source).reports = []) ∨
    ∃ d, (ofSource file source).bindings = none ∧
      (ofSource file source).failure = some (.diagnostic d) ∧
      (ofSource file source).reports = [d] := by
  cases hp : Program.ofSource (fileName file) source with
  | error d =>
    rw [ofSource_of_unread hp]
    exact .inr ⟨d, rfl, rfl, rfl⟩
  | ok p =>
    cases hr : p.resolve.1 with
    | error d =>
      rw [ofSource_of_unresolved hp hr]
      exact .inr ⟨d, rfl, rfl, rfl⟩
    | ok r =>
      -- a run of a program that was read and resolved has an outcome of the language
      obtain ⟨o, ho, _⟩ := Semantics.exists_outcome hp hr {}
      rcases Semantics.exists_of_outcome ho with ⟨b, hresult, _⟩ | ⟨d, hresult, _⟩
      · rw [ofSource_of_done hp hr hresult]
        exact .inl ⟨b, rfl, rfl, rfl⟩
      · rw [ofSource_of_failed hp hr hresult]
        exact .inr ⟨d, rfl, rfl, rfl⟩

namespace Session

/-- A call to read, to resolve or to run. A run is given the resolution that it uses, if any. -/
inductive Call
  | parse (file : String) (source : Bytes)
  | resolve (p : Program)
  | run (p : Program) (resolution : Option Resolution) (maxDepth : Int)

/-- What a call returns; a run also hands out the records that were completed. -/
inductive Answer
  | parsed (result : Except Diagnostic Program)
  | resolved (result : Except Diagnostic Resolved)
  | ran (result : Except RunError Bindings) (returned : List Record)

namespace Answer

def diagnostic? : Answer → Option Diagnostic
  | parsed result => Failure.found? result
  | resolved result => Failure.found? result
  | ran result _ => Failure.found? result

/-- Only reading makes tokens. -/
def relabel (f : Relabeling) : Answer → Answer
  | parsed result => .parsed ((result.map (Program.relabel f)).mapError (Diagnostic.relabel f))
  | resolved result => .resolved result
  | ran result returned => .ran result returned

end Answer

def perform (s : Session) : Call → Answer × Session
  | .parse file source =>
    let step := s.parse file source
    (.parsed step.answer, step.session)
  | .resolve p =>
    let step := s.resolve p
    (.resolved step.answer, step.session)
  | .run p resolution maxDepth =>
    let step := ({ s with resolution }.limit maxDepth).run p
    (.ran step.answer step.session.interpreter.returned.reverse, step.session)

def after (s : Session) (calls : List Call) : Session :=
  calls.foldl (fun s c => (s.perform c).2) s

def answers (s : Session) : List Call → List Answer
  | [] => []
  | c :: rest => (s.perform c).1 :: (s.perform c).2.answers rest

/-- A new session that logs what this one does. -/
def fresh (s : Session) : Session where
  journal := { echoes := s.journal.echoes }
  annotator := { logged := s.annotator.logged }
  interpreter := { settings := { logged := s.interpreter.settings.logged } }

theorem perform_parse (s : Session) (file : String) (source : Bytes) :
    let answer := Program.ofSource file source s.nextIndex
    ∃ text, s.perform (.parse file source) =
      (.parsed answer,
        { s with
          journal := (s.journal.print text).settle answer
          nextIndex := s.nextIndex + source.length + 1
          program := answer.toOption.or s.program }) := by
  obtain ⟨text, h⟩ := Program.read_eq file source s.nextIndex
  refine ⟨text, ?_⟩
  unfold perform parse
  dsimp only
  rw [h s.journal]

/-- Resolvers that log the same give the same answer, whatever they have been left with. -/
theorem perform_resolve (p : Program) (logged : Bool) :
    ∃ answer text a, a.logged = logged ∧ ∀ s : Session, s.annotator.logged = logged →
      s.perform (.resolve p) =
        (.resolved answer,
          { s with
            journal := (s.journal.print text).settle answer
            annotator := a
            resolution := (answer.toOption.map Resolved.resolution).or s.resolution }) := by
  obtain ⟨output, a, ⟨text, h⟩, hlogged, _⟩ := Annotating.ends_resolve p { logged }
  refine ⟨p.resolve.1.map fun r => ⟨r, output⟩, text, a, hlogged, fun s hs => ?_⟩
  unfold perform resolve
  dsimp only
  have hforgets := Annotating.resolve_congr p (b := { logged }) hs s.journal
  rw [hforgets, h s.journal]

/-- What a run with a limit answers does not depend on what the interpreter has been left with. -/
theorem perform_run (s : Session) (p : Program) (resolution : Option Resolution)
    (maxDepth : Int) :
    let settings : Settings := { s.interpreter.settings with maxDepth }
    let outcome := resolution.elim (p.resolveAndRun settings) fun r => p.run r settings
    ∃ text i, i.settings = settings ∧ s.perform (.run p resolution maxDepth) =
      (.ran outcome.result outcome.returned,
        { s with
          journal := (s.journal.print text).settle outcome.result
          resolution
          interpreter := i }) := by
  intro settings outcome
  obtain ⟨i, ⟨text, h⟩, hsettings, hreturned⟩ :=
    Interpreting.ends_run p resolution { s.interpreter with settings }
  refine ⟨text, i, hsettings, ?_⟩
  have hrun : Interpreting.run p resolution ({ s.interpreter with settings }, s.journal) =
      (outcome.result, i, (s.journal.print text).settle outcome.result) := h s.journal
  change i.returned.reverse = outcome.returned at hreturned
  rw [← hreturned]
  unfold perform run limit
  dsimp only
  rw [hrun]

/-- What holds of each call: it answers as it would in a new session, and the reports have the
diagnostic in addition that it has failed with. What is logged stays the same. -/
structure Alone (s : Session) (c : Call) : Prop where
  answer : (s.perform c).1 = (s.fresh.perform c).1.relabel (.shift s.nextIndex)
  reports : (s.perform c).2.journal.reports =
    s.journal.reports ++ (s.perform c).1.diagnostic?.toList
  fresh : (s.perform c).2.fresh = s.fresh

theorem alone_parse (s : Session) (file : String) (source : Bytes) :
    s.Alone (.parse file source) := by
  obtain ⟨text, hparse⟩ := s.perform_parse file source
  obtain ⟨_, hfresh⟩ := s.fresh.perform_parse file source
  refine ⟨?_, ?_, ?_⟩
  · rw [hparse, hfresh, Program.ofSource_shift]
    rfl
  · rw [hparse]
    exact Journal.reports_settle s.journal text _
  · simp only [hparse, fresh, Journal.echoes_settle]

theorem alone_resolve (s : Session) (p : Program) : s.Alone (.resolve p) := by
  obtain ⟨answer, text, a, ha, hresolve⟩ := perform_resolve p s.annotator.logged
  refine ⟨?_, ?_, ?_⟩
  · rw [hresolve s rfl, hresolve s.fresh rfl]
    rfl
  · rw [hresolve s rfl]
    exact Journal.reports_settle s.journal text answer
  · simp only [hresolve s rfl, fresh, Journal.echoes_settle, ha]

theorem alone_run (s : Session) (p : Program) (resolution : Option Resolution) (maxDepth : Int) :
    s.Alone (.run p resolution maxDepth) := by
  obtain ⟨text, i, hi, hrun⟩ := s.perform_run p resolution maxDepth
  obtain ⟨_, _, _, hfresh⟩ := s.fresh.perform_run p resolution maxDepth
  refine ⟨?_, ?_, ?_⟩
  · rw [hrun, hfresh]
    rfl
  · rw [hrun]
    exact Journal.reports_settle s.journal text _
  · simp only [hrun, fresh, Journal.echoes_settle, hi]

theorem alone (s : Session) : ∀ c, s.Alone c
  | .parse file source => s.alone_parse file source
  | .resolve p => s.alone_resolve p
  | .run p resolution maxDepth => s.alone_run p resolution maxDepth

theorem fresh_after (s : Session) (calls : List Call) : (s.after calls).fresh = s.fresh := by
  induction calls generalizing s with
  | nil => rfl
  | cons c rest ih => exact (ih (s.perform c).2).trans (s.alone c).fresh

/-- The reports of some calls are the diagnostics that they have failed with, in their order. -/
theorem reports_after (s : Session) (calls : List Call) :
    (s.after calls).journal.reports =
      s.journal.reports ++ (s.answers calls).filterMap Answer.diagnostic? := by
  induction calls generalizing s with
  | nil => exact (List.append_nil _).symm
  | cons c rest ih =>
    have hrest := ih (s.perform c).2
    rw [(s.alone c).reports, List.append_assoc] at hrest
    refine hrest.trans (congrArg (s.journal.reports ++ ·) ?_)
    rw [answers, List.filterMap_cons]
    cases (s.perform c).1.diagnostic? <;> rfl

/-- A call answers as in a new session, up to where the numbers of tokens begin, and the reports
have in addition the diagnostic that it has failed with, if any. The error that a run ends with is
raised at one of its steps only. A source that goes through all stages reports nothing if it
succeeds, and else the error it has failed with. -/
theorem calls_answer_as_if_alone :
    (∀ (s : Session) (before : List Call) (c : Call),
      let now := s.after before
      (now.perform c).1 = (s.fresh.perform c).1.relabel (.shift now.nextIndex) ∧
      (now.perform c).2.journal.reports =
        now.journal.reports ++ (now.perform c).1.diagnostic?.toList ∧
      now.journal.reports =
        s.journal.reports ++ (s.answers before).filterMap Answer.diagnostic?) ∧
    (∀ (settings : Settings) (r : Resolution) (p : Program) (e : RunError),
      (p.run r settings).result = .error e ↔
        ∃! a, Execution.Leads settings r (.start settings p) a ∧
          ∃ b, Execution.Raises settings r a b e) ∧
    (∀ (file : String) (source : Bytes),
      let t := Pipeline.ofSource file source
      (t.failure = none ↔ t.reports = []) ∧ (t.failure = none ↔ t.bindings.isSome = true) ∧
        ∀ e, t.failure = some e → ∃ d, e = .diagnostic d ∧ t.reports = [d]) := by
  refine ⟨fun s before c => ?_, Execution.run_raises_once, fun file source => ?_⟩
  · have hcall := (s.after before).alone c
    refine ⟨?_, hcall.reports, s.reports_after before⟩
    rw [hcall.answer, fresh_after]
  · intro t
    rcases Pipeline.reports_cases file source with ⟨b, hb, hnone, hreports⟩ | ⟨d, hb, hd, hreports⟩
    · refine ⟨iff_of_true hnone hreports, iff_of_true hnone (Option.isSome_of_eq_some hb), ?_⟩
      intro e he
      cases hnone.symm.trans he
    · have hfails : t.failure ≠ none := fun hnone => by cases hd.symm.trans hnone
      refine ⟨iff_of_false hfails ?_, iff_of_false hfails ?_, fun e he => ?_⟩
      · exact fun hnil => by cases hreports.symm.trans hnil
      · exact fun hsome => by cases (congrArg Option.isSome hb).symm.trans hsome
      · cases hd.symm.trans he
        exact ⟨d, rfl, hreports⟩

/-- A text that cannot be read, and a program that divides by zero, with room for its procedure and
without. -/
theorem calls_answer_as_if_alone_division :
    let unreadable := "program ?".toList.map fun c => c.toNat.toUInt8
    let source := ("program p; var x : integer; procedure f; begin x := 1 div 0 end; " ++
      "begin f() end.").toList.map fun c => c.toNat.toUInt8
    let calls (p : Program) (r : Resolution) : List Call :=
      [.parse "q.pas" unreadable, .run p (some r) 1000, .resolve p, .run p none 1,
        .run p (some r) 1000]
    ∃ p r, Program.ofSource "p.pas" source = .ok p ∧ p.resolve.1 = .ok r ∧
      ((start false).after (calls p r)).journal.reports.map Diagnostic.report =
        ["q.pas:1:9: lexical error: invalid character '?'",
          "p.pas:1:55: division by zero: division by zero",
          "p.pas:1:72: stack overflow: call to 'f' exceeds the maximum call depth of 1",
          "p.pas:1:55: division by zero: division by zero"] := by
  intro unreadable source calls
  obtain ⟨p, r, hp, hr, htest⟩ : ∃ p r, Program.ofSource "p.pas" source = .ok p ∧
      p.resolve.1 = .ok r ∧
        (((start false).answers (calls p r)).filterMap Answer.diagnostic?).map Diagnostic.report ==
          ["q.pas:1:9: lexical error: invalid character '?'",
            "p.pas:1:55: division by zero: division by zero",
            "p.pas:1:72: stack overflow: call to 'f' exceeds the maximum call depth of 1",
            "p.pas:1:55: division by zero: division by zero"] :=
    Program.exists_resolved (by decide +kernel)
  obtain ⟨_, _, hreports⟩ := calls_answer_as_if_alone.1 (start false) (calls p r) (.resolve p)
  refine ⟨p, r, hp, hr, ?_⟩
  rw [hreports]
  exact beq_iff_eq.mp htest

end Session

end MiniPascal
