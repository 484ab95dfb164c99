import MiniPascal.Pipeline
import MiniPascal.Proofs.Execution.Interpreting
import MiniPascal.Proofs.Parser.Lookahead
import MiniPascal.Proofs.Resolution.Relabel
import MiniPascal.Proofs.Semantics.Bare
import MiniPascal.Proofs.Semantics.Simulation

/-!
# Layout

Two sources whose tokens agree in kinds and texts go through the same stages with the same results,
and where they fail, they fail for the same cause at tokens of the same index. Only positions can
differ.

One source has the tokens of the other replaced, and each stage carries a replacement of tokens on:
reading, resolving and running. The tokens at fault are tokens of the sources, because each stage
also carries on the replacement that moves all other tokens.
-/
namespace MiniPascal

namespace Pipeline

def fileName (file : String) : String := if file.isEmpty then defaultFile else file

/-- Two sources with these tokens went the same way: they reached the same stage with the same tree,
annotated text and bindings, and neither failed or both for the same cause at tokens of the same
index. -/
structure Agrees (tokens tokens' : List Token) (s s' : Pipeline) : Prop where
  dump : s.program.map Program.dump = s'.program.map Program.dump
  resolved : s.resolution.isSome = s'.resolution.isSome
  annotated : s.annotated = s'.annotated
  output : s.output = s'.output
  bindings : s.bindings.map Bindings.get? = s'.bindings.map Bindings.get?
  failure : (s.failure = none ∧ s'.failure = none) ∨
    ∃ (n : Nat) (t t' : Token) (c : Cause), tokens[n]? = some t ∧ tokens'[n]? = some t' ∧
      s.failure = some (.diagnostic (.atToken t c)) ∧
      s'.failure = some (.diagnostic (.atToken t' c))

end Pipeline

section

variable {f : Relabeling} {tokens : List Token} {p : Program}

/-- Resolving a program of the text agrees with resolving it with other tokens. -/
theorem Program.resolve_agree (f : Relabeling) (hp : p.relabel (.moving tokens) = p) :
    Agree tokens (tokens.map f.toFun) (fun r r' => ∃ r₀, r.Carries f r₀ ∧ r'.Carries .id r₀)
      p.resolve.1 (p.relabel f).resolve.1 := by
  have hself := p.resolve_relabel (.moving tokens)
  rw [hp] at hself
  exact ((p.resolve_relabel f).agree hself).mono fun _ _ h => h.1

/-- Running a program of the text agrees with running it with other tokens. -/
theorem Semantics.Runs.agree {limit : Int} {o o' : Except Diagnostic (String → Option Value)}
    (h : Runs limit p o) (h' : Runs limit (p.relabel f) o')
    (hp : p.relabel (.moving tokens) = p) :
    Agree tokens (tokens.map f.toFun) (· = ·) o o' := by
  have hrelabel {g : Relabeling} {q : Program} {o' : Except Diagnostic (String → Option Value)}
      (hq : p.relabel g = q) (h' : Runs limit q o') : g.Carries (· = ·) o o' := by
    have hbare : p.bare g = q.bare .id := by rw [← hq, Program.bare_relabel]
    obtain ⟨o₀, hcarries, hcarries'⟩ := h.carries h' hbare
    refine (hcarries.trans_id hcarries').mono ?_
    rintro a b ⟨_, rfl, rfl⟩
    rfl
  exact ((hrelabel rfl h').agree (hrelabel hp h)).mono fun _ _ h => h.1

theorem Resolution.annotated_relabel {r r' r₀ : Resolution} (hindex : f.KeepsIndex)
    (h : r.Carries f r₀) (h' : r'.Carries .id r₀) :
    r'.annotated (p.relabel f) = r.annotated p := by
  have hl := h.labelling hindex
  have hl' := h'.labelling fun _ => rfl
  refine Program.render_relabel ⟨fun t level => ?_, fun t => ?_, fun t => ?_⟩ p
  · exact (hl'.declared _ level).symm.trans (hl.declared t level)
  · exact (hl'.reference _).symm.trans (hl.reference t)
  · exact (hl'.call _).symm.trans (hl.call t)

end

namespace Pipeline

variable {file : String} {source : Bytes} {p : Program} {r : Resolution}

theorem ofSource_of_unread {d : Diagnostic}
    (h : Program.ofSource (fileName file) source = .error d) :
    ofSource file source = { failure := some (.diagnostic d), reports := [d] } := by
  obtain ⟨j, hread, hj⟩ := Program.exists_journal (fileName file) source 0 {}
  rw [h] at hread hj
  unfold ofSource
  rw [← fileName]
  dsimp only
  rw [hread]
  dsimp only
  rw [hj]
  rfl

theorem ofSource_of_unresolved {d : Diagnostic}
    (h : Program.ofSource (fileName file) source = .ok p) (hr : p.resolve.1 = .error d) :
    ofSource file source =
      { program := some p, failure := some (.diagnostic d), reports := [d] } := by
  obtain ⟨j, hread, hj⟩ := Program.exists_journal (fileName file) source 0 {}
  obtain ⟨output, a, hends, _⟩ := Annotating.ends_resolve p {}
  obtain ⟨j', hresolve, hj'⟩ := hends.exists_journal j
  rw [h] at hread hj
  rw [hr] at hresolve hj'
  rw [hj] at hj'
  unfold ofSource
  rw [← fileName]
  dsimp only
  rw [hread]
  dsimp only
  rw [hresolve]
  dsimp only [Except.map]
  rw [hj']
  rfl

/-- A source that can be resolved is annotated with the labels of its resolution, and then run. -/
theorem ofSource_of_resolved (h : Program.ofSource (fileName file) source = .ok p)
    (hr : p.resolve.1 = .ok r) :
    let s : Pipeline :=
      { program := some p, resolution := some r, output := some (r.annotated p),
        reports := (Failure.found? (p.run r).result).toList }
    ofSource file source = match (p.run r).result with
      | .error e => { s with failure := some e }
      | .ok b => { s with bindings := some b } := by
  obtain ⟨j, hread, hj⟩ := Program.exists_journal (fileName file) source 0 {}
  obtain ⟨output, a, hends, _, houtput⟩ := Annotating.ends_resolve p {}
  obtain ⟨j', hresolve, hj'⟩ := hends.exists_journal j
  obtain ⟨i, hends, _⟩ := Interpreting.ends_run p (some r) {}
  obtain ⟨j'', hrun, hj''⟩ := hends.exists_journal j'
  rw [h] at hread hj
  rw [hr] at hresolve hj'
  cases houtput r hr (Program.resolved hr (Program.nodup_uses h))
  have hreports : j''.reports = (Failure.found? (p.run r).result).toList := by
    rw [hj'', hj', hj]
    rfl
  unfold ofSource
  rw [← fileName]
  dsimp only
  rw [hread]
  dsimp only
  rw [hresolve]
  dsimp only [Except.map]
  rw [hrun, ← hreports]
  dsimp only [Option.elim]
  cases (p.run r).result with
  | error e => rfl
  | ok b => rfl

theorem ofSource_of_failed {e : RunError} (h : Program.ofSource (fileName file) source = .ok p)
    (hr : p.resolve.1 = .ok r) (he : (p.run r).result = .error e) :
    ofSource file source =
      { program := some p, resolution := some r, output := some (r.annotated p),
        failure := some e, reports := e.diagnostic?.toList } := by
  rw [ofSource_of_resolved h hr, he]
  rfl

theorem ofSource_of_done {b : Bindings} (h : Program.ofSource (fileName file) source = .ok p)
    (hr : p.resolve.1 = .ok r) (hb : (p.run r).result = .ok b) :
    ofSource file source =
      { program := some p, resolution := some r, output := some (r.annotated p),
        bindings := some b } := by
  rw [ofSource_of_resolved h hr, hb]
  rfl

/-- What is written while a source is resolved is the annotated program. -/
theorem output_eq_annotated (file : String) (source : Bytes) :
    (ofSource file source).output = (ofSource file source).annotated := by
  cases hp : Program.ofSource (fileName file) source with
  | error d => rw [ofSource_of_unread hp, annotated]; rfl
  | ok p =>
    cases hr : p.resolve.1 with
    | error d => rw [ofSource_of_unresolved hp hr, annotated]; rfl
    | ok r =>
      rw [ofSource_of_resolved hp hr]
      cases (p.run r).result <;> rfl

def failureOf : Except Diagnostic (String → Option Value) → Option RunError
  | .ok _ => none
  | .error d => some (.diagnostic d)

/-- The outcome of a run shows in the bindings or in the failure. -/
theorem ofSource_of_outcome {o : Except Diagnostic (String → Option Value)}
    (h : Program.ofSource (fileName file) source = .ok p) (hr : p.resolve.1 = .ok r)
    (ho : (p.run r).result.map Bindings.get? = o.mapError .diagnostic) :
    let s := ofSource file source
    s.program = some p ∧ s.resolution = some r ∧ s.bindings.map Bindings.get? = o.toOption ∧
      s.failure = failureOf o := by
  rcases Semantics.exists_of_outcome ho with ⟨b, hresult, rfl⟩ | ⟨d, hresult, rfl⟩
  · rw [ofSource_of_done h hr hresult]
    exact ⟨rfl, rfl, rfl, rfl⟩
  · rw [ofSource_of_failed h hr hresult]
    exact ⟨rfl, rfl, rfl, rfl⟩

/-- Sources whose tokens agree in kinds and texts go through the same stages with the same results,
or fail for the same cause at tokens of the same index. -/
theorem depends_on_tokens_only (file file' : String) (source source' : Bytes)
    (tokens tokens' : List Token)
    (h : (TokenStream.ofSource (fileName file) source).toExcept = .ok tokens)
    (h' : (TokenStream.ofSource (fileName file') source').toExcept = .ok tokens')
    (hsame : tokens.map (fun t => (t.kind, t.text)) = tokens'.map fun t => (t.kind, t.text)) :
    Agrees tokens tokens' (ofSource file source) (ofSource file' source') := by
  obtain ⟨f, hindex, rfl, hread⟩ :=
    Program.ofSource_agree h h' (Token.map_plain_inj.mpr hsame)
  generalize hp : Program.ofSource (fileName file) source = read at hread
  generalize hp' : Program.ofSource (fileName file') source' = read' at hread
  cases hread with
  | error c ht ht' =>
    rw [ofSource_of_unread hp, ofSource_of_unread hp']
    exact ⟨rfl, rfl, rfl, rfl, rfl, .inr ⟨_, _, _, c, ht, ht', rfl, rfl⟩⟩
  | @ok p _ hrelabel =>
    obtain ⟨rfl, hmoving⟩ := hrelabel
    have hdump : some p.dump = some (p.relabel f).dump := by rw [p.dump_relabel]
    have hresolve := Program.resolve_agree f hmoving.symm
    generalize hr : p.resolve.1 = resolved at hresolve
    generalize hr' : (p.relabel f).resolve.1 = resolved' at hresolve
    cases hresolve with
    | error c ht ht' =>
      rw [ofSource_of_unresolved hp hr, ofSource_of_unresolved hp' hr']
      exact ⟨hdump, rfl, rfl, rfl, rfl, .inr ⟨_, _, _, c, ht, ht', rfl, rfl⟩⟩
    | @ok r r' htables =>
      obtain ⟨r₀, hcarries, hcarries'⟩ := htables
      have hannotated := Resolution.annotated_relabel (p := p) hindex hcarries hcarries'
      obtain ⟨o, ho, hruns⟩ := Semantics.exists_outcome hp hr {}
      obtain ⟨o', ho', hruns'⟩ := Semantics.exists_outcome hp' hr' {}
      obtain ⟨hprogram, hresolution, hbindings, hfailure⟩ := ofSource_of_outcome hp hr ho
      obtain ⟨hprogram', hresolution', hbindings', hfailure'⟩ := ofSource_of_outcome hp' hr' ho'
      have houtcome := hruns.agree hruns' hmoving.symm
      have hshown : (ofSource file source).annotated = (ofSource file' source').annotated := by
        rw [annotated, annotated, hprogram, hprogram', hresolution, hresolution']
        exact congrArg some hannotated.symm
      refine ⟨?_, ?_, hshown, ?_, ?_, ?_⟩
      · rw [hprogram, hprogram']
        exact hdump
      · rw [hresolution, hresolution']
        rfl
      · rw [output_eq_annotated, output_eq_annotated, hshown]
      · rw [hbindings, hbindings']
        cases houtcome with
        | ok heq => rw [heq]
        | error c ht ht' => rfl
      · cases houtcome with
        | ok heq => exact .inl ⟨hfailure, hfailure'⟩
        | error c ht ht' => exact .inr ⟨_, _, _, c, ht, ht', hfailure, hfailure'⟩

/-- Blanks, a comment, the case of keywords and the file name do not matter. -/
theorem depends_on_tokens_only_blanks :
    let source := "program p;var x:integer;begin x:=1 div 0 end.".toList.map fun c =>
      c.toNat.toUInt8
    let source' := ("PROGRAM p; \x7bno\x7d VAR x : INTEGER;\n" ++
      "BEGIN x := 1 DIV 0 END.").toList.map fun c => c.toNat.toUInt8
    ∃ tokens tokens', (TokenStream.ofSource "test.pas" source).toExcept = .ok tokens ∧
      (TokenStream.ofSource "q.pas" source').toExcept = .ok tokens' ∧
      Agrees tokens tokens' (ofSource "" source) (ofSource "q.pas" source') ∧
      (ofSource "" source).failure.isSome = true := by
  intro source source'
  let eof : Token :=
    { kind := .endOfFile, pos := { file := "test.pas", column := 46 }, index := 16 }
  let eof' : Token :=
    { kind := .endOfFile, pos := { file := "q.pas", line := 2, column := 24 }, index := 16 }
  let tokens := (TokenStream.ofSource "test.pas" source).tokens
  let tokens' := (TokenStream.ofSource "q.pas" source').tokens
  have h : (TokenStream.ofSource "test.pas" source).toExcept = .ok (tokens ++ [eof]) := by
    have hstop : (TokenStream.ofSource "test.pas" source).stop = .endOfFile eof := by
      decide +kernel
    rw [TokenStream.toExcept, hstop]
  have h' : (TokenStream.ofSource "q.pas" source').toExcept = .ok (tokens' ++ [eof']) := by
    have hstop : (TokenStream.ofSource "q.pas" source').stop = .endOfFile eof' := by
      decide +kernel
    rw [TokenStream.toExcept, hstop]
  exact ⟨tokens ++ [eof], tokens' ++ [eof'], h, h',
    depends_on_tokens_only "" "q.pas" source source' _ _ h h' (by decide +kernel), by
      decide +kernel⟩

end Pipeline

end MiniPascal
