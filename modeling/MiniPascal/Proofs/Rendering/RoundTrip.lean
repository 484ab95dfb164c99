import MiniPascal.Proofs.Parser.Layout
import MiniPascal.Proofs.Rendering.Program
import MiniPascal.Proofs.Resolution.Relabel
import MiniPascal.Proofs.Resolution.Tables
import MiniPascal.Proofs.Semantics.Bare
import MiniPascal.Proofs.Semantics.Simulation

/-!
# Reading rendered programs

The rendering of a program that was read, with plain names, is read as the same tree, up to the
places of its tokens and up to empty statements. It is resolved as the program was, and running it
gives the same bindings or fails with the same code.
-/
namespace MiniPascal

open Grammar

variable {file : String} {source : Bytes} {index : Nat} {p q : Program} {r r' : Resolution}

/-- A string that prints a program is read as one of this tree. -/
theorem Prints.exists_ofSource {text : String} {a : Program} (h : Prints .program Anything text a)
    (file : String) (index : Nat) :
    ∃ q, Program.ofSource file (Text.encode text) index = .ok q ∧ q.relabel .plain = a := by
  obtain ⟨d, rfl, hr, hwrites⟩ := h
  obtain ⟨read, eof, hstream, hread⟩ := (hwrites [] trivial).stream_eq (.start file) index
  have heof : eof.plain.kind = .endOfFile := by
    refine TokenStream.ofSource_stop_proper file (Text.encode text) index eof ?_
    exact congrArg TokenStream.stop hstream
  have hplain : Program.ofStream (Relabeling.plain.stream ⟨read, .endOfFile eof⟩) = .ok d.tree := by
    have hyield : Relabeling.plain.stream ⟨read, .endOfFile eof⟩ =
        ⟨d.yield, .endOfFile eof.plain⟩ := congrArg (TokenStream.mk · _) hread
    rw [hyield]
    exact Parser.runOn_eq_ok.mpr ⟨_, Parser.program_reads heof (Nat.le_refl _) hr⟩
  have hcarries := Program.ofStream_carries .plain read eof
  have hsource : Program.ofSource file (Text.encode text) index =
      Program.ofStream ⟨read, .endOfFile eof⟩ :=
    congrArg Program.ofStream hstream
  rw [hplain, ← hsource] at hcarries
  generalize Program.ofSource file (Text.encode text) index = answer at hcarries ⊢
  cases hcarries with
  | ok h => exact ⟨_, rfl, h.symm⟩

/-- The labels add to the plain names of a program: the level behind a name that is declared or
called, and the level and the type of a reference, with angle brackets around it. -/
structure Labelling.Tags (p : Program) (l : Labelling) : Prop where
  declared (t : Token) (level : Int) : l.declared t level = plain.declared t level ++ toString level
  reference : ∀ t ∈ p.references, ∃ (level : Int) (type : String),
    l.reference t = "<" ++ plain.reference t ++ toString level ++ ":" ++ type ++ ">"
  call : ∀ t ∈ p.calls, ∃ level : Int, l.call t = plain.call t ++ toString level

theorem Table.exists_find? {α : Type} {t : Table α} {i : Nat} (h : i ∈ t.keys) :
    ∃ a, t.find? i = some a := by
  refine Option.ne_none_iff_exists'.mp fun hnone => ?_
  obtain ⟨entry, hentry, rfl⟩ := List.mem_map.mp h
  have hne := List.lookup_eq_none_iff.mp hnone entry hentry
  rw [bne_self_eq_false] at hne
  cases hne

/-- A resolution has a label for each name that is used. -/
theorem Resolution.labelling_tags (hp : Program.ofSource file source index = .ok p)
    (hr : p.resolve.1 = .ok r) : r.labelling.Tags p := by
  obtain ⟨hreferences, hcalls⟩ := Program.keys_of_resolve hr (Program.nodup_uses hp)
  refine ⟨fun _ _ => rfl, fun t ht => ?_, fun t ht => ?_⟩
  · obtain ⟨v, hv⟩ := Table.exists_find? (hreferences.mem_iff.mpr (List.mem_map_of_mem ht))
    refine ⟨v.level, v.typeName, ?_⟩
    simp only [labelling, hv]
    rfl
  · obtain ⟨proc, hproc⟩ := Table.exists_find? (hcalls.mem_iff.mpr (List.mem_map_of_mem ht))
    refine ⟨proc.level, ?_⟩
    simp only [labelling, hproc]
    rfl

namespace Program

theorem readable (h : Program.ofSource file source index = .ok p) :
    Readable (TokenStream.ofSource file source index).tokens := by
  obtain ⟨d, eof, hstream, hr, -⟩ := exists_phrase h
  refine ⟨Cursor.written_of_mem_stream _, ?_, Cursor.isWordByte_of_mem_stream _⟩
  rw [hstream]
  exact hr

/-- Programs that differ in the places of tokens and in empty statements are resolved alike. -/
theorem exists_resolution (hbare : p.bare .plain = q.bare .plain) (h : p.resolve.1 = .ok r) :
    ∃ r', q.resolve.1 = .ok r' := by
  have hp := resolve_bare .plain p
  have hq := resolve_bare .plain q
  rw [h] at hp
  rw [← hbare] at hq
  generalize (p.bare .plain).resolve.1 = answer at hp hq
  cases hp
  generalize q.resolve.1 = answer' at hq ⊢
  cases hq
  exact ⟨_, rfl⟩

end Program

/-- The same bindings, or diagnostics of the same code. -/
inductive SameResult : Except RunError Bindings → Except RunError Bindings → Prop
  | ok {b b' : Bindings} (h : ∀ name, b.get? name = b'.get? name) : SameResult (.ok b) (.ok b')
  | error {d d' : Diagnostic} (h : d.code = d'.code) :
      SameResult (.error (.diagnostic d)) (.error (.diagnostic d'))

/-- Other tokens leave the code of a diagnostic as it is. -/
theorem Relabeling.Carries.mapError_code {f : Relabeling} {α : Type} {o o' : Except Diagnostic α}
    (h : f.Carries (· = ·) o o') : o.mapError Diagnostic.code = o'.mapError Diagnostic.code := by
  cases h with
  | ok h => exact congrArg Except.ok h
  | error t c => rfl

theorem SameResult.of_outcomes {result result' : Except RunError Bindings}
    {o o' : Except Diagnostic (String → Option Value)}
    (h : result.map Bindings.get? = o.mapError .diagnostic)
    (h' : result'.map Bindings.get? = o'.mapError .diagnostic)
    (hcode : o.mapError Diagnostic.code = o'.mapError Diagnostic.code) :
    SameResult result result' := by
  rcases Semantics.exists_of_outcome h with ⟨b, rfl, rfl⟩ | ⟨d, rfl, rfl⟩ <;>
    rcases Semantics.exists_of_outcome h' with ⟨b', rfl, rfl⟩ | ⟨d', rfl, rfl⟩
  · exact .ok fun name => congrFun (Except.ok.inj hcode) name
  · cases hcode
  · cases hcode
  · exact .error (Except.error.inj hcode)

namespace Program

/-- The annotated rendering of a program that was read and resolved labels its names. Rendered with
plain names, the program is read again, as the tree that has one empty statement at the end of each
compound and no others. It is resolved, and running it gives the same bindings or a diagnostic of
the same code. -/
theorem rendering_reads_back (hp : Program.ofSource file source index = .ok p)
    (hr : p.resolve.1 = .ok r) (file' : String) (index' : Nat) :
    (∃ l, l.Tags p ∧ r.annotated p = p.render l) ∧
    ∃ q r', Program.ofSource file' (Text.encode (p.render .plain)) index' = .ok q ∧
      q.relabel .plain = p.tidied.relabel .plain ∧ q.resolve.1 = .ok r' ∧
      ∀ settings, SameResult (p.run r settings).result (q.run r' settings).result := by
  refine ⟨⟨r.labelling, Resolution.labelling_tags hp hr, rfl⟩, ?_⟩
  have hprints := (readable hp).prints_program (lexical_nodes hp)
  obtain ⟨q, hq, htree⟩ := hprints.exists_ofSource file' index'
  have hbare : p.bare .plain = q.bare .plain := by
    rw [← bare_tidied, ← bare_relabel, ← htree, bare_relabel]
  obtain ⟨r', hr'⟩ := exists_resolution hbare hr
  refine ⟨q, r', hq, htree, hr', fun settings => ?_⟩
  obtain ⟨o, hresult, hruns⟩ := Semantics.exists_outcome hp hr settings
  obtain ⟨o', hresult', hruns'⟩ := Semantics.exists_outcome hq hr' settings
  obtain ⟨o₀, hcarries, hcarries'⟩ := hruns.carries hruns' hbare
  exact .of_outcomes hresult hresult' (hcarries.mapError_code.trans hcarries'.mapError_code.symm)

/-- Signs before operands, brackets, lists of names and empty statements. -/
theorem rendering_reads_back_signs :
    let source := ("PROGRAM p; VAR x, y : REAL; procedure f(a, b : integer; c : real); begin " ++
      "x := c end; BEGIN ; y := 1 - (-2 - 3.50) * +-4; ; BEGIN END; " ++
      "f(1, (2) DIV 1 DIV (0 + 0), y) END.").toList.map fun c => c.toNat.toUInt8
    let text := "program p;\n   var x : REAL;\n   var y : REAL;\n" ++
      "   procedure f(a : INTEGER; b : INTEGER; c : REAL);\n      begin\n         x := c;\n" ++
      "      end; \x7bEND OF f\x7d\nbegin\n   y := 1 - (-2 - 3.50) * +-4;\n   begin\n   end;\n" ++
      "   f(1, 2 DIV 1 DIV (0 + 0), y);\nend. \x7bEND OF p\x7d\n"
    ∃ p r q r', Program.ofSource "p.pas" source = .ok p ∧ p.resolve.1 = .ok r ∧
      p.render .plain = text ∧ (p.run r).result.toOption.isNone = true ∧
      Program.ofSource "q.pas" (Text.encode text) 7 = .ok q ∧
      q.relabel .plain = p.tidied.relabel .plain ∧ q.resolve.1 = .ok r' ∧
      SameResult (p.run r).result (q.run r').result := by
  intro source text
  obtain ⟨p, r, hp, hr, hfacts⟩ : ∃ p r, Program.ofSource "p.pas" source = .ok p ∧
      p.resolve.1 = .ok r ∧
      decide (p.render .plain = text ∧ (p.run r).result.toOption.isNone = true) = true :=
    exists_resolved (by decide +kernel)
  obtain ⟨htext, hfails⟩ := of_decide_eq_true hfacts
  obtain ⟨-, q, r', hq, htree, hr', hruns⟩ := rendering_reads_back hp hr "q.pas" 7
  rw [htext] at hq
  exact ⟨p, r, q, r', hp, hr, htext, hfails, hq, htree, hr', hruns {}⟩

end Program

end MiniPascal
