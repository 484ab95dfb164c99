import MiniPascal.Proofs.Parser.Complete
import MiniPascal.Proofs.Parser.Sound

/-!
# The language of the parser

On a source text whose tokens can all be read, programs, lone expressions and lone statements are
accepted exactly where the grammar derives the tokens and every constant is in range. The
derivation is then the only one, and the answer is its tree.
-/
namespace MiniPascal.Grammar

/-- An answer to the tokens of a stream is the one that the grammar gives for a nonterminal. -/
def Decides (n : Nonterminal) (s : TokenStream) (answer : Except Diagnostic n.Tree) : Prop :=
  ∀ tokens eof, s.toExcept = .ok (tokens ++ [eof]) →
    (∀ a, answer = .ok a ↔ InRange tokens ∧ ∃ d : Derivation n, d.yield = tokens ∧ d.tree = a) ∧
    (∀ d d' : Derivation n, d.yield = tokens → d'.yield = tokens → d = d')

end MiniPascal.Grammar

namespace MiniPascal

open Grammar

theorem TokenStream.eq_of_toExcept {s : TokenStream} {tokens : List Token} {eof : Token}
    (h : s.toExcept = .ok (tokens ++ [eof])) : s = ⟨tokens, .endOfFile eof⟩ := by
  obtain ⟨tokens', stop⟩ := s
  cases stop with
  | failed d => cases h
  | endOfFile t =>
    have hlist : tokens' ++ [t] = tokens ++ [eof] := Except.ok.inj h
    obtain ⟨rfl, ht⟩ := List.append_inj' hlist rfl
    cases ht
    rfl

namespace Parser

theorem runOn_eq_ok {α : Type} {p : Nat → Parser α} {s : TokenStream} {a : α} :
    runOn p s = .ok a ↔ ∃ s', p s.length s = .ok (a, s') := by
  change (Prod.fst <$> p s.length s) = _ ↔ _
  cases h : p s.length s with
  | error d =>
    constructor
    · intro hd
      cases hd
    · rintro ⟨s', hd⟩
      cases hd
  | ok x =>
    constructor
    · intro hx
      cases hx
      exact ⟨x.2, rfl⟩
    · rintro ⟨s', hx⟩
      cases hx
      rfl

/-- Nothing is left where the end of the file is ahead. -/
theorem nil_of_head_endOfFile {tokens : List Token} {stop : Stop} {t : Token}
    (h : TokenStream.head ⟨tokens, stop⟩ = .ok t) (ht : t.kind = .endOfFile)
    (hne : ∀ t ∈ tokens, t.kind ≠ .endOfFile) : tokens = [] := by
  cases tokens with
  | nil => rfl
  | cons t' rest =>
    cases h
    exact absurd ht (hne t List.mem_cons_self)

/-- A parser decides a nonterminal if each success is by a derivation up to the end of the file,
and each derivation leads to a success. -/
theorem decides_of_sound_of_complete (n : Nonterminal) (hn : n.continues .endOfFile = false)
    (p : Nat → Parser n.Tree) {file : String} {source : Bytes} {index : Nat}
    (hsound : ∀ {tokens : List Token} {stop : Stop} {a : n.Tree} {s' : TokenStream},
      stop.Proper → p tokens.length ⟨tokens, stop⟩ = .ok (a, s') →
      ∃ (d : Derivation n) (rest : List Token) (eof : Token), tokens = d.yield ++ rest ∧
        TokenStream.head ⟨rest, stop⟩ = .ok eof ∧ eof.kind = .endOfFile ∧ InRange d.yield ∧
          d.tree = a)
    (hcomplete : ∀ {eof : Token} {d : Derivation n}, eof.kind = .endOfFile → InRange d.yield →
      p d.yield.length ⟨d.yield, .endOfFile eof⟩ = .ok (d.tree, ⟨[], .endOfFile eof⟩)) :
    Decides n (.ofSource file source index) (runOn p (.ofSource file source index)) := by
  intro tokens eof h
  have hs := TokenStream.eq_of_toExcept h
  have hproper := TokenStream.ofSource_stop_proper file source index
  have hne : ∀ t ∈ (TokenStream.ofSource file source index).tokens, t.kind ≠ .endOfFile :=
    fun t ht => TokenStream.kind_ne_of_mem_ofSource ht
  rw [hs] at hproper hne ⊢
  refine ⟨fun a => ?_, fun d d' hd hd' => Derivation.yield_injective hn (hd.trans hd'.symm)⟩
  constructor
  · intro ha
    obtain ⟨s', hp⟩ := runOn_eq_ok.mp ha
    obtain ⟨d, rest, t, rfl, ht, hk, hr, hd⟩ := hsound hproper hp
    have hrest : rest = [] :=
      nil_of_head_endOfFile ht hk fun t ht => hne t (List.mem_append_right d.yield ht)
    rw [hrest, List.append_nil]
    exact ⟨hr, d, rfl, hd⟩
  · rintro ⟨hr, d, rfl, rfl⟩
    exact runOn_eq_ok.mpr ⟨_, hcomplete (hproper eof rfl) hr⟩

theorem program_decides (file : String) (source : Bytes) (index : Nat) :
    Decides .program (.ofSource file source index) (Program.ofSource file source index) := by
  refine decides_of_sound_of_complete .program rfl program ?_ ?_
  · intro tokens stop a s' hs h
    exact program_sound hs (Nat.le_refl _) h
  · intro eof d heof hr
    exact program_reads heof (Nat.le_refl _) hr

theorem expression_decides (file : String) (source : Bytes) :
    Decides (.item .expr) (.ofSource file source) (Expr.ofSource file source) := by
  refine decides_of_sound_of_complete (.item .expr) rfl (fun n => whole (expression n)) ?_ ?_
  · intro tokens stop a s' hs h
    exact whole_sound (expression_sound hs _) h
  · intro eof d heof hr
    exact whole_reads heof (expression_reads heof _ d (Nat.le_refl _)) hr rfl

theorem statement_decides (file : String) (source : Bytes) :
    Decides (.item .statement) (.ofSource file source) (Stmt.ofSource file source) := by
  refine decides_of_sound_of_complete (.item .statement) rfl (fun n => whole (statement n))
    ?_ ?_
  · intro tokens stop a s' hs h
    exact whole_sound (statement_sound hs _) h
  · intro eof d heof hr
    exact whole_reads heof (statement_reads heof _ d (Nat.le_refl _)) hr rfl

/-- The grammar decides what is read: programs, lone expressions and lone statements. -/
theorem reads_exactly_the_grammar (file : String) (source : Bytes) (index : Nat) :
    Decides .program (.ofSource file source index) (Program.ofSource file source index) ∧
    Decides (.item .expr) (.ofSource file source) (Expr.ofSource file source) ∧
    Decides (.item .statement) (.ofSource file source) (Stmt.ofSource file source) :=
  ⟨program_decides file source index, expression_decides file source,
    statement_decides file source⟩

/-- A program with signs beside operators has one derivation, and its tree is what is read. -/
theorem reads_exactly_the_grammar_signs :
    let source := "program p; var a : real; begin a := 1 - 2 - 3 * -4 end.".toList.map
      fun c => c.toNat.toUInt8
    ∃ tokens eof, (TokenStream.ofSource "p.pas" source).toExcept = .ok (tokens ++ [eof]) ∧
      tokens.length = 21 ∧ InRange tokens ∧ ∃ d : Derivation .program, d.yield = tokens ∧
        Program.ofSource "p.pas" source = .ok d.tree ∧ ∀ d', d'.yield = tokens → d' = d := by
  intro source
  let eof : Token := { kind := .endOfFile, pos := { file := "p.pas", column := 56 }, index := 21 }
  let tokens := (TokenStream.ofSource "p.pas" source).tokens
  have htokens : (TokenStream.ofSource "p.pas" source).toExcept = .ok (tokens ++ [eof]) := by
    have hstop : (TokenStream.ofSource "p.pas" source).stop = .endOfFile eof := by decide +kernel
    rw [TokenStream.toExcept, hstop]
  have hok : (Program.ofSource "p.pas" source).isOk = true := by decide +kernel
  cases ha : Program.ofSource "p.pas" source with
  | error e =>
    rw [ha] at hok
    cases hok
  | ok a =>
    obtain ⟨hiff, hunique⟩ := (reads_exactly_the_grammar "p.pas" source 0).1 tokens eof htokens
    obtain ⟨hr, d, hd, htree⟩ := (hiff a).mp ha
    exact ⟨tokens, eof, htokens, by decide +kernel, hr, d, hd, by rw [htree],
      fun d' hd' => hunique d' d hd' hd⟩

end Parser

/-- A program that is read is the tree of a derivation of its tokens. -/
theorem Program.exists_derivation {file : String} {source : Bytes} {index : Nat} {p : Program}
    (h : Program.ofSource file source index = .ok p) :
    ∃ d : Derivation .program, (TokenStream.ofSource file source index).tokens = d.yield ∧
      d.tree = p := by
  obtain ⟨s', hp⟩ := Parser.runOn_eq_ok.mp h
  have hproper := TokenStream.ofSource_stop_proper file source index
  obtain ⟨d, rest, t, htokens, ht, hk, _, hd⟩ := Parser.program_sound hproper (Nat.le_refl _) hp
  have hrest : rest = [] := by
    refine Parser.nil_of_head_endOfFile ht hk fun t ht => ?_
    have hmem : t ∈ (TokenStream.ofSource file source index).tokens := by
      rw [htokens]
      exact List.mem_append_right d.yield ht
    exact TokenStream.kind_ne_of_mem_ofSource hmem
  refine ⟨d, ?_, hd⟩
  rw [htokens, hrest, List.append_nil]

end MiniPascal
