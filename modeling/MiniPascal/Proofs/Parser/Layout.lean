import MiniPascal.Proofs.Parser.Failure
import MiniPascal.Proofs.Syntax.Relabel

/-!
# Programs in other places

The tokens of a text depend on where the text stands only in their positions and indices. A program
read from tokens of the same kinds and texts is the same program with other tokens.

When the text behind a program goes on and is a program again, it is the same program, and what was
added is a gap: behind the last dot no token can stand.
-/
namespace MiniPascal

open Grammar

/-- Where a text stands shows in its tokens, but not in their kinds and texts. -/
theorem Cursor.stream_moved (bytes : Bytes) (pos pos' : Position) (index index' : Nat) :
    let s := stream ⟨bytes, pos, index⟩
    let s' := stream ⟨bytes, pos', index'⟩
    s.tokens.map Token.plain = s'.tokens.map Token.plain ∧
      ∀ eof, s.stop = .endOfFile eof → ∃ eof', s'.stop = .endOfFile eof' := by
  induction hlength : bytes.length using Nat.strongRecOn
    generalizing bytes pos pos' index index' with
  | ind n ih =>
    have hreading := reading_next ⟨bytes, pos, index⟩
    rcases hnext : next ⟨bytes, pos, index⟩ with ⟨outcome, c₁⟩
    rw [hnext] at hreading
    cases hreading with
    | @token gap b rest kind lexeme length hgap hrest htoken =>
      have hreading' := Reading.token (c := ⟨bytes, pos', index'⟩) hgap hrest htoken
      have hkind := tokenAt?_kind_ne htoken
      rw [stream_of_token hnext hkind, stream_of_token hreading'.next_eq hkind]
      have hshorter := next_shortens hnext hkind
      have hrest' := ih _ (hlength ▸ hshorter) _
        ((pos.advanceBy gap).advanceBy ((b :: rest).take length))
        ((pos'.advanceBy gap).advanceBy ((b :: rest).take length)) (index + 1) (index' + 1) rfl
      exact ⟨congrArg (_ :: ·) hrest'.1, hrest'.2⟩
    | endOfFile hgap =>
      have hreading' := Reading.endOfFile (c := ⟨bytes, pos', index'⟩) hgap
      rw [stream_of_endOfFile hnext rfl, stream_of_endOfFile hreading'.next_eq rfl]
      exact ⟨rfl, fun _ _ => ⟨_, rfl⟩⟩
    | invalid hgap hrest hb htoken =>
      have hreading' := Reading.invalid (c := ⟨bytes, pos', index'⟩) hgap hrest hb htoken
      rw [stream_of_error hnext, stream_of_error hreading'.next_eq]
      exact ⟨rfl, fun _ h => by cases h⟩
    | unclosed hgap hrest hinside htail =>
      have hreading' := Reading.unclosed (c := ⟨bytes, pos', index'⟩) hgap hrest hinside htail
      rw [stream_of_error hnext, stream_of_error hreading'.next_eq]
      exact ⟨rfl, fun _ h => by cases h⟩

theorem Cursor.gap_of_stream {c : Cursor} {eof : Token} (htokens : c.stream.tokens = [])
    (hstop : c.stream.stop = .endOfFile eof) : Gap c.rest := by
  have hhead : c.stream.head = .ok eof := by
    rw [TokenStream.head, htokens, hstop]
  obtain ⟨c', hnext⟩ := next_of_head hhead
  have hreading := reading_next c
  rw [hnext] at hreading
  cases hreading with
  | endOfFile hgap => exact hgap
  | token hgap hrest htoken =>
    rw [stream_of_token hnext (tokenAt?_kind_ne htoken)] at htokens
    cases htokens

namespace Program

variable {file : String} {source : Bytes} {index : Nat} {p : Program}

/-- The tokens of a program that is read are those of a derivation, up to the end of the file. -/
theorem exists_phrase (h : Program.ofSource file source index = .ok p) :
    ∃ (d : Derivation .program) (eof : Token),
      TokenStream.ofSource file source index = ⟨d.yield, .endOfFile eof⟩ ∧ InRange d.yield ∧
        d.tree = p := by
  obtain ⟨s', hp⟩ := Parser.runOn_eq_ok.mp h
  have hproper := TokenStream.ofSource_stop_proper file source index
  obtain ⟨d, rest, eof, htokens, hhead, hkind, hr, hd⟩ :=
    Parser.program_sound hproper (Nat.le_refl _) hp
  have hrest : rest = [] := by
    refine Parser.nil_of_head_endOfFile hhead hkind fun t ht => ?_
    exact TokenStream.kind_ne_of_mem_ofSource (htokens ▸ List.mem_append_right d.yield ht)
  rw [hrest, List.append_nil] at htokens
  rw [hrest] at hhead
  refine ⟨d, eof, ?_, hr, hd⟩
  rw [← htokens]
  cases hstop : (TokenStream.ofSource file source index).stop with
  | failed e =>
    rw [TokenStream.head, hstop] at hhead
    cases hhead
  | endOfFile t =>
    rw [TokenStream.head, hstop] at hhead
    cases hhead
    rw [← hstop]

/-- Tokens of the same kinds and texts are read as the same program with other tokens. -/
theorem ofSource_of_map_plain (h : Program.ofSource file source index = .ok p) {file' : String}
    {source' : Bytes} {index' : Nat} {eof' : Token}
    (htokens : (TokenStream.ofSource file source index).tokens.map Token.plain =
      (TokenStream.ofSource file' source' index').tokens.map Token.plain)
    (hstop : (TokenStream.ofSource file' source' index').stop = .endOfFile eof') :
    ∃ f : Relabeling, Program.ofSource file' source' index' = .ok (p.relabel f) := by
  obtain ⟨d, eof, hstream, hr, rfl⟩ := exists_phrase h
  have hnodup : d.yield.Nodup := by
    have hindex := TokenStream.nodup_index_ofSource file source index
    rw [hstream] at hindex
    exact List.Pairwise.of_map _ (fun t t' hne heq => hne (congrArg Token.index heq)) hindex
  rw [hstream] at htokens
  obtain ⟨f, hf⟩ := exists_relabeling hnodup htokens
  refine ⟨f, ?_⟩
  have heof' := TokenStream.ofSource_stop_proper file' source' index' eof' hstop
  have hyield : (TokenStream.ofSource file' source' index') =
      ⟨(d.relabel f).yield, .endOfFile eof'⟩ := by
    rw [Derivation.yield_relabel, hf, ← hstop]
  have hr' : InRange (d.relabel f).yield := by
    rw [Derivation.yield_relabel]
    exact inRange_relabel f hr
  have htree : (d.relabel f).tree = d.tree.relabel f := d.tree_relabel f
  rw [Program.ofSource, hyield, ← htree]
  exact Parser.runOn_eq_ok.mpr ⟨_, Parser.program_reads heof' (Nat.le_refl _) hr'⟩

/-- A program behind a gap is the same program with other tokens. -/
theorem ofSource_of_gap {gap rest : Bytes} (hgap : Gap gap)
    (h : Program.ofSource file (gap ++ rest) index = .ok p) (file' : String) (index' : Nat) :
    ∃ f : Relabeling, Program.ofSource file' rest index' = .ok (p.relabel f) := by
  obtain ⟨d, eof, hstream, _⟩ := exists_phrase h
  have hmoved := Cursor.stream_moved rest ((Position.start file).advanceBy gap) (.start file')
    index index'
  have hgap' : TokenStream.ofSource file (gap ++ rest) index =
      Cursor.stream ⟨rest, (Position.start file).advanceBy gap, index⟩ :=
    Cursor.stream_gap hgap (.start file) index
  rw [← hgap'] at hmoved
  obtain ⟨eof', heof'⟩ := hmoved.2 eof (by rw [hstream])
  exact ofSource_of_map_plain h hmoved.1 heof'

/-- Nothing but a gap can follow a program. -/
theorem ofSource_extend_of_ok (h : Program.ofSource file source index = .ok p) {g : UInt8}
    (hg : isGapByte g = true) {more : Bytes} {q : Program}
    (hq : Program.ofSource file (source ++ g :: more) index = .ok q) :
    p = q ∧ Gap (g :: more) := by
  obtain ⟨d, eof, hstream, _, rfl⟩ := exists_phrase h
  obtain ⟨d', eof', hstream', _, rfl⟩ := exists_phrase hq
  have hsplit : (TokenStream.ofSource file source index).tokens = d.yield ++ [] := by
    rw [hstream, List.append_nil]
  have hhead : TokenStream.head ⟨[], (TokenStream.ofSource file source index).stop⟩ = .ok eof := by
    rw [hstream]
    rfl
  have heof : eof.kind = .endOfFile := by
    refine TokenStream.ofSource_stop_proper file source index eof ?_
    rw [hstream]
  obtain ⟨before, after, hsource, _, hend, hcut⟩ := TokenStream.exists_cut hsplit hhead
  rw [hend heof, List.append_nil] at hsource
  subst hsource
  -- the tokens behind the program belong to a program with the same front
  have hwhole := hstream'.symm.trans (hcut more hg)
  rw [TokenStream.mk.injEq] at hwhole
  obtain ⟨htokens, hstop⟩ := hwhole
  rw [← List.append_nil d'.yield] at htokens
  obtain ⟨rfl, hnil⟩ := Derivation.determined d' d htokens rfl rfl
  exact ⟨rfl, Cursor.gap_of_stream hnil.symm hstop.symm⟩

end Program

end MiniPascal
