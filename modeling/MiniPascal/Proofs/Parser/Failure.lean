import MiniPascal.Proofs.Parser.Language
import MiniPascal.Proofs.Parser.Tracks
import MiniPascal.Proofs.Token.Spelling

/-!
# Where the reading of a program fails

A text that is no program is at fault at one token, or at the place where no token can be read.
All before it can be completed to a program. What comes behind it does not change the answer,
unless all that is wrong is that the text ends too early.

The token of a syntax error has a position, and a position determines the offset in the text.
-/
namespace MiniPascal

open Grammar

namespace Position

def Before (p q : Position) : Prop :=
  p.line < q.line ∨ p.line = q.line ∧ p.column < q.column

theorem before_advance (p : Position) (b : UInt8) : p.Before (p.advance b) := by
  unfold Before advance
  split
  · exact .inl (Int.lt_add_one_of_le (Int.le_refl _))
  · exact .inr ⟨rfl, Int.lt_add_one_of_le (Int.le_refl _)⟩

theorem Before.trans {p q r : Position} (hpq : p.Before q) (hqr : q.Before r) : p.Before r := by
  unfold Before at *
  omega

theorem before_advanceBy (p : Position) {bytes : Bytes} (h : bytes ≠ []) :
    p.Before (p.advanceBy bytes) := by
  induction bytes generalizing p with
  | nil => exact absurd rfl h
  | cons b rest ih =>
    cases rest with
    | nil => exact p.before_advance b
    | cons b' rest => exact (p.before_advance b).trans (ih _ (List.cons_ne_nil _ _))

theorem advanceBy_take_ne (p : Position) {source : Bytes} {m n : Nat} (hmn : m < n)
    (hn : n ≤ source.length) : p.advanceBy (source.take m) ≠ p.advanceBy (source.take n) := by
  intro heq
  have hsplit : source.take n = source.take m ++ (source.drop m).take (n - m) := by
    rw [← List.take_add, Nat.add_sub_of_le (Nat.le_of_lt hmn)]
  have hne : (source.drop m).take (n - m) ≠ [] := by
    refine List.ne_nil_of_length_pos ?_
    rw [List.length_take, List.length_drop]
    omega
  have hbefore := (p.advanceBy (source.take m)).before_advanceBy hne
  rw [← advanceBy_append, ← hsplit, ← heq] at hbefore
  unfold Before at hbefore
  omega

end Position

/-- The token starts behind the first `offset` bytes of the source text. -/
def Token.StartsAt (t : Token) (file : String) (source : Bytes) (offset : Nat) : Prop :=
  offset ≤ source.length ∧ t.pos = (Position.start file).advanceBy (source.take offset)

theorem Token.StartsAt.unique {t : Token} {file : String} {source : Bytes} {m n : Nat}
    (hm : t.StartsAt file source m) (hn : t.StartsAt file source n) : m = n := by
  have heq := hm.2.symm.trans hn.2
  rcases Nat.lt_trichotomy m n with h | h | h
  · exact absurd heq (Position.advanceBy_take_ne _ h hn.1)
  · exact h
  · exact absurd heq.symm (Position.advanceBy_take_ne _ h hm.1)

theorem Parser.runOn_eq_error {α : Type} {p : Nat → Parser α} {s : TokenStream} {d : Diagnostic} :
    runOn p s = .error d ↔ p s.length s = .error d := by
  change (Prod.fst <$> p s.length s) = _ ↔ _
  cases h : p s.length s with
  | error e =>
    constructor
    · intro hd
      cases hd
      rfl
    · intro hd
      cases hd
      rfl
  | ok x =>
    constructor
    · intro hd
      cases hd
    · intro hd
      cases hd

theorem TokenStream.ofSource_extend {g : UInt8} (hg : isGapByte g = true) (file : String)
    (source more : Bytes) (index : Nat) :
    let s := ofSource file source index
    let s' := ofSource file (source ++ g :: more) index
    (∃ tokens, s'.tokens = s.tokens ++ tokens) ∧
      ∀ d, s.stop = .failed d → d.cause ≠ .unterminatedComment → s' = s :=
  Cursor.stream_extend hg (Cursor.ofSource file source index) more

theorem TokenStream.exists_cut {file : String} {source : Bytes} {index : Nat}
    {tokens rest : List Token} {t : Token}
    (h : (ofSource file source index).tokens = tokens ++ rest)
    (ht : head ⟨rest, (ofSource file source index).stop⟩ = .ok t) :
    ∃ before after, source = before ++ after ∧ t.pos = (Position.start file).advanceBy before ∧
      (t.kind = .endOfFile → after = []) ∧
      ∀ (more : Bytes) {g : UInt8}, isGapByte g = true →
        let s := Cursor.stream ⟨g :: more, t.pos, index + tokens.length⟩
        ofSource file (before ++ g :: more) index = ⟨tokens ++ s.tokens, s.stop⟩ :=
  Cursor.exists_cut h ht

/-- Where no token can be read, the error is about no token. -/
theorem TokenStream.lexical_of_failed {file : String} {source : Bytes} {index : Nat}
    {d : Diagnostic} (h : (ofSource file source index).stop = .failed d) :
    d.code = .lexical ∧ d.token = none := by
  obtain ⟨c, _, hstream⟩ := Cursor.exists_readsTo
    (List.append_nil (Cursor.ofSource file source index).stream.tokens).symm
  rw [show (Cursor.ofSource file source index).stream.stop = .failed d from h] at hstream
  obtain ⟨c', hnext⟩ := Cursor.next_of_failed hstream
  have hreading := Cursor.reading_next c
  rw [hnext] at hreading
  cases hreading with
  | invalid => exact ⟨rfl, rfl⟩
  | unclosed => exact ⟨rfl, rfl⟩

theorem Diagnostic.isIncomplete_atToken {t : Token} {cause : Cause} (hcause : cause.code = .parsing)
    (ht : t.kind = .endOfFile) : (atToken t cause).isIncomplete = true := by
  simp [isIncomplete, code, atToken, hcause, ht]

theorem Diagnostic.isIncomplete_of_unterminated {d : Diagnostic}
    (h : d.cause = .unterminatedComment) : d.isIncomplete = true := by
  unfold isIncomplete code
  rw [h]
  exact beq_self_eq_true _

/-- Where no tokens are left, an error that more text could not mend is the failure to read one. -/
theorem Parser.FailsAt.stop_eq {stop : Stop} {d : Diagnostic} (h : FailsAt stop [] d)
    (hs : stop.Proper) (hd : d.isIncomplete = false) : stop = .failed d := by
  rcases h with hhead | ⟨t, cause, hhead, hcause, rfl⟩
  · exact (head_eq_error hhead).2
  · cases stop with
    | failed e => cases hhead
    | endOfFile eof =>
      cases hhead
      rw [Diagnostic.isIncomplete_atToken hcause (hs _ rfl)] at hd
      cases hd

namespace Program

variable {file : String} {source : Bytes} {index : Nat} {d : Diagnostic}

theorem exists_ok (h : (Program.ofSource file source index).isOk = true) :
    ∃ p, Program.ofSource file source index = .ok p := by
  cases hp : Program.ofSource file source index with
  | ok p => exact ⟨p, rfl⟩
  | error d =>
    rw [hp] at h
    cases h

theorem exists_error (h : (Program.ofSource file source index).isOk = false) :
    ∃ d, Program.ofSource file source index = .error d := by
  cases hp : Program.ofSource file source index with
  | ok p =>
    rw [hp] at h
    cases h
  | error d => exact ⟨d, rfl⟩

/-- Reading fails behind the front of a program; behind the token at fault nothing is looked at. -/
theorem exists_failure (h : Program.ofSource file source index = .error d) (more : List Token)
    (stop : Stop) :
    let s := TokenStream.ofSource file source index
    ∃ front rest, s.tokens = front ++ rest ∧ Parser.FailsAt s.stop rest d ∧
      Completable (fun back => (phrases .program).Mem (front ++ back)) ∧
      (rest ≠ [] → Program.ofStream ⟨s.tokens ++ more, stop⟩ = .error d) := by
  intro s
  have hlength : s.length ≤ TokenStream.length ⟨s.tokens ++ more, stop⟩ := by
    rw [TokenStream.length, TokenStream.length, List.length_append]
    exact Nat.le_add_right ..
  have hproper : s.stop.Proper := TokenStream.ofSource_stop_proper file source index
  have herror : Parser.program s.length ⟨s.tokens, s.stop⟩ = .error d :=
    Parser.runOn_eq_error.mp h
  cases Parser.program_tracks hproper hlength (Nat.le_refl _) with
  | reads front hp _ _ _ => cases herror.symm.trans hp
  | @fails d' front rest hp htokens hat hmem hq =>
    cases herror.symm.trans hp
    exact ⟨front, rest, htokens, hat, hmem, fun hrest =>
      Parser.runOn_eq_error.mpr (hq hrest more stop)⟩

/-- An error stays when the text goes on behind a gap byte, unless it only says that the text ends
too early. -/
theorem ofSource_extend_of_error (h : Program.ofSource file source index = .error d)
    (hd : d.isIncomplete = false) {g : UInt8} (hg : isGapByte g = true) (more : Bytes) :
    Program.ofSource file (source ++ g :: more) index = .error d := by
  obtain ⟨⟨tokens, htokens⟩, hfailed⟩ := TokenStream.ofSource_extend hg file source more index
  obtain ⟨front, rest, _, hat, _, hmore⟩ :=
    exists_failure h tokens (TokenStream.ofSource file (source ++ g :: more) index).stop
  rw [Program.ofSource]
  cases rest with
  | cons t rest =>
    rw [← htokens] at hmore
    exact hmore (List.cons_ne_nil _ _)
  | nil =>
    -- at the end of the tokens this is a byte that starts none, and it still starts none
    have hstop := hat.stop_eq (TokenStream.ofSource_stop_proper file source index) hd
    have hcause : d.cause ≠ .unterminatedComment := by
      intro hcause
      rw [Diagnostic.isIncomplete_of_unterminated hcause] at hd
      cases hd
    rw [hfailed d hstop hcause]
    exact h

theorem exists_ofStream_of_phrase {tokens : List Token} {eof : Token}
    (heof : eof.kind = .endOfFile) (h : (phrases .program).Mem tokens) :
    ∃ p, Program.ofStream ⟨tokens, .endOfFile eof⟩ = .ok p := by
  obtain ⟨hr, derivation, rfl⟩ := h
  exact ⟨derivation.tree,
    Parser.runOn_eq_ok.mpr ⟨_, Parser.program_reads heof (Nat.le_refl _) hr⟩⟩

/-- Where a text can be cut, it can be completed if its tokens can be. -/
theorem exists_ofSource_of_completable {before : Bytes} {front : List Token} {pos : Position}
    (hcut : ∀ (more : Bytes) {g : UInt8}, isGapByte g = true →
      let s := Cursor.stream ⟨g :: more, pos, index + front.length⟩
      TokenStream.ofSource file (before ++ g :: more) index = ⟨front ++ s.tokens, s.stop⟩)
    (hfront : Completable fun back => (phrases .program).Mem (front ++ back)) :
    ∃ more p, Program.ofSource file (before ++ 0x0A :: more) index = .ok p := by
  obtain ⟨kinds, hkinds, hmem⟩ := hfront
  -- behind the cut there can stand tokens of the kinds that complete the front
  obtain ⟨text, tokens, eof, hstream, htokens⟩ :=
    exists_text_of_fillers hkinds (g := 0x0A) rfl pos (index + front.length)
  have hwhole : TokenStream.ofSource file (before ++ 0x0A :: text) index =
      ⟨front ++ tokens, .endOfFile eof⟩ := by
    rw [hcut text rfl, hstream]
  have heof : eof.kind = .endOfFile := by
    refine TokenStream.ofSource_stop_proper file (before ++ 0x0A :: text) index eof ?_
    rw [hwhole]
  obtain ⟨p, hp⟩ := exists_ofStream_of_phrase heof (hmem tokens htokens)
  refine ⟨text, p, ?_⟩
  rw [Program.ofSource, hwhole]
  exact hp

/-- A syntax error is about a token, and the text up to that token can be completed. -/
theorem exists_completion (h : Program.ofSource file source index = .error d)
    (hd : d.code = .parsing) :
    ∃ t offset, d.token = some t ∧ t.StartsAt file source offset ∧
      (t.kind = .endOfFile → offset = source.length) ∧
      ∃ more p, Program.ofSource file (source.take offset ++ 0x0A :: more) index = .ok p := by
  obtain ⟨front, rest, hsplit, hat, hfront, _⟩ :=
    exists_failure h [] (TokenStream.ofSource file source index).stop
  rcases hat with hhead | ⟨t, cause, hhead, hcause, rfl⟩
  · rw [(TokenStream.lexical_of_failed (Parser.head_eq_error hhead).2).1] at hd
    cases hd
  obtain ⟨before, after, hsource, hpos, hend, hcut⟩ := TokenStream.exists_cut hsplit hhead
  have htake : source.take before.length = before := by
    rw [hsource]
    exact List.take_left' rfl
  refine ⟨t, before.length, rfl, ⟨?_, ?_⟩, ?_, ?_⟩
  · rw [hsource, List.length_append]
    exact Nat.le_add_right ..
  · rw [htake]
    exact hpos
  · intro hkind
    rw [hsource, hend hkind, List.append_nil]
  · rw [htake]
    exact exists_ofSource_of_completable hcut hfront

/-- The text before the token of a syntax error can be completed to a program; an error at the end
of the text therefore means that the text itself can be. -/
theorem text_before_a_syntax_error_is_viable (file : String) (source : Bytes) (index : Nat)
    (d : Diagnostic) (h : Program.ofSource file source index = .error d) (hd : d.code = .parsing) :
    (∃ t offset, d.token = some t ∧ (∀ o, t.StartsAt file source o ↔ o = offset) ∧
      (t.kind = .endOfFile → offset = source.length) ∧
      ∃ more p, Program.ofSource file (source.take offset ++ 0x0A :: more) index = .ok p) ∧
    (d.isIncomplete = true →
      ∃ more p, Program.ofSource file (source ++ 0x0A :: more) index = .ok p) := by
  obtain ⟨t, offset, ht, hstarts, hend, hmore⟩ := exists_completion h hd
  refine ⟨⟨t, offset, ht, fun o => ⟨fun ho => ho.unique hstarts, ?_⟩, hend, hmore⟩, ?_⟩
  · rintro rfl
    exact hstarts
  · intro hincomplete
    rw [Diagnostic.isIncomplete, hd, ht] at hincomplete
    have hkind : t.kind = .endOfFile := beq_iff_eq.mp hincomplete
    rw [hend hkind, List.take_length] at hmore
    exact hmore

/-- A bracket is missing before the body of a procedure, and the text before the body is viable. -/
theorem text_before_a_syntax_error_is_viable_bracket :
    let source := "program p; procedure q(a : integer begin end; begin end.".toList.map
      fun c => c.toNat.toUInt8
    ∃ d, Program.ofSource "p.pas" source = .error d ∧ d.code = .parsing ∧
      ∃ t more p, d.token = some t ∧ t.kind = .beginWord ∧ t.StartsAt "p.pas" source 35 ∧
        Program.ofSource "p.pas" (source.take 35 ++ 0x0A :: more) = .ok p := by
  intro source
  let t : Token :=
    { kind := .beginWord, lexeme := some "begin", pos := { file := "p.pas", column := 36 }
      index := 9 }
  have herror : (match Program.ofSource "p.pas" source with
      | .ok _ => false
      | .error d => d == .atToken t (.unexpected "'BEGIN'" .closeParen)) = true := by
    decide +kernel
  have hstarts : t.StartsAt "p.pas" source 35 := ⟨by decide, by decide⟩
  cases ha : Program.ofSource "p.pas" source with
  | ok p =>
    rw [ha] at herror
    cases herror
  | error d =>
    rw [ha] at herror
    cases beq_iff_eq.mp herror
    obtain ⟨⟨t', offset, ht, hunique, _, more, p, hp⟩, _⟩ :=
      text_before_a_syntax_error_is_viable "p.pas" source 0 _ ha rfl
    cases ht
    cases (hunique 35).mp hstarts
    exact ⟨_, rfl, rfl, t, more, p, rfl, rfl, hstarts, hp⟩

end Program

end MiniPascal
