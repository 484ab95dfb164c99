import MiniPascal.Proofs.Parser.Layout

/-!
# The earlier of two errors

A text that cannot be split into tokens has a byte at fault: a byte that starts no token, or the
brace of a comment without an end. Such a text is no program. The error that is reported is the one
that comes first in the text: that of the byte at fault, or a syntax error at a token before it. It
is that of the byte exactly if the text before the byte can be completed to a program.
-/
namespace MiniPascal

namespace Position

theorem Before.irrefl (p : Position) : ¬ p.Before p := by
  unfold Before
  omega

theorem lt_of_before {p : Position} {source : Bytes} {m n : Nat}
    (h : (p.advanceBy (source.take m)).Before (p.advanceBy (source.take n))) : m < n := by
  refine Nat.lt_of_not_le fun hle => ?_
  have hsplit : source.take m = source.take n ++ (source.drop n).take (m - n) := by
    rw [← List.take_add, Nat.add_sub_of_le hle]
  rw [hsplit, advanceBy_append] at h
  by_cases hnil : (source.drop n).take (m - n) = []
  · rw [hnil] at h
    exact Before.irrefl _ h
  · exact Before.irrefl _ (h.trans (before_advanceBy _ hnil))

end Position

/-- A lexical error is about a byte: the one that starts no token, or the brace that opens a comment
without an end. -/
def Diagnostic.Blames (d : Diagnostic) (b : UInt8) : Prop :=
  (∃ c, d.cause = .invalidCharacter c) ∧ IsSolid b ∧ Cursor.StartsNothing b ∨
    d.cause = .unterminatedComment ∧ b = 0x7B

/-- A lexical error stands behind the first `offset` bytes of the source text, at the byte that it
is about. -/
def Diagnostic.StandsAt (d : Diagnostic) (file : String) (source : Bytes) (offset : Nat) : Prop :=
  d.pos = (Position.start file).advanceBy (source.take offset) ∧
    ∃ b, source[offset]? = some b ∧ d.Blames b

theorem Diagnostic.StandsAt.unique {d : Diagnostic} {file : String} {source : Bytes} {m n : Nat}
    (hm : d.StandsAt file source m) (hn : d.StandsAt file source n) : m = n := by
  obtain ⟨hposm, _, hbm, _⟩ := hm
  obtain ⟨hposn, _, hbn, _⟩ := hn
  have hltm := (List.getElem?_eq_some_iff.mp hbm).1
  have hltn := (List.getElem?_eq_some_iff.mp hbn).1
  have heq := hposm.symm.trans hposn
  rcases Nat.lt_trichotomy m n with h | h | h
  · exact absurd heq (Position.advanceBy_take_ne _ h (Nat.le_of_lt hltn))
  · exact h
  · exact absurd heq.symm (Position.advanceBy_take_ne _ h (Nat.le_of_lt hltm))

namespace Cursor

variable {c c' : Cursor} {t : Token} {d : Diagnostic}

/-- Where the text cannot be read any further, it can be cut and continued. -/
theorem exists_cut_of_failed (h : c.stream.stop = .failed d) :
    ∃ before b after, c.rest = before ++ b :: after ∧ d.pos = c.pos.advanceBy before ∧
      d.Blames b ∧
      ∀ (more : Bytes) {g : UInt8}, isGapByte g = true →
        let s := stream ⟨g :: more, d.pos, c.index + c.stream.tokens.length⟩
        stream { c with rest := before ++ g :: more } = ⟨c.stream.tokens ++ s.tokens, s.stop⟩ := by
  obtain ⟨c', hreads, hstream⟩ := exists_readsTo (List.append_nil c.stream.tokens).symm
  rw [h] at hstream
  obtain ⟨c₁, hnext⟩ := next_of_failed hstream
  -- the byte at fault comes behind the gap at the cursor
  obtain ⟨gap, b, after, hgap, hafter, hpos, hblames⟩ : ∃ gap b after, Gap gap ∧
      c'.rest = gap ++ b :: after ∧ d.pos = c'.pos.advanceBy gap ∧ d.Blames b := by
    have hreading := reading_next c'
    rw [hnext] at hreading
    cases hreading with
    | invalid hgap hrest hb htoken =>
      exact ⟨_, _, _, hgap, hrest, rfl, .inl ⟨⟨_, rfl⟩, hb, tokenAt?_eq_none.mp htoken⟩⟩
    | unclosed hgap hrest hinside htail => exact ⟨_, _, _, hgap, hrest, rfl, .inr ⟨rfl, rfl⟩⟩
  obtain ⟨before, hrest, hbefore, hcut⟩ := hreads.exists_cut hgap hafter
  rw [← hpos] at hbefore hcut
  exact ⟨before, b, after, hrest, hbefore, hblames, fun more _ hg =>
    hcut more (delimits_of_gap hg)⟩

/-- A token comes before all that is read behind it. -/
theorem before_of_next (h : c.next = (.ok t, c')) (hkind : t.kind ≠ .endOfFile) :
    t.pos.Before c'.pos := by
  have hreading := reading_next c
  rw [h] at hreading
  cases hreading with
  | endOfFile hgap => exact absurd rfl hkind
  | @token gap b rest kind lexeme length hgap hrest htoken =>
    refine Position.before_advanceBy _ (List.ne_nil_of_length_pos ?_)
    have hpos := tokenAt?_pos htoken
    rw [List.length_take, List.length_cons]
    omega

/-- All tokens come before the byte at fault. -/
theorem before_of_failed (h : c.stream.stop = .failed d) (ht : t ∈ c.stream.tokens) :
    t.pos.Before d.pos := by
  obtain ⟨front, rest, hsplit⟩ := List.append_of_mem ht
  obtain ⟨c₁, _, hstream⟩ := exists_readsTo hsplit
  have hhead : c₁.stream.head = .ok t := by
    rw [hstream]
    rfl
  obtain ⟨c₂, hnext⟩ := next_of_head hhead
  have hkind : t.kind ≠ .endOfFile := by
    intro hkind
    rw [stream_of_endOfFile hnext hkind] at hstream
    cases hstream
  rw [stream_of_token hnext hkind, h] at hstream
  have hstop : c₂.stream.stop = .failed d := congrArg TokenStream.stop hstream
  obtain ⟨before, b, after, _, hpos, _⟩ := exists_cut_of_failed hstop
  have hbefore := before_of_next hnext hkind
  by_cases hnil : before = []
  · rw [hpos, hnil]
    exact hbefore
  · rw [hpos]
    exact hbefore.trans (Position.before_advanceBy _ hnil)

end Cursor

namespace Program

open Grammar

variable {file : String} {source : Bytes} {index : Nat} {e : Diagnostic}

theorem stop_of_toExcept (h : (TokenStream.ofSource file source index).toExcept = .error e) :
    (TokenStream.ofSource file source index).stop = .failed e := by
  unfold TokenStream.toExcept at h
  split at h
  · cases h
  · next hstop =>
    cases h
    exact hstop

/-- A text with a byte at fault is refused for that byte, all tokens before it being the front of a
program, or for one of these tokens, also if others come behind them. -/
theorem failure_of_failed (h : (TokenStream.ofSource file source index).stop = .failed e)
    (more : List Token) (stop : Stop) :
    let s := TokenStream.ofSource file source index
    (Program.ofSource file source index = .error e ∧
        Completable fun back => (phrases .program).Mem (s.tokens ++ back)) ∨
      ∃ d t, Program.ofSource file source index = .error d ∧ d.code = .parsing ∧
        d.token = some t ∧ t ∈ s.tokens ∧
        Program.ofStream ⟨s.tokens ++ more, stop⟩ = .error d := by
  intro s
  cases hread : Program.ofSource file source index with
  | ok p =>
    obtain ⟨_, eof, hs, _⟩ := exists_phrase hread
    rw [hs] at h
    cases h
  | error d =>
    obtain ⟨front, rest, hsplit, hat, hfront, hmore⟩ := exists_failure hread more stop
    rw [h] at hat
    cases rest with
    | nil =>
      rw [List.append_nil] at hsplit
      rw [← hsplit] at hfront
      rcases hat with hhead | ⟨t, cause, hhead, _⟩
      · cases hhead
        exact .inl ⟨rfl, hfront⟩
      · cases hhead
    | cons t rest =>
      rcases hat with hhead | ⟨t', cause, hhead, hcause, rfl⟩
      · cases hhead
      · cases hhead
        refine .inr ⟨_, t, rfl, hcause, rfl, ?_, hmore (List.cons_ne_nil _ _)⟩
        rw [hsplit]
        exact List.mem_append_right _ List.mem_cons_self

/-- A text that cannot be split into tokens is refused. The error is that of the byte at fault or a
syntax error at a token before it, and it is that of the byte exactly if the text before the byte
can be completed to a program. -/
theorem earlier_error_is_reported (file : String) (source : Bytes) (index : Nat) (e : Diagnostic)
    (h : (TokenStream.ofSource file source index).toExcept = .error e) :
    ∃ offset, (∀ o, e.StandsAt file source o ↔ o = offset) ∧
      (Program.ofSource file source index = .error e ∨
        ∃ d t o, Program.ofSource file source index = .error d ∧ d.code = .parsing ∧
          d.token = some t ∧ t.StartsAt file source o ∧ o < offset) ∧
      (Program.ofSource file source index = .error e ↔
        ∃ more p, Program.ofSource file (source.take offset ++ 0x0A :: more) index = .ok p) := by
  have hstop := stop_of_toExcept h
  obtain ⟨before, b, after, hsource, hpos, hblames, hcut⟩ := Cursor.exists_cut_of_failed hstop
  replace hsource : source = before ++ b :: after := hsource
  have htake : source.take before.length = before := by
    rw [hsource]
    exact List.take_left' rfl
  have hstands : e.StandsAt file source before.length := by
    refine ⟨by rw [htake]; exact hpos, b, ?_, hblames⟩
    rw [hsource, List.getElem?_append_right (Nat.le_refl _), Nat.sub_self]
    rfl
  refine ⟨before.length, fun o => ⟨fun ho => ho.unique hstands, ?_⟩, ?_, ?_⟩
  · rintro rfl
    exact hstands
  · rcases failure_of_failed hstop [] (.failed e) with ⟨herror, _⟩ | ⟨d, t, herror, hd, ht, hmem, _⟩
    · exact .inl herror
    · obtain ⟨t', o, ht', hstarts, _⟩ := exists_completion herror hd
      obtain rfl : t = t' := Option.some.inj (ht.symm.trans ht')
      have hbefore : t.pos.Before e.pos := Cursor.before_of_failed hstop hmem
      rw [hstarts.2, hstands.1] at hbefore
      exact .inr ⟨d, t, o, herror, hd, ht, hstarts, Position.lt_of_before hbefore⟩
  · rw [htake]
    constructor
    · intro herror
      rcases failure_of_failed hstop [] (.failed e) with ⟨_, hfront⟩ | ⟨d, _, herror', hd, _⟩
      · exact exists_ofSource_of_completable hcut hfront
      · cases herror.symm.trans herror'
        rw [(TokenStream.lexical_of_failed hstop).1] at hd
        cases hd
    · rintro ⟨more, p, hp⟩
      -- an error at a token of the text would still be there behind the cut
      have hwhole : TokenStream.ofSource file (before ++ 0x0A :: more) index = _ := hcut more rfl
      rw [Program.ofSource, hwhole] at hp
      rcases failure_of_failed hstop _ _ with ⟨herror, _⟩ | ⟨_, _, _, _, _, _, hmore⟩
      · exact herror
      · cases hp.symm.trans hmore

/-- A constant is out of range right before a byte that starts no token. The constant is looked at
first, so the text before the byte cannot be completed. -/
theorem earlier_error_is_reported_range :
    let source := "program p; begin x := 99999999999999999999 ? end.".toList.map fun c =>
      c.toNat.toUInt8
    let e : Diagnostic :=
      { cause := .invalidCharacter '?', pos := { file := "p.pas", column := 44 } }
    (TokenStream.ofSource "p.pas" source).toExcept = .error e ∧ e.StandsAt "p.pas" source 43 ∧
      (∃ d t o, Program.ofSource "p.pas" source = .error d ∧ d.code = .parsing ∧
        d.token = some t ∧ t.StartsAt "p.pas" source o ∧ o < 43) ∧
      ¬ ∃ more p, Program.ofSource "p.pas" (source.take 43 ++ 0x0A :: more) = .ok p := by
  intro source e
  have hstop : (TokenStream.ofSource "p.pas" source).stop = .failed e := by decide +kernel
  have htokens : (TokenStream.ofSource "p.pas" source).toExcept = .error e := by
    rw [TokenStream.toExcept, hstop]
  have hstands : e.StandsAt "p.pas" source 43 :=
    ⟨by decide, 0x3F, rfl, .inl ⟨⟨_, rfl⟩, ⟨rfl, by decide⟩, rfl, by decide, rfl, rfl⟩⟩
  have hother : Program.ofSource "p.pas" source ≠ .error e := by
    intro herror
    have hcode : (((Program.ofSource "p.pas" source).map fun _ => Code.lexical).tryCatch
        fun d => .ok d.code).toOption = some .parsing := by decide +kernel
    rw [herror] at hcode
    cases hcode
  obtain ⟨offset, hoffset, hearlier, hviable⟩ :=
    earlier_error_is_reported "p.pas" source 0 e htokens
  cases (hoffset 43).mp hstands
  exact ⟨htokens, hstands, hearlier.resolve_left hother, fun hmore => hother (hviable.mpr hmore)⟩

end Program

end MiniPascal
