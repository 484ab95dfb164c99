import MiniPascal.Proofs.Parser.Failure
import MiniPascal.Proofs.Token.Tiling

/-!
# Where comments end

A comment ends at its first closing brace, whatever stands before the brace, unless a zero byte
does. At a zero byte the text is taken to end, so a brace behind it closes nothing.

A text that ends inside a comment without a zero byte goes on behind a closing brace as if the
comment had never been, and if the comment was the only thing wrong it can be completed to a
program. With a zero byte in the comment the error stays in all continuations, though it is reported
as one that more text can mend.
-/
namespace MiniPascal

instance : DecidablePred IsInside := fun inside => List.decidableBAll _ inside

theorem Gap.append {front rest : Bytes} (hfront : Gap front) (hrest : Gap rest) :
    Gap (front ++ rest) := by
  induction hfront with
  | nil => exact hrest
  | blank hb _ ih => exact .blank hb ih
  | comment hinside _ ih =>
    rw [List.cons_append, List.append_assoc, List.cons_append]
    exact .comment hinside ih

theorem gap_comment {inside : Bytes} (h : IsInside inside) : Gap (0x7B :: (inside ++ [0x7D])) :=
  .comment h .nil

theorem IsInside.not_mem_zero {inside : Bytes} (h : IsInside inside) : 0 ∉ inside :=
  fun hmem => (h 0 hmem).2 rfl

/-- A text behind an opening brace that closes no comment: a zero byte comes before each closing
brace. -/
def IsOpen (text : Bytes) : Prop :=
  ∀ inside after, text = inside ++ 0x7D :: after → 0 ∈ inside

theorem exists_unclosed {text : Bytes} (h : IsOpen text) :
    ∃ inside tail, text = inside ++ tail ∧ IsInside inside ∧ IsUnclosed tail := by
  obtain ⟨inside, tail, htext, hinside, htail | ⟨after, rfl⟩⟩ := exists_inside text
  · exact ⟨inside, tail, htext, hinside, htail⟩
  · exact absurd (h inside after htext) hinside.not_mem_zero

theorem IsUnclosed.append {tail : Bytes} (h : IsUnclosed tail) (htail : tail ≠ []) (more : Bytes) :
    IsUnclosed (tail ++ more) := by
  cases tail with
  | nil => exact absurd rfl htail
  | cons b tail => exact h

theorem IsUnclosed.eq_nil {tail : Bytes} (h : IsUnclosed tail) (hzero : 0 ∉ tail) : tail = [] := by
  cases tail with
  | nil => rfl
  | cons b tail =>
    cases h b rfl
    exact absurd List.mem_cons_self hzero

namespace Cursor

variable {c c' : Cursor} {file : String} {front gap rest : Bytes} {tokens : List Token}
  {d : Diagnostic}

theorem delimits_brace : Delimits 0x7B := by decide

/-- Behind a comment that is closed, skipping goes on. -/
theorem StandsBehind.next_comment (h : c.StandsBehind file front) (hgap : Gap gap)
    (hrest : c.rest = gap ++ 0x7B :: rest) {inside after : Bytes} (hinside : IsInside inside)
    (hclosed : rest = inside ++ 0x7D :: after) :
    c.next = next
      ⟨after, .behind file (front ++ gap ++ 0x7B :: (inside ++ [0x7D])), c.index⟩ := by
  have hsplit : c.rest = gap ++ 0x7B :: (inside ++ [0x7D]) ++ after := by
    rw [hrest, hclosed]
    simp
  have hnext : c.next = next ⟨after, c.pos.advanceBy (gap ++ 0x7B :: (inside ++ [0x7D])),
      c.index⟩ := by
    rw [← next_gap (hgap.append (gap_comment hinside)), ← hsplit]
  rw [hnext, h.advanceBy, List.append_assoc]

/-- A comment that is not closed is an error at its brace. -/
theorem StandsBehind.next_open (h : c.StandsBehind file front) (hgap : Gap gap)
    (hrest : c.rest = gap ++ 0x7B :: rest) (hopen : IsOpen rest) :
    c.next.1 = .error ⟨.unterminatedComment, .behind file (front ++ gap), none⟩ := by
  obtain ⟨inside, tail, htext, hinside, htail⟩ := exists_unclosed hopen
  rw [htext] at hrest
  rw [(Reading.unclosed hgap hrest hinside htail).next_eq, h.advanceBy]

theorem stream_open {inside tail : Bytes} (hinside : IsInside inside) (htail : IsUnclosed tail)
    (pos : Position) (index : Nat) :
    stream ⟨0x7B :: (inside ++ tail), pos, index⟩ =
      ⟨[], .failed ⟨.unterminatedComment, pos, none⟩⟩ :=
  stream_of_error (Reading.unclosed .nil rfl hinside htail).next_eq

/-- Where reading stops at a comment, the text can be cut behind the brace and continued. -/
theorem exists_cut_of_unterminated (h : c.stream.stop = .failed d)
    (hd : d.cause = .unterminatedComment) :
    ∃ before inside tail, c.rest = before ++ 0x7B :: (inside ++ tail) ∧
      d = ⟨.unterminatedComment, c.pos.advanceBy before, none⟩ ∧
      IsInside inside ∧ IsUnclosed tail ∧
      ∀ text, let s := stream ⟨0x7B :: text, d.pos, c.index + c.stream.tokens.length⟩
        stream { c with rest := before ++ 0x7B :: text } =
          ⟨c.stream.tokens ++ s.tokens, s.stop⟩ := by
  obtain ⟨c', hreads, hstream⟩ := exists_readsTo (List.append_nil c.stream.tokens).symm
  rw [h] at hstream
  obtain ⟨c₁, hnext⟩ := next_of_failed hstream
  have hreading := reading_next c'
  rw [hnext] at hreading
  cases hreading with
  | invalid => cases hd
  | @unclosed gap inside tail hgap hrest hinside htail =>
    obtain ⟨before, hsource, hpos, hcut⟩ := hreads.exists_cut hgap hrest
    exact ⟨before, inside, tail, hsource, by rw [← hpos], hinside, htail, fun text =>
      hcut text delimits_brace⟩

end Cursor

namespace Program

open Grammar

variable {file : String} {source : Bytes} {index : Nat} {d : Diagnostic}

/-- If a text is refused for an open comment, all its tokens are the front of a program. -/
theorem completable_of_unterminated (h : Program.ofSource file source index = .error d)
    (hd : d.cause = .unterminatedComment) :
    (TokenStream.ofSource file source index).stop = .failed d ∧
      Completable fun back =>
        (phrases .program).Mem ((TokenStream.ofSource file source index).tokens ++ back) := by
  obtain ⟨front, rest, hsplit, hat, hfront, _⟩ :=
    exists_failure h [] (TokenStream.ofSource file source index).stop
  rcases hat with hhead | ⟨t, cause, _, hcause, rfl⟩
  · obtain ⟨rfl, hstop⟩ := Parser.head_eq_error hhead
    rw [List.append_nil] at hsplit
    rw [hsplit]
    exact ⟨hstop, hfront⟩
  · rw [show cause = _ from hd] at hcause
    cases hcause

/-- A text is refused for an open comment. If there is no zero byte in the comment, it can be
completed to a program by a closing brace and more; if there is one, the error stays. -/
theorem completion_of_unterminated (h : Program.ofSource file source index = .error d)
    (hd : d.cause = .unterminatedComment) :
    ∃ before rest, source = before ++ 0x7B :: rest ∧ d.pos = .behind file before ∧
      (0 ∉ rest → ∃ more p, Program.ofSource file (source ++ 0x7D :: more) index = .ok p) ∧
      (0 ∈ rest → ∀ more, Program.ofSource file (source ++ more) index = .error d) := by
  obtain ⟨hstop, hfront⟩ := completable_of_unterminated h hd
  obtain ⟨before, inside, tail, hsource, hdiagnostic, hinside, htail, hcut⟩ :=
    Cursor.exists_cut_of_unterminated hstop hd
  replace hsource : source = before ++ 0x7B :: (inside ++ tail) := hsource
  have hstands := Cursor.standsBehind_ofSource file source index
  refine ⟨before, inside ++ tail, hsource, ?_, fun hzero => ?_, fun hzero more => ?_⟩
  · rw [hdiagnostic]
    exact hstands.advanceBy before
  · -- the brace closes the comment, and then the text goes on behind a gap byte
    cases htail.eq_nil fun hmem => hzero (List.mem_append_right _ hmem)
    rw [List.append_nil] at hsource
    have hclosed : ∀ (more : Bytes) {g : UInt8}, isGapByte g = true →
        let s := Cursor.stream ⟨g :: more, d.pos.advanceBy (0x7B :: (inside ++ [0x7D])),
          index + (TokenStream.ofSource file source index).tokens.length⟩
        TokenStream.ofSource file (source ++ [0x7D] ++ g :: more) index =
          ⟨(TokenStream.ofSource file source index).tokens ++ s.tokens, s.stop⟩ := by
      intro more g _
      have htext : source ++ [0x7D] ++ g :: more =
          before ++ (0x7B :: (inside ++ [0x7D]) ++ g :: more) := by
        rw [hsource]
        simp
      rw [htext, ← Cursor.stream_gap (gap_comment hinside)]
      exact hcut (inside ++ [0x7D] ++ g :: more)
    obtain ⟨more, p, hp⟩ := exists_ofSource_of_completable hclosed hfront
    rw [List.append_assoc] at hp
    exact ⟨0x0A :: more, p, hp⟩
  · -- the zero byte comes first in all that follows the comment
    have hnil : tail ≠ [] := by
      rintro rfl
      rw [List.append_nil] at hzero
      exact hinside.not_mem_zero hzero
    have hopen (text : Bytes) (htext : IsUnclosed text) :
        TokenStream.ofSource file (before ++ 0x7B :: (inside ++ text)) index =
          ⟨(TokenStream.ofSource file source index).tokens, .failed d⟩ := by
      refine (hcut (inside ++ text)).trans ?_
      rw [Cursor.stream_open hinside htext, hdiagnostic]
      exact congrArg (TokenStream.mk · _) (List.append_nil _)
    have hsame : TokenStream.ofSource file (source ++ more) index =
        TokenStream.ofSource file source index := by
      rw [hsource, List.append_assoc, List.cons_append, List.append_assoc,
        hopen _ (htail.append hnil more), ← hsource, ← hstop]
    rw [Program.ofSource, hsame]
    exact h

/-- A comment ends at its first closing brace if no zero byte comes before it, and reading goes on
right behind that brace; otherwise it is an error at its opening brace. Such an error can be mended
by more text if there is no zero byte behind the opening brace, and only then. -/
theorem comments_end_unless_a_zero_hides_the_brace (file : String) :
    (∀ (c : Cursor) (front gap rest : Bytes), c.StandsBehind file front → Gap gap →
      c.rest = gap ++ 0x7B :: rest →
        (∀ inside after, IsInside inside → rest = inside ++ 0x7D :: after →
          c.next = Cursor.next
            ⟨after, .behind file (front ++ gap ++ 0x7B :: (inside ++ [0x7D])), c.index⟩) ∧
        (IsOpen rest →
          c.next.1 = .error ⟨.unterminatedComment, .behind file (front ++ gap), none⟩)) ∧
    ∀ (source : Bytes) (index : Nat) (d : Diagnostic),
      Program.ofSource file source index = .error d → d.cause = .unterminatedComment →
        ∃ before rest, source = before ++ 0x7B :: rest ∧ d.pos = .behind file before ∧
          (0 ∉ rest → ∃ more p, Program.ofSource file (source ++ 0x7D :: more) index = .ok p) ∧
          (0 ∈ rest → ∀ more, Program.ofSource file (source ++ more) index = .error d) := by
  refine ⟨fun c front gap rest h hgap hrest => ⟨fun inside after hinside hclosed => ?_,
    h.next_open hgap hrest⟩, fun source index d => completion_of_unterminated⟩
  exact h.next_comment hgap hrest hinside hclosed

/-- Behind a comment with a brace in it comes a number, and an open comment in a block is closed so
that the block can end. -/
theorem comments_end_unless_a_zero_hides_the_brace_block :
    let bytes := fun text : String => text.toList.map fun c => c.toNat.toUInt8
    let source := bytes "program p; begin \x7b x := 1"
    Cursor.next (.ofSource "p.pas" (bytes " \x7ba\x7bb\x7d7")) =
      Cursor.next ⟨bytes "7", .behind "p.pas" (bytes " \x7ba\x7bb\x7d"), 0⟩ ∧
    (∃ d, Program.ofSource "p.pas" source = .error d ∧ d.isIncomplete = true) ∧
    ∃ more p, Program.ofSource "p.pas" (source ++ 0x7D :: more) = .ok p := by
  intro bytes source
  obtain ⟨hnext, hcompletion⟩ := comments_end_unless_a_zero_hides_the_brace "p.pas"
  constructor
  · exact (hnext (.ofSource "p.pas" (bytes " \x7ba\x7bb\x7d7")) [] (bytes " ")
      (bytes "a\x7bb\x7d7") rfl (.blank rfl .nil) rfl).1 (bytes "a\x7bb") (bytes "7")
      (by decide) rfl
  · have hcause : ((Program.ofSource "p.pas" source).map fun _ => Cause.divisionByZero).tryCatch
        (fun d => .ok d.cause) = .ok .unterminatedComment := by
      decide +kernel
    cases herror : Program.ofSource "p.pas" source with
    | ok p =>
      rw [herror] at hcause
      cases hcause
    | error d =>
      rw [herror] at hcause
      have hd : d.cause = .unterminatedComment := Except.ok.inj hcause
      obtain ⟨before, rest, hsource, _, hmended, _⟩ := hcompletion source 0 d herror hd
      refine ⟨⟨d, rfl, Diagnostic.isIncomplete_of_unterminated hd⟩, hmended fun hzero => ?_⟩
      have hmem : 0 ∈ source := by
        rw [hsource]
        exact List.mem_append_right _ (List.mem_cons_of_mem _ hzero)
      exact absurd hmem (by decide)

/-- There is a closing brace, and behind it the text ends, but a zero byte hides the brace: the
comment is taken to be open, and no text mends this. -/
theorem zero_hides_the_brace :
    let source : Bytes := [0x7B, 0, 0x7D]
    let d : Diagnostic := ⟨.unterminatedComment, .start "test.pas", none⟩
    (Cursor.ofSource "test.pas" source).next.1 = .error d ∧
      (Cursor.next ⟨[], .behind "test.pas" source, 0⟩).1 =
        .ok { kind := .endOfFile, pos := .behind "test.pas" source } ∧
      d.isIncomplete = true ∧
      ∀ more, Program.ofSource "test.pas" (source ++ more) = .error d := by
  intro source d
  refine ⟨rfl, rfl, rfl, fun more => ?_⟩
  have hunclosed : IsUnclosed (0 :: 0x7D :: more) := by
    intro b hb
    cases hb
    rfl
  have hstream : TokenStream.ofSource "test.pas" (source ++ more) = ⟨[], .failed d⟩ :=
    Cursor.stream_open .nil hunclosed (.start "test.pas") 0
  rw [Program.ofSource, hstream]
  rfl

end Program

end MiniPascal
