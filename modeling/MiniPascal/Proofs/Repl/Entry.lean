import MiniPascal.Proofs.Parser.Lookahead
import MiniPascal.Repl

/-!
# What counts as an entry

Collected lines become an entry when they are blank, when they are a command, or when more lines
could not help. A blank that is not made of gap bytes alone, and a command, are also no beginnings
of programs: the first byte behind the gap starts no token, or it is the colon. So the loop gives up
on a text only where no continuation is a program, white space apart.
-/
namespace MiniPascal

namespace Text

theorem pieces_cons (b : UInt8) (rest : Bytes) :
    pieces (b :: rest) = (firstPiece b rest).1 :: pieces (firstPiece b rest).2 := by
  rw [pieces]

theorem isValidChar_ascii {b : UInt8} (hb : b < 0x80) : b.toNat.isValidChar := by
  have hlt : b.toNat < 0x80 := UInt8.lt_iff_toNat_lt.mp hb
  exact .inl (by omega)

theorem firstPiece_ascii {b : UInt8} (hb : b < 0x80) (rest : Bytes) :
    firstPiece b rest = (.char (Char.ofNat b.toNat), rest) := by
  simp [firstPiece, lead?, hb, codeOf, isValidChar_ascii hb]

/-- A first byte outside ASCII announces a character outside ASCII. -/
theorem le_of_lead? {b : UInt8} {count bits least : Nat} (hb : ¬ b < 0x80)
    (h : lead? b = some (count, bits, least)) : 0x80 ≤ least := by
  unfold lead? at h
  rw [if_neg hb] at h
  repeat' split at h
  all_goals simp only [Option.some.injEq, Prod.mk.injEq, reduceCtorEq] at h
  all_goals omega

/-- Trimming keeps the first character that is not blank. -/
theorem head?_trim (text : List Piece) :
    (trim text).head? = (text.dropWhile Piece.isBlank).head? := by
  unfold trim
  cases h : text.dropWhile Piece.isBlank with
  | nil => rfl
  | cons p rest =>
    have hp : ¬ p.isBlank = true := by
      have := List.head?_dropWhile_not Piece.isBlank text
      rw [h] at this
      simpa using this
    rw [List.reverse_cons, List.dropWhile_append, List.dropWhile_cons_of_neg hp]
    split <;> simp

theorem isBlank_of_gap {b : UInt8} (hb : isGapByte b = true) (rest : Bytes) :
    (firstPiece b rest).1.isBlank = true ∧ (firstPiece b rest).2 = rest := by
  simp only [isGapByte, Bool.or_eq_true, beq_iff_eq] at hb
  rcases hb with ((rfl | rfl) | rfl) | rfl <;> exact ⟨rfl, rfl⟩

theorem dropWhile_pieces_gap {gap : Bytes} (h : ∀ b ∈ gap, isGapByte b = true) (rest : Bytes) :
    (pieces (gap ++ rest)).dropWhile Piece.isBlank = (pieces rest).dropWhile Piece.isBlank := by
  induction gap with
  | nil => rfl
  | cons b gap ih =>
    obtain ⟨hb, hgap⟩ := List.forall_mem_cons.mp h
    obtain ⟨hblank, hrest⟩ := isBlank_of_gap hb (gap ++ rest)
    rw [List.cons_append, pieces_cons, List.dropWhile_cons_of_pos hblank, hrest, ih hgap]

theorem startsNothing_of_not_ascii {b : UInt8} (hb : ¬ b < 0x80) : Cursor.StartsNothing b := by
  have hle {k : UInt8} (hk : k < 0x80) : ¬ b ≤ k := fun h => hb (UInt8.lt_of_le_of_lt h hk)
  have hne {k : UInt8} (hk : k < 0x80) : b ≠ k := fun h => hb (h ▸ hk)
  refine ⟨?_, hne (by decide), ?_, ?_⟩
  · unfold markOfByte?
    simp (disch := decide) only [hne, if_false]
  · simp (disch := decide) [isWordStart, isLetterByte, hle, hne]
  · simp (disch := decide) [isDigitByte, hle]

theorem toNat_ofNat {n : Nat} (h : n.isValidChar) : (Char.ofNat n).toNat = n := by
  unfold Char.ofNat
  rw [dif_pos h]
  rfl

theorem startsNothing_of_isBlank {b : UInt8} {rest : Bytes} (hb : isGapByte b = false)
    (h : (firstPiece b rest).1.isBlank = true) : Cursor.StartsNothing b := by
  by_cases hascii : b < 0x80
  · have hlt : b.toNat < 0x80 := UInt8.lt_iff_toNat_lt.mp hascii
    rw [firstPiece_ascii hascii] at h
    simp only [Piece.isBlank, Text.isBlank, toNat_ofNat (isValidChar_ascii hascii)] at h
    have hcases : b = 0x09 ∨ b = 0x0A ∨ b = 0x0B ∨ b = 0x0C ∨ b = 0x0D ∨ b = 0x20 := by
      simp only [← UInt8.toNat_inj]
      simp only [Bool.or_eq_true, Bool.and_eq_true, decide_eq_true_eq] at h
      simp
      omega
    rcases hcases with rfl | rfl | rfl | rfl | rfl | rfl
    · cases hb
    · cases hb
    · exact ⟨rfl, by decide, rfl, rfl⟩
    · exact ⟨rfl, by decide, rfl, rfl⟩
    · cases hb
    · cases hb
  · exact startsNothing_of_not_ascii hascii

theorem eq_colon_of_firstPiece {b : UInt8} {rest : Bytes} (h : (firstPiece b rest).1 = .char ':') :
    b = 0x3A := by
  have hchar {n : Nat} (hn : n.isValidChar) (h : Piece.char (Char.ofNat n) = .char ':') :
      n = 0x3A := by
    rw [← toNat_ofNat hn, Piece.char.inj h]
    rfl
  by_cases hascii : b < 0x80
  · rw [firstPiece_ascii hascii] at h
    exact UInt8.toNat_inj.mp (hchar (isValidChar_ascii hascii) h)
  · unfold firstPiece at h
    split at h
    · cases h
    · next hlead =>
      have hleast := le_of_lead? hascii hlead
      dsimp only at h
      split at h
      · next hvalid =>
        have hcode := hchar hvalid.2.2.2 h
        omega
      · cases h

end Text

theorem gap_of_forall {bytes : Bytes} (h : ∀ b ∈ bytes, isGapByte b = true) : Gap bytes := by
  induction bytes with
  | nil => exact .nil
  | cons b rest ih =>
    obtain ⟨hb, hrest⟩ := List.forall_mem_cons.mp h
    exact .blank hb (ih hrest)

theorem Diagnostic.isIncomplete_invalidCharacter (c : Char) (pos : Position) :
    Diagnostic.isIncomplete ⟨.invalidCharacter c, pos, none⟩ = false := by
  refine beq_eq_false_iff_ne.mpr fun h => ?_
  have hchars : "invalid character ".toList ++ (Text.quoteChar c).toList =
      "unterminated comment".toList := by
    rw [← String.toList_append]
    exact congrArg String.toList h
  have hhead : some 'i' = some 'u' := congrArg List.head? hchars
  exact absurd hhead (by decide)

theorem Diagnostic.isIncomplete_atToken_eq_false {t : Token} {cause : Cause}
    (ht : t.kind ≠ .endOfFile) (hcause : cause.code = .parsing) :
    (atToken t cause).isIncomplete = false := by
  simp [isIncomplete, code, atToken, hcause, ht]

namespace Program

theorem ofStream_of_head_error {s : TokenStream} {d : Diagnostic} (h : s.head = .error d) :
    Program.ofStream s = .error d := by
  have hpeek : Parser.peek s = .error d := by
    rw [Parser.peek, h]
    rfl
  exact Parser.runOn_eq_error.mpr (Parser.bind_of_error (Parser.bind_of_error hpeek))

theorem ofStream_of_head_ne {s : TokenStream} {t : Token} (h : s.head = .ok t)
    (ht : t.kind ≠ .programWord) :
    Program.ofStream s = .error (.atToken t (.unexpected t.described .programWord)) := by
  have hpeek : Parser.peek s = .ok (t, s) := Parser.peek_eq_ok.mpr ⟨h, rfl⟩
  have heat : Parser.eat .programWord s =
      .error (.atToken t (.unexpected t.described .programWord)) := by
    rw [Parser.eat, Parser.bind_of_ok hpeek, if_neg ht]
    rfl
  exact Parser.runOn_eq_error.mpr (Parser.bind_of_error heat)

/-- A text fails at its first byte that is no gap byte, if that byte starts no token or is a
colon. -/
theorem exists_error_at_front {gap rest : Bytes} {b : UInt8} (hgap : ∀ b ∈ gap, isGapByte b = true)
    (hb : IsSolid b) (hstart : Cursor.StartsNothing b ∨ b = 0x3A) (file : String) (index : Nat) :
    ∃ d, Program.ofSource file (gap ++ b :: rest) index = .error d ∧ d.isIncomplete = false := by
  let c := Cursor.ofSource file (gap ++ b :: rest) index
  rcases hstart with hnothing | rfl
  · have hreading := Cursor.Reading.invalid (c := c) (gap_of_forall hgap) rfl hb
      (hnothing.tokenAt?_eq rest)
    have hstream : TokenStream.ofSource file (gap ++ b :: rest) index = ⟨[], .failed _⟩ :=
      Cursor.stream_of_error hreading.next_eq
    have herror := ofStream_of_head_error (congrArg TokenStream.head hstream)
    exact ⟨_, herror, Diagnostic.isIncomplete_invalidCharacter _ _⟩
  · obtain ⟨kind, n, htoken, hprogram, heof⟩ : ∃ kind n,
        Cursor.tokenAt? 0x3A rest = some (kind, none, n) ∧ kind ≠ .programWord ∧
          kind ≠ .endOfFile := by
      by_cases hrest : rest.head? = some 0x3D
      · exact ⟨_, _, (Cursor.TokenAt.assign rfl hrest).tokenAt?_eq, by decide, by decide⟩
      · exact ⟨_, _, (Cursor.TokenAt.colon rfl hrest).tokenAt?_eq, by decide, by decide⟩
    have hreading := Cursor.Reading.token (c := c) (gap_of_forall hgap) rfl htoken
    have hstream : TokenStream.ofSource file (gap ++ 0x3A :: rest) index = ⟨_ :: _, _⟩ :=
      Cursor.stream_of_token hreading.next_eq heof
    have herror := ofStream_of_head_ne (congrArg TokenStream.head hstream) hprogram
    exact ⟨_, herror, Diagnostic.isIncomplete_atToken_eq_false heof rfl⟩

end Program

namespace Repl

theorem error_of_isBlank_or_isCommand {text : Bytes} (hgap : ¬ ∀ b ∈ text, isGapByte b = true)
    (h : isBlank text = true ∨ isCommand text = true) (file : String) (index : Nat) :
    ∃ d, Program.ofSource file text index = .error d ∧ d.isIncomplete = false := by
  have htext := List.takeWhile_append_dropWhile (p := isGapByte) (l := text)
  have hfront : ∀ b ∈ text.takeWhile isGapByte, isGapByte b = true :=
    fun b hb => List.all_eq_true.mp List.all_takeWhile b hb
  cases hrest : text.dropWhile isGapByte with
  | nil =>
    rw [hrest, List.append_nil] at htext
    rw [htext] at hfront
    exact absurd hfront hgap
  | cons b rest =>
    have hb : isGapByte b = false := by
      have := List.head?_dropWhile_not isGapByte text
      rw [hrest] at this
      simpa using this
    rw [hrest] at htext
    have hhead : (Text.trim (Text.pieces text)).head? =
        ((Text.pieces (b :: rest)).dropWhile Text.Piece.isBlank).head? := by
      rw [Text.head?_trim, ← htext, Text.dropWhile_pieces_gap hfront]
    rw [Text.pieces_cons] at hhead
    rw [← htext]
    by_cases hblank : (Text.firstPiece b rest).1.isBlank = true
    · have hopen : b ≠ 0x7B := by
        rintro rfl
        cases hblank
      exact Program.exists_error_at_front hfront ⟨hb, hopen⟩
        (.inl (Text.startsNothing_of_isBlank hb hblank)) file index
    · rw [List.dropWhile_cons_of_neg hblank, List.head?_cons] at hhead
      have hcommand : isCommand text = true := by
        rcases h with h | h
        · rw [isBlank, List.isEmpty_iff] at h
          rw [h] at hhead
          cases hhead
        · exact h
      rw [isCommand, hhead] at hcommand
      have hcolon := Text.eq_colon_of_firstPiece (Option.some.inj (of_decide_eq_true hcommand))
      have hsolid : IsSolid b := ⟨hb, by rw [hcolon]; decide⟩
      exact Program.exists_error_at_front hfront hsolid (.inr hcolon) file index

/-- An entry is white space, a program, or a text that no line can mend. -/
theorem isEntry_cases {text : Bytes} (h : isEntry text = true) :
    (∀ b ∈ text, isGapByte b = true) ∨ (∃ p, Program.ofSource fileName text = .ok p) ∨
      ∃ d, Program.ofSource fileName text = .error d ∧ d.isIncomplete = false := by
  by_cases hgap : ∀ b ∈ text, isGapByte b = true
  · exact .inl hgap
  · refine .inr ?_
    rw [isEntry, Bool.or_eq_true, Bool.or_eq_true] at h
    rcases h with h | h
    · exact .inr (error_of_isBlank_or_isCommand hgap h fileName 0)
    · rw [isUnfinished, Program.read_fst] at h
      cases hparse : Program.ofSource fileName text with
      | ok p => exact .inl ⟨p, rfl⟩
      | error d =>
        rw [hparse] at h
        exact .inr ⟨d, rfl, by simpa using h⟩

theorem isEntry_eq_false {text more : Bytes} {p : Program}
    (hp : Program.ofSource fileName (text ++ 0x0A :: more) = .ok p)
    (hsolid : ∃ b ∈ text, isGapByte b = false)
    (hnone : ∀ q, Program.ofSource fileName text ≠ .ok q) : isEntry text = false := by
  obtain ⟨b, hb, hsolid⟩ := hsolid
  refine Bool.eq_false_iff.mpr fun hentry => ?_
  rcases isEntry_cases hentry with hgap | ⟨q, hq⟩ | ⟨d, hd, hincomplete⟩
  · rw [hgap b hb] at hsolid
    cases hsolid
  · exact hnone q hq
  · cases (Program.ofSource_extend_of_error hd hincomplete rfl more).symm.trans hp

theorem feed_of_not_isEntry {r : Repl} {line : Bytes} (h : isEntry (r.extend line) = false) :
    r.feed line = ({ r with pending := r.extend line }, {}) := by
  rw [feed, h]
  rfl

/-- An error that is not about an early end stays in every continuation of the text. So the loop
goes on collecting lines as long as a continuation is a program, unless there is one already or
nothing but white space. -/
theorem definitive_errors_are_permanent :
    (∀ (file : String) (source : Bytes) (index : Nat) (d : Diagnostic),
      Program.ofSource file source index = .error d → d.isIncomplete = false →
        ∀ more, Program.ofSource file (source ++ 0x0A :: more) index = .error d) ∧
    (∀ (r : Repl) (line more : Bytes) (p : Program),
      Program.ofSource fileName (r.extend line ++ 0x0A :: more) = .ok p →
        (∃ b ∈ r.extend line, isGapByte b = false) →
        (∀ q, Program.ofSource fileName (r.extend line) ≠ .ok q) →
          r.feed line = ({ r with pending := r.extend line }, {})) := by
  constructor
  · intro file source index d h hd more
    exact Program.ofSource_extend_of_error h hd rfl more
  · intro r line more p hp hsolid hnone
    exact feed_of_not_isEntry (isEntry_eq_false hp hsolid hnone)

/-- A dot behind a number is not taken into the number by a digit on the next line, and an open
comment is no reason to give up. -/
theorem definitive_errors_are_permanent_dot :
    let bytes := fun text : String => text.toList.map fun c => c.toNat.toUInt8
    let source := bytes "program p; begin x := 1."
    let line := bytes "program p; begin \x7b"
    (∃ d, Program.ofSource fileName source = .error d ∧ d.isIncomplete = false ∧
      Program.ofSource fileName (source ++ 0x0A :: bytes "5 end.") = .error d) ∧
    (∃ p, Program.ofSource fileName (line ++ 0x0A :: bytes "\x7d end.") = .ok p) ∧
      feed { config := {} } line = ({ config := {}, pending := line }, {}) := by
  intro bytes source line
  constructor
  · have hwrong : (Program.ofSource fileName source).isOk = false := by
      decide +kernel
    have hfinished : isUnfinished source = false := by
      decide +kernel
    obtain ⟨d, hd⟩ := Program.exists_error hwrong
    rw [isUnfinished, Program.read_fst, hd] at hfinished
    exact ⟨d, hd, hfinished,
      definitive_errors_are_permanent.1 fileName source 0 d hd hfinished _⟩
  · have hwhole : (Program.ofSource fileName (line ++ 0x0A :: bytes "\x7d end.")).isOk = true := by
      decide +kernel
    have hline : (Program.ofSource fileName line).isOk = false := by
      decide +kernel
    obtain ⟨p, hp⟩ := Program.exists_ok hwhole
    refine ⟨⟨p, hp⟩, definitive_errors_are_permanent.2 { config := {} } line _ p hp
      ⟨0x70, by decide, rfl⟩ fun q hq => ?_⟩
    rw [show extend { config := {} } line = line from rfl] at hq
    rw [hq] at hline
    cases hline

end Repl

end MiniPascal
