import Mathlib.Data.List.DropRight
import MiniPascal.Proofs.Token.Writing

/-!
# Texts as tokens and gaps

A text that can be read is a row of tiles: a gap and the bytes of a token, then the next gap and the
next token, and a last gap before the end of the file. No byte is left out, and the bytes of a token
are its spelling and no shorter than they can be.

Every token and every lexical error stands at the line and the column of its first byte, which
depend only on the bytes before it. This holds on after a failure, too.
-/
namespace MiniPascal

/-- The position of a byte from the bytes before it: lines are counted by line feeds, and columns by
the bytes since the last one. -/
def Position.behind (file : String) (front : Bytes) : Position :=
  { file, line := 1 + front.count 0x0A, column := 1 + (front.rtakeWhile (· != 0x0A)).length }

theorem Position.behind_concat (file : String) (front : Bytes) (b : UInt8) :
    behind file (front ++ [b]) = (behind file front).advance b := by
  unfold behind advance
  rw [List.rtakeWhile_concat, List.count_append]
  by_cases hb : b = 0x0A
  · rw [if_pos hb, hb]
    simp [Int.add_assoc]
  · simp [hb, Int.add_assoc]

/-- Counting as one goes along gives the position. -/
theorem Position.advanceBy_behind (file : String) (front bytes : Bytes) :
    (behind file front).advanceBy bytes = behind file (front ++ bytes) := by
  induction bytes generalizing front with
  | nil => rw [advanceBy_nil, List.append_nil]
  | cons b bytes ih =>
    rw [advanceBy_cons, ← behind_concat, ih, List.append_assoc, List.singleton_append]

/-! ### The bytes of a token -/

def IsRun (p : UInt8 → Bool) (bytes : Bytes) : Prop := bytes ≠ [] ∧ ∀ x ∈ bytes, p x = true

def EndsRun (p : UInt8 → Bool) (after : Bytes) : Prop := ∀ x, after.head? = some x → p x = false

theorem takeWhile_run (p : UInt8 → Bool) (bytes : Bytes) :
    ∃ after, bytes = bytes.takeWhile p ++ after ∧ (∀ x ∈ bytes.takeWhile p, p x = true) ∧
      EndsRun p after := by
  refine ⟨bytes.dropWhile p, List.takeWhile_append_dropWhile.symm,
    List.all_eq_true.mp List.all_takeWhile, fun x hx => ?_⟩
  have hnot := List.head?_dropWhile_not p bytes
  rw [hx] at hnot
  exact hnot

def upperByte (b : UInt8) : UInt8 :=
  if 0x61 ≤ b ∧ b ≤ 0x7A then b - 0x20 else b

/-- How a token is spelled before the rest of a text. -/
structure Token.ReadFrom (t : Token) (spelled after : Bytes) : Prop where
  nonempty : spelled ≠ []
  keyword : t.kind.isKeyword = true → spelled.map upperByte = Text.encode t.text
  spelling : t.kind.isKeyword = false → spelled = Text.encode t.text
  /-- A name is as long as it can be, and so is a keyword. -/
  word : t.kind = .identifier ∨ t.kind.isKeyword = true →
    IsRun isWordByte spelled ∧ EndsRun isWordByte after
  /-- A number without a fraction is not followed by one. -/
  integer : t.kind = .integerConst →
    IsRun isDigitByte spelled ∧ EndsRun isDigitByte after ∧
      ∀ d more, after = 0x2E :: d :: more → isDigitByte d = false
  real : t.kind = .realConst →
    (∃ whole fraction, spelled = whole ++ 0x2E :: fraction ∧ IsRun isDigitByte whole ∧
      IsRun isDigitByte fraction) ∧ EndsRun isDigitByte after

namespace Token

theorem readFrom_mark {t : Token} {spelled after : Bytes}
    (hkind : t.kind ∈ Kind.marks ++ [.colon, .assign])
    (hspelled : spelled = t.kind.text.toList.flatMap String.utf8EncodeChar) :
    t.ReadFrom spelled after := by
  have hall : ∀ k ∈ Kind.marks ++ [.colon, .assign], k ∈ Kind.fixed ∧ k.isKeyword = false ∧
      k ≠ .identifier ∧ k ≠ .integerConst ∧ k ≠ .realConst ∧
      k.text.toList.flatMap String.utf8EncodeChar ≠ [] := by
    decide +kernel
  obtain ⟨hfixed, hkeyword, hidentifier, hinteger, hreal, hnonempty⟩ := hall _ hkind
  refine ⟨hspelled ▸ hnonempty, fun h => ?_, fun _ => ?_, fun h => ?_, fun h => ?_, fun h => ?_⟩
  · rw [hkeyword] at h
    cases h
  · rw [text_of_fixed hfixed, Text.encode_eq, hspelled]
  · rcases h with h | h
    · exact absurd h hidentifier
    · rw [hkeyword] at h
      cases h
  · exact absurd h hinteger
  · exact absurd h hreal

theorem readFrom_integer {t : Token} {spelled after : Bytes} (hkind : t.kind = .integerConst)
    (hlexeme : t.lexeme = some (asciiText spelled)) (hspelled : IsRun isDigitByte spelled)
    (hafter : EndsRun isDigitByte after)
    (hfraction : ∀ d more, after = 0x2E :: d :: more → isDigitByte d = false) :
    t.ReadFrom spelled after := by
  refine ⟨hspelled.1, fun h => ?_, fun _ => ?_, fun h => ?_,
    fun _ => ⟨hspelled, hafter, hfraction⟩, fun h => ?_⟩
  · rw [hkind] at h
    cases h
  · simp only [Token.text, hkind, lexemeText, hlexeme, Option.getD_some]
    exact (Text.encode_asciiText fun x hx => Cursor.lt_of_isDigitByte (hspelled.2 x hx)).symm
  · rw [hkind] at h
    rcases h with h | h <;> cases h
  · rw [hkind] at h
    cases h

theorem readFrom_real {t : Token} {whole fraction after : Bytes} (hkind : t.kind = .realConst)
    (hlexeme : t.lexeme = some (asciiText (whole ++ 0x2E :: fraction)))
    (hwhole : IsRun isDigitByte whole) (hfraction : IsRun isDigitByte fraction)
    (hafter : EndsRun isDigitByte after) : t.ReadFrom (whole ++ 0x2E :: fraction) after := by
  have hascii : ∀ x ∈ whole ++ 0x2E :: fraction, x < 0x80 := by
    intro x hx
    rcases List.mem_append.mp hx with hx | hx
    · exact Cursor.lt_of_isDigitByte (hwhole.2 x hx)
    rcases List.mem_cons.mp hx with rfl | hx
    · decide
    · exact Cursor.lt_of_isDigitByte (hfraction.2 x hx)
  refine ⟨List.append_ne_nil_of_right_ne_nil _ (List.cons_ne_nil _ _), fun h => ?_, fun _ => ?_,
    fun h => ?_, fun h => ?_, fun _ => ⟨⟨whole, fraction, rfl, hwhole, hfraction⟩, hafter⟩⟩
  · rw [hkind] at h
    cases h
  · simp only [Token.text, hkind, lexemeText, hlexeme, Option.getD_some]
    exact (Text.encode_asciiText hascii).symm
  · rw [hkind] at h
    rcases h with h | h <;> cases h
  · rw [hkind] at h
    cases h

theorem upperByte_eq {b : UInt8} (hb : b < 0x80) :
    Text.toUpper (Char.ofNat b.toNat) = Char.ofNat (upperByte b).toNat ∧ upperByte b < 0x80 := by
  have hall : ∀ n < 0x80, Text.toUpper (Char.ofNat n) = Char.ofNat (upperByte n.toUInt8).toNat ∧
      upperByte n.toUInt8 < 0x80 := by
    decide +kernel
  have hb' := hall b.toNat (UInt8.lt_iff_toNat_lt.mp hb)
  rwa [Nat.toUInt8_eq, UInt8.ofNat_toNat] at hb'

/-- A word in any letter case is a keyword if its upper case spells one. -/
theorem encode_text_of_ofWord? {word : Bytes} {k : Kind} (hascii : ∀ x ∈ word, x < 0x80)
    (h : Kind.ofWord? (asciiText word) = some k) :
    word.map upperByte = Text.encode k.text := by
  have htext : k.text = String.ofList ((asciiText word).toList.map Text.toUpper) := by
    unfold Kind.ofWord? at h
    have hfound := List.find?_some h
    exact eq_of_beq hfound
  have hupper : String.ofList ((asciiText word).toList.map Text.toUpper) =
      asciiText (word.map upperByte) := by
    rw [asciiText, asciiText, String.toList_ofList, List.map_map, List.map_map]
    exact congrArg String.ofList
      (List.map_congr_left fun x hx => (upperByte_eq (hascii x hx)).1)
  rw [htext, hupper, Text.encode_asciiText]
  exact List.forall_mem_map.mpr fun x hx => (upperByte_eq (hascii x hx)).2

theorem readFrom_word {t : Token} {word after : Bytes} (hword : IsRun isWordByte word)
    (hafter : EndsRun isWordByte after) (hkind : t.kind = Cursor.kindOfWord (asciiText word))
    (hlexeme : t.lexeme = some (asciiText word)) : t.ReadFrom word after := by
  have hascii : ∀ x ∈ word, x < 0x80 := fun x hx => Cursor.lt_of_isWordByte (hword.2 x hx)
  have hspelling : (t.kind.isKeyword = true ∧ word.map upperByte = Text.encode t.text) ∨
      (t.kind = .identifier ∧ word = Text.encode t.text) := by
    cases hfound : Kind.ofWord? (asciiText word) with
    | some k =>
      have hk : t.kind = k := by rw [hkind, Cursor.kindOfWord, hfound]; rfl
      have hmem : k ∈ Kind.keywords := List.mem_of_find?_eq_some hfound
      have hfixed : t.kind ∈ Kind.fixed :=
        hk ▸ List.mem_append_left _ (List.mem_append_left _ hmem)
      refine .inl ⟨hk ▸ List.contains_iff_mem.mpr hmem, ?_⟩
      rw [text_of_fixed hfixed, hk, encode_text_of_ofWord? hascii hfound]
    | none =>
      have hk : t.kind = .identifier := by rw [hkind, Cursor.kindOfWord, hfound]; rfl
      refine .inr ⟨hk, ?_⟩
      simp only [Token.text, hk, lexemeText, hlexeme, Option.getD_some,
        Text.encode_asciiText hascii]
  have hliteral : t.kind.isLiteral = false := by
    rcases hspelling with ⟨hkeyword, _⟩ | ⟨hk, _⟩
    · have hall : ∀ k ∈ Kind.keywords, k.isLiteral = false := by decide
      exact hall _ (List.contains_iff_mem.mp hkeyword)
    · rw [hk]
      rfl
  refine ⟨hword.1, fun h => ?_, fun h => ?_, fun _ => ⟨hword, hafter⟩, fun h => ?_, fun h => ?_⟩
  · rcases hspelling with ⟨_, hspelled⟩ | ⟨hk, _⟩
    · exact hspelled
    · rw [hk] at h
      cases h
  · rcases hspelling with ⟨hkeyword, _⟩ | ⟨_, hspelled⟩
    · rw [h] at hkeyword
      cases hkeyword
    · exact hspelled
  · rw [h] at hliteral
    cases hliteral
  · rw [h] at hliteral
    cases hliteral

end Token

namespace Cursor

theorem isRun_takeWhile {p : UInt8 → Bool} {b : UInt8} (hb : p b = true) (rest : Bytes) :
    IsRun p ((b :: rest).takeWhile p) := by
  refine ⟨?_, List.all_eq_true.mp List.all_takeWhile⟩
  rw [List.takeWhile_cons_of_pos hb]
  exact List.cons_ne_nil _ _

/-- A number is a run of digits and, where a dot and a digit follow, the dot and another run. -/
theorem numberAt_cases {b : UInt8} (hb : isDigitByte b = true) (rest : Bytes) :
    ∃ whole back, b :: rest = whole ++ back ∧ IsRun isDigitByte whole ∧
      EndsRun isDigitByte back ∧
      ((∃ fraction after, back = 0x2E :: fraction ++ after ∧ IsRun isDigitByte fraction ∧
          EndsRun isDigitByte after ∧
          numberAt (b :: rest) = (.realConst, (whole ++ 0x2E :: fraction).length)) ∨
        (∀ d more, back = 0x2E :: d :: more → isDigitByte d = false) ∧
          numberAt (b :: rest) = (.integerConst, whole.length)) := by
  have hrun := isRun_takeWhile hb rest
  obtain ⟨back, hbytes, _, hback⟩ := takeWhile_run isDigitByte (b :: rest)
  have hnumber := numberAt_eq (b :: rest)
  dsimp only at hnumber
  generalize (b :: rest).takeWhile isDigitByte = whole at hbytes hrun hnumber
  have hdrop : (b :: rest).drop whole.length = back := by rw [hbytes, List.drop_left]
  rw [hdrop] at hnumber
  refine ⟨whole, back, hbytes, hrun, hback, ?_⟩
  by_cases hfraction : ∃ d more, back = 0x2E :: d :: more ∧ isDigitByte d = true
  · obtain ⟨d, more, hmore, hd⟩ := hfraction
    obtain ⟨after, hdigits, _, hafter⟩ := takeWhile_run isDigitByte (d :: more)
    refine .inl ⟨_, after, ?_, isRun_takeWhile hd more, hafter, ?_⟩
    · rw [hmore, List.cons_append, ← hdigits]
    · have hlength : fractionLength back =
          (0x2E :: (d :: more).takeWhile isDigitByte).length := by
        rw [hmore, fractionLength, if_pos ⟨rfl, hd⟩, List.length_cons, Nat.add_comm]
      rw [hnumber, hlength, List.length_append]
      rfl
  · have hnone : ∀ d more, back = 0x2E :: d :: more → isDigitByte d = false := fun d more h =>
      Bool.eq_false_iff.mpr fun hd => hfraction ⟨d, more, h, hd⟩
    have hzero : fractionLength back = 0 := by
      unfold fractionLength
      split
      · next dot d more =>
        refine if_neg fun h => ?_
        rw [hnone d more (by rw [h.1])] at h
        cases h.2
      · rfl
    refine .inr ⟨hnone, ?_⟩
    rw [hnumber, hzero]
    rfl

theorem text_of_markOfByte? {b : UInt8} {kind : Kind} (h : markOfByte? b = some kind) :
    kind.text.toList.flatMap String.utf8EncodeChar = [b] := by
  unfold markOfByte? at h
  repeat' split at h
  all_goals cases h
  all_goals subst b; rfl

/-- The bytes of a token, and what stands behind them. -/
theorem readFrom_of_tokenAt? {t : Token} {b : UInt8} {rest : Bytes} {n : Nat}
    (h : tokenAt? b rest = some (t.kind, t.lexeme, n)) :
    t.ReadFrom ((b :: rest).take n) ((b :: rest).drop n) := by
  generalize hkind : t.kind = kind at h
  generalize hlexeme : t.lexeme = lexeme at h
  cases tokenAt?_eq_some.mp h with
  | mark hmark =>
    refine Token.readFrom_mark ?_ ?_
    · rw [hkind]
      exact List.mem_append_left _ (mem_of_markOfByte? hmark)
    · rw [hkind, text_of_markOfByte? hmark]
      rfl
  | assign hb hrest =>
    refine Token.readFrom_mark (by rw [hkind]; decide) ?_
    obtain ⟨more, rfl⟩ := List.head?_eq_some_iff.mp hrest
    rw [hb, hkind]
    rfl
  | colon hb hrest =>
    refine Token.readFrom_mark (by rw [hkind]; decide) ?_
    rw [hb, hkind]
    rfl
  | @word word hmark hcolon hb hword =>
    have hb' : isWordByte b = true := Bool.or_eq_true_iff.mpr (.inl hb)
    obtain ⟨after, hafter, _, hends⟩ := takeWhile_run isWordByte (b :: rest)
    have hrun := isRun_takeWhile hb' rest
    rw [List.takeWhile_cons_of_pos hb', ← hword] at hafter hrun
    rw [hafter, List.take_left, List.drop_left]
    exact Token.readFrom_word hrun hends hkind hlexeme
  | number hmark hcolon hword hb hnumber =>
    obtain ⟨whole, back, hbytes, hwhole, hback, hcases⟩ := numberAt_cases hb rest
    rw [hbytes] at hlexeme ⊢
    rcases hcases with ⟨fraction, after, rfl, hfraction, hafter, hreal⟩ | ⟨hnone, hinteger⟩
    · obtain ⟨rfl, rfl⟩ := Prod.mk.inj (hnumber.symm.trans hreal)
      rw [← List.append_assoc, List.take_left] at hlexeme
      rw [← List.append_assoc, List.take_left, List.drop_left]
      exact Token.readFrom_real hkind hlexeme hwhole hfraction hafter
    · obtain ⟨rfl, rfl⟩ := Prod.mk.inj (hnumber.symm.trans hinteger)
      rw [List.take_left] at hlexeme ⊢
      rw [List.drop_left]
      exact Token.readFrom_integer hkind hlexeme hwhole hback hnone

end Cursor

/-! ### Where tokens and errors stand -/

inductive AtFirstByte (file : String) (source : Bytes) : Except Diagnostic Token → Prop
  | token {t : Token} {before spelled after : Bytes} (hsource : source = before ++ spelled ++ after)
      (hread : t.ReadFrom spelled after) (hpos : t.pos = .behind file before) :
      AtFirstByte file source (.ok t)
  | endOfFile {t : Token} (hkind : t.kind = .endOfFile) (hpos : t.pos = .behind file source) :
      AtFirstByte file source (.ok t)
  | comment {d : Diagnostic} {before inside tail : Bytes}
      (hsource : source = before ++ 0x7B :: (inside ++ tail)) (hinside : IsInside inside)
      (htail : IsUnclosed tail) (hcause : d.cause = .unterminatedComment)
      (hpos : d.pos = .behind file before) : AtFirstByte file source (.error d)
  | character {d : Diagnostic} {before rest : Bytes} {b : UInt8}
      (hsource : source = before ++ b :: rest) (hb : IsSolid b ∧ Cursor.StartsNothing b)
      (hcause : d.cause = .invalidCharacter (Text.firstPiece b rest).1.toChar)
      (hpos : d.pos = .behind file before) : AtFirstByte file source (.error d)

namespace Cursor

variable {c c' : Cursor} {file : String} {front : Bytes} {t : Token}

def StandsBehind (c : Cursor) (file : String) (front : Bytes) : Prop :=
  c.pos = .behind file front

theorem StandsBehind.advanceBy (h : c.StandsBehind file front) (bytes : Bytes) :
    c.pos.advanceBy bytes = .behind file (front ++ bytes) := by
  rw [show c.pos = _ from h, Position.advanceBy_behind]

/-- Reading a token passes over a gap and the bytes of the token. -/
theorem StandsBehind.next_token (h : c.StandsBehind file front) (hnext : c.next = (.ok t, c'))
    (hkind : t.kind ≠ .endOfFile) :
    ∃ gap spelled, c.rest = gap ++ spelled ++ c'.rest ∧ Gap gap ∧ t.ReadFrom spelled c'.rest ∧
      t.pos = .behind file (front ++ gap) ∧ c'.StandsBehind file (front ++ (gap ++ spelled)) := by
  have hreading := reading_next c
  rw [hnext] at hreading
  cases hreading with
  | endOfFile => exact absurd rfl hkind
  | @token gap b rest kind lexeme length hgap hrest htoken =>
    refine ⟨gap, (b :: rest).take length, ?_, hgap, readFrom_of_tokenAt? htoken,
      h.advanceBy gap, ?_⟩
    · rw [hrest, afterToken, List.append_assoc, List.take_append_drop]
    · rw [← List.append_assoc, StandsBehind, afterToken, h.advanceBy, Position.advanceBy_behind]

theorem StandsBehind.next_endOfFile (h : c.StandsBehind file front)
    (hnext : c.next = (.ok t, c')) (hkind : t.kind = .endOfFile) :
    Gap c.rest ∧ t.pos = .behind file (front ++ c.rest) ∧
      c'.rest = [] ∧ c'.StandsBehind file (front ++ c.rest) := by
  have hreading := reading_next c
  rw [hnext] at hreading
  cases hreading with
  | endOfFile hgap => exact ⟨hgap, h.advanceBy _, rfl, h.advanceBy _⟩
  | token hgap hrest htoken => exact absurd hkind (tokenAt?_kind_ne htoken)

theorem StandsBehind.next_error {d : Diagnostic} (h : c.StandsBehind file front)
    (hnext : c.next = (.error d, c')) :
    AtFirstByte file (front ++ c.rest) (.error d) ∧
      ∃ skipped, c.rest = skipped ++ c'.rest ∧ c'.StandsBehind file (front ++ skipped) := by
  have hreading := reading_next c
  rw [hnext] at hreading
  cases hreading with
  | @invalid gap b rest hgap hrest hb htoken =>
    have hsource : front ++ c.rest = (front ++ gap) ++ b :: rest := by
      rw [hrest, List.append_assoc]
    exact ⟨.character hsource ⟨hb, tokenAt?_eq_none.mp htoken⟩ rfl (h.advanceBy gap), gap, hrest,
      h.advanceBy gap⟩
  | @unclosed gap inside tail hgap hrest hinside htail =>
    have hsource : front ++ c.rest = (front ++ gap) ++ 0x7B :: (inside ++ tail) := by
      rw [hrest, List.append_assoc]
    refine ⟨.comment hsource hinside htail rfl (h.advanceBy gap), gap ++ 0x7B :: inside, ?_,
      h.advanceBy _⟩
    rw [hrest, List.append_assoc, List.cons_append]

/-- Whatever an attempt answers stands where it should, and the cursor stays within the source. -/
theorem StandsBehind.next_atFirstByte (h : c.StandsBehind file front) :
    AtFirstByte file (front ++ c.rest) c.next.1 ∧
      ∃ skipped, c.rest = skipped ++ c.next.2.rest ∧
        c.next.2.StandsBehind file (front ++ skipped) := by
  rcases hnext : c.next with ⟨d | t, c'⟩
  · exact h.next_error hnext
  · by_cases hkind : t.kind = .endOfFile
    · obtain ⟨_, hpos, hrest, hstands⟩ := h.next_endOfFile hnext hkind
      exact ⟨.endOfFile hkind hpos, c.rest, by rw [hrest, List.append_nil], hstands⟩
    · obtain ⟨gap, spelled, hrest, _, hread, hpos, hstands⟩ := h.next_token hnext hkind
      refine ⟨.token ?_ hread hpos, gap ++ spelled, hrest, hstands⟩
      rw [hrest, List.append_assoc, List.append_assoc, List.append_assoc]

theorem StandsBehind.attempts_atFirstByte {n : Nat} (h : c.StandsBehind file front) :
    ∀ outcome ∈ c.attempts n, AtFirstByte file (front ++ c.rest) outcome := by
  induction n generalizing c front with
  | zero => exact List.forall_mem_nil _
  | succ n ih =>
    obtain ⟨hfirst, skipped, hrest, hstands⟩ := h.next_atFirstByte
    refine List.forall_mem_cons.mpr ⟨hfirst, ?_⟩
    rw [hrest, ← List.append_assoc]
    exact ih hstands

end Cursor

/-! ### Tiles -/

/-- A token with the gap before it and the bytes that it was read from. -/
structure Tile where
  gap : Bytes
  spelled : Bytes
  token : Token

namespace Tile

def join (tiles : List Tile) : Bytes := tiles.flatMap fun tile => tile.gap ++ tile.spelled

/-- Between `before` and `after`, a tile has a gap and a token that stands behind it. -/
structure Fits (tile : Tile) (file : String) (before after : Bytes) : Prop where
  gap : Gap tile.gap
  spelled : tile.token.ReadFrom tile.spelled after
  pos : tile.token.pos = .behind file (before ++ tile.gap)

theorem join_nil : join [] = [] := rfl

theorem join_cons (tile : Tile) (tiles : List Tile) :
    join (tile :: tiles) = tile.gap ++ tile.spelled ++ join tiles := List.flatMap_cons

end Tile

def Stop.outcome : Stop → Except Diagnostic Token
  | .endOfFile t => .ok t
  | .failed d => .error d

namespace Cursor

variable {c c' : Cursor} {file : String} {front : Bytes} {t : Token}

/-- The bytes that are read before a stream ends with the end of the file are tiled by its
tokens. -/
theorem exists_tiles (c : Cursor) {eof : Token} : ∀ front : Bytes, c.StandsBehind file front →
    c.stream.stop = .endOfFile eof →
    ∃ tiles last, c.rest = Tile.join tiles ++ last ∧ Gap last ∧
      c.stream.tokens = tiles.map Tile.token ∧ eof.pos = .behind file (front ++ c.rest) ∧
      ∀ earlier tile later, tiles = earlier ++ tile :: later →
        tile.Fits file (front ++ Tile.join earlier) (Tile.join later ++ last) := by
  fun_induction stream c with
  | case1 c d c' hnext =>
    intro front h hstop
    cases hstop
  | case2 c t c' hnext hkind =>
    intro front h hstop
    cases hstop
    obtain ⟨hgap, hpos, _, _⟩ := h.next_endOfFile hnext hkind
    exact ⟨[], c.rest, rfl, hgap, rfl, hpos, fun _ _ _ h => absurd h (by simp)⟩
  | case3 c t c' hnext hkind rest ih =>
    intro front h hstop
    obtain ⟨gap, spelled, hrest, hgap, hread, hpos, hstands⟩ := h.next_token hnext hkind
    obtain ⟨tiles, last, hrest', hlast, htokens, heof, hfits⟩ := ih _ hstands hstop
    rw [hrest'] at hread
    refine ⟨⟨gap, spelled, t⟩ :: tiles, last, ?_, hlast, congrArg (t :: ·) htokens, ?_, ?_⟩
    · rw [hrest, hrest', Tile.join_cons, ← List.append_assoc]
    · rw [heof, hrest, List.append_assoc]
    · intro earlier tile later htiles
      rcases List.cons_eq_append_iff.mp htiles with ⟨rfl, hhead⟩ | ⟨earlier, rfl, hrear⟩
      · cases hhead
        exact ⟨hgap, hread, by rw [hpos, Tile.join_nil, List.append_nil]⟩
      · rw [Tile.join_cons, ← List.append_assoc]
        exact hfits earlier tile later hrear

/-- A stream is what repeated attempts give up to the end of the file or the first failure. -/
theorem attempts_stream (c : Cursor) :
    c.attempts (c.stream.tokens.length + 1) =
      c.stream.tokens.map .ok ++ [c.stream.stop.outcome] := by
  fun_induction stream c with
  | case1 c d c' hnext =>
    rw [attempts, hnext]
    rfl
  | case2 c t c' hnext hkind =>
    rw [attempts, hnext]
    rfl
  | case3 c t c' hnext hkind rest ih =>
    rw [attempts, hnext]
    exact congrArg (.ok t :: ·) ih

theorem length_stream_le (c : Cursor) : c.stream.tokens.length ≤ c.rest.length := by
  fun_induction stream c with
  | case1 c d c' hnext => exact Nat.zero_le _
  | case2 c t c' hnext hkind => exact Nat.zero_le _
  | case3 c t c' hnext hkind rest ih =>
    exact Nat.lt_of_le_of_lt ih (next_shortens hnext hkind)

theorem standsBehind_ofSource (file : String) (source : Bytes) (index : Nat) :
    (ofSource file source index).StandsBehind file [] := rfl

end Cursor

/-- Repeated attempts to read a token come to the end of the file or to a failure, each token using
up some bytes. If they come to the end of the file, the tokens tile the source: each has a gap
before it, is spelled by its text and as long as it can be, and a last gap is left. In any number of
attempts, each token and each error stands at the line and the column of its first byte. -/
theorem TokenStream.tokens_tile_the_source (file : String) (source : Bytes) (index : Nat) :
    (∀ (c c' : Cursor) (t : Token), c.next = (.ok t, c') → t.kind ≠ .endOfFile →
      c'.rest.length < c.rest.length) ∧
    (∃ tokens stop, tokens.length ≤ source.length ∧
      (Cursor.ofSource file source index).attempts (tokens.length + 1) =
        tokens.map .ok ++ [stop] ∧
      (∀ t ∈ tokens, t.kind ≠ .endOfFile) ∧
      ((∃ eof, stop = .ok eof ∧ eof.kind = .endOfFile ∧
          (ofSource file source index).toExcept = .ok (tokens ++ [eof])) ∨
        ∃ d, stop = .error d ∧ (ofSource file source index).toExcept = .error d)) ∧
    (∀ n, ∀ outcome ∈ (Cursor.ofSource file source index).attempts n,
      AtFirstByte file source outcome) ∧
    ∀ tokens, (ofSource file source index).toExcept = .ok tokens →
      ∃ tiles last eof, source = Tile.join tiles ++ last ∧ Gap last ∧
        tokens = tiles.map Tile.token ++ [eof] ∧ eof.kind = .endOfFile ∧
        eof.pos = .behind file source ∧
        ∀ earlier tile later, tiles = earlier ++ tile :: later →
          tile.Fits file (Tile.join earlier) (Tile.join later ++ last) := by
  have hstands := Cursor.standsBehind_ofSource file source index
  refine ⟨fun c c' t => Cursor.next_shortens, ?_, fun n => hstands.attempts_atFirstByte,
    fun tokens htokens => ?_⟩
  · refine ⟨_, _, Cursor.length_stream_le _, Cursor.attempts_stream _,
      Cursor.kind_ne_of_mem_stream _, ?_⟩
    rw [ofSource, toExcept]
    cases hstop : (Cursor.ofSource file source index).stream.stop with
    | endOfFile eof => exact .inl ⟨eof, rfl, Cursor.stream_stop_proper _ eof hstop, rfl⟩
    | failed d => exact .inr ⟨d, rfl, rfl⟩
  · obtain ⟨front, eof, hstream, rfl⟩ := exists_of_toExcept htokens
    have hstop : (Cursor.ofSource file source index).stream.stop = .endOfFile eof :=
      congrArg stop hstream
    obtain ⟨tiles, last, hsource, hlast, hfront, heof, hfits⟩ :=
      Cursor.exists_tiles _ [] hstands hstop
    refine ⟨tiles, last, eof, hsource, hlast, ?_, Cursor.stream_stop_proper _ eof hstop, heof,
      hfits⟩
    rw [← hfront, show (Cursor.ofSource file source index).stream = _ from hstream]

/-- A comment of two lines, a keyword in small letters, and a number with a dot behind it. -/
theorem TokenStream.tokens_tile_the_source_comment :
    let source : Bytes := ("end \x7b.\n1\x7d1.5.").toList.map fun c => c.toNat.toUInt8
    ∃ tokens, (ofSource "p.pas" source).toExcept = .ok tokens ∧
      tokens.map (fun t => (t.kind, t.pos.lineColumn)) =
        [(.endWord, "1:1"), (.realConst, "2:3"), (.dot, "2:6"), (.endOfFile, "2:7")] ∧
      ∃ tiles last eof, source = Tile.join tiles ++ last ∧ Gap last ∧
        tokens = tiles.map Tile.token ++ [eof] := by
  intro source
  have hread : ((ofSource "p.pas" source).toExcept.toOption.map fun tokens =>
      tokens.map fun t => (t.kind, t.pos.lineColumn)) =
        some [(.endWord, "1:1"), (.realConst, "2:3"), (.dot, "2:6"), (.endOfFile, "2:7")] := by
    decide +kernel
  cases htokens : (ofSource "p.pas" source).toExcept with
  | error d =>
    rw [htokens] at hread
    cases hread
  | ok tokens =>
    rw [htokens] at hread
    obtain ⟨tiles, last, eof, hsource, hlast, htiles, _⟩ :=
      (tokens_tile_the_source "p.pas" source 0).2.2.2 tokens htokens
    exact ⟨tokens, rfl, Option.some.inj hread, tiles, last, eof, hsource, hlast, htiles⟩

end MiniPascal
