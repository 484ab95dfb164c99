import MiniPascal.Token.Stream

/-!
# What an attempt to read a token can meet

A gap is what may stand between two tokens: white space and closed comments. Every text is a gap
followed by what ends the gap, which is nothing, a byte that starts no gap, or a comment that is not
closed. Skipping passes over exactly that gap. A token is a mark, a word or a number, by the byte
that it starts with.

An attempt to read a token therefore meets a token, the end of the file, a byte that starts no
token, or a comment without an end. `Reading` lists these four outcomes, and an attempt has exactly
the one that `Reading` gives.
-/
namespace MiniPascal

def IsInside (inside : Bytes) : Prop := ∀ b ∈ inside, b ≠ 0x7D ∧ b ≠ 0

/-- A comment is not closed before this text: it is empty or starts with a zero byte. -/
def IsUnclosed (tail : Bytes) : Prop := ∀ b, tail.head? = some b → b = 0

inductive Gap : Bytes → Prop
  | nil : Gap []
  | blank {b : UInt8} {rest : Bytes} (hb : isGapByte b = true) (hrest : Gap rest) : Gap (b :: rest)
  | comment {inside rest : Bytes} (hinside : IsInside inside) (hrest : Gap rest) :
      Gap (0x7B :: (inside ++ 0x7D :: rest))

/-- No gap starts with this byte. -/
def IsSolid (b : UInt8) : Prop := isGapByte b = false ∧ b ≠ 0x7B

/-- What follows a gap that cannot be longer. -/
inductive EndsGap : Bytes → Prop
  | nothing : EndsGap []
  | solid {b : UInt8} {rest : Bytes} (hb : IsSolid b) : EndsGap (b :: rest)
  | unclosed {inside tail : Bytes} (hinside : IsInside inside) (htail : IsUnclosed tail) :
      EndsGap (0x7B :: (inside ++ tail))

theorem IsInside.nil : IsInside [] := List.forall_mem_nil _

theorem IsInside.cons {b : UInt8} {inside : Bytes} (hb : b ≠ 0x7D ∧ b ≠ 0)
    (h : IsInside inside) : IsInside (b :: inside) :=
  List.forall_mem_cons.mpr ⟨hb, h⟩

theorem exists_inside (bytes : Bytes) :
    ∃ inside tail, bytes = inside ++ tail ∧ IsInside inside ∧
      (IsUnclosed tail ∨ ∃ rest, tail = 0x7D :: rest) := by
  induction bytes with
  | nil => exact ⟨[], [], rfl, .nil, .inl fun b h => by cases h⟩
  | cons b bytes ih =>
    by_cases hclose : b = 0x7D
    · exact ⟨[], b :: bytes, rfl, .nil, .inr ⟨bytes, by rw [hclose]⟩⟩
    · by_cases hzero : b = 0
      · refine ⟨[], b :: bytes, rfl, .nil, .inl fun b' h => ?_⟩
        cases h
        exact hzero
      · obtain ⟨inside, tail, rfl, hinside, htail⟩ := ih
        exact ⟨b :: inside, tail, rfl, hinside.cons ⟨hclose, hzero⟩, htail⟩

/-- Every text is a gap followed by what ends it. -/
theorem exists_gap (bytes : Bytes) : ∃ gap rest, bytes = gap ++ rest ∧ Gap gap ∧ EndsGap rest := by
  induction hlength : bytes.length using Nat.strongRecOn generalizing bytes with
  | ind n ih =>
    cases bytes with
    | nil => exact ⟨[], [], rfl, .nil, .nothing⟩
    | cons b bytes =>
      rw [List.length_cons] at hlength
      by_cases hb : isGapByte b = true
      · obtain ⟨gap, rest, hbytes, hgap, hrest⟩ := ih bytes.length (by omega) bytes rfl
        exact ⟨b :: gap, rest, by rw [hbytes]; rfl, .blank hb hgap, hrest⟩
      · by_cases hopen : b = 0x7B
        · subst hopen
          obtain ⟨inside, tail, hbytes, hinside, htail | ⟨rest, rfl⟩⟩ := exists_inside bytes
          · exact ⟨[], _, rfl, .nil, by rw [hbytes]; exact .unclosed hinside htail⟩
          · have hlt : rest.length < n := by
              rw [hbytes, List.length_append, List.length_cons] at hlength
              omega
            obtain ⟨gap, rest', hrest, hgap, hends⟩ := ih rest.length hlt rest rfl
            refine ⟨0x7B :: (inside ++ 0x7D :: gap), rest', ?_, .comment hinside hgap, hends⟩
            rw [hbytes, hrest, List.cons_append, List.append_assoc, List.cons_append]
        · exact ⟨[], b :: bytes, rfl, .nil, .solid ⟨Bool.eq_false_iff.mpr hb, hopen⟩⟩

theorem Position.advanceBy_cons (p : Position) (b : UInt8) (rest : Bytes) :
    p.advanceBy (b :: rest) = (p.advance b).advanceBy rest := rfl

namespace Cursor

variable {pos start : Position} {b : UInt8} {rest : Bytes}

theorem skipFrom_blank (hb : isGapByte b = true) :
    skipFrom none pos (b :: rest) = skipFrom none (pos.advance b) rest := by
  rw [skipFrom]
  exact if_pos hb

theorem skipFrom_solid (hb : IsSolid b) :
    skipFrom none pos (b :: rest) = (none, pos, b :: rest) := by
  rw [skipFrom]
  simp only [hb.1, hb.2, Bool.false_eq_true, if_false]

theorem skipFrom_open :
    skipFrom none pos (0x7B :: rest) = skipFrom (some pos) (pos.advance 0x7B) rest := rfl

theorem skipFrom_close :
    skipFrom (some start) pos (0x7D :: rest) = skipFrom none (pos.advance 0x7D) rest := rfl

theorem skipFrom_inside {inside : Bytes} (h : IsInside inside) :
    skipFrom (some start) pos (inside ++ rest) =
      skipFrom (some start) (pos.advanceBy inside) rest := by
  induction inside generalizing pos with
  | nil => rfl
  | cons b inside ih =>
    obtain ⟨hb, hinside⟩ := List.forall_mem_cons.mp h
    rw [List.cons_append, skipFrom]
    simp only [hb.1, hb.2, if_false]
    exact ih hinside

theorem skipFrom_unclosed {tail : Bytes} (h : IsUnclosed tail) :
    skipFrom (some start) pos tail = (some start, pos, tail) := by
  cases tail with
  | nil => rfl
  | cons b tail =>
    cases h b rfl
    rfl

theorem skipFrom_gap {gap : Bytes} (h : Gap gap) :
    skipFrom none pos (gap ++ rest) = skipFrom none (pos.advanceBy gap) rest := by
  induction h generalizing pos with
  | nil => rfl
  | blank hb hrest ih => rw [List.cons_append, skipFrom_blank hb, ih, Position.advanceBy_cons]
  | comment hinside hrest ih =>
    rw [List.cons_append, skipFrom_open, List.append_assoc, skipFrom_inside hinside,
      List.cons_append, skipFrom_close, ih, Position.advanceBy_cons, Position.advanceBy_append,
      Position.advanceBy_cons]

def fractionLength : Bytes → Nat
  | dot :: d :: more =>
    if dot = 0x2E ∧ isDigitByte d = true then 1 + ((d :: more).takeWhile isDigitByte).length else 0
  | _ => 0

theorem numberAt_eq (bytes : Bytes) :
    numberAt bytes =
      let whole := (bytes.takeWhile isDigitByte).length
      let fraction := fractionLength (bytes.drop whole)
      (if fraction = 0 then .integerConst else .realConst, whole + fraction) := by
  unfold numberAt
  dsimp only
  split
  · next d more hdrop =>
    rw [hdrop, fractionLength]
    by_cases hd : isDigitByte d = true
    · simp only [hd, and_self, if_true, Nat.add_assoc]
      rw [if_neg (by omega)]
    · simp [hd]
  · next hdrop =>
    have hnone : fractionLength (bytes.drop (bytes.takeWhile isDigitByte).length) = 0 := by
      unfold fractionLength
      split
      · next dot d more heq =>
        refine if_neg fun h => ?_
        rw [h.1] at heq
        exact hdrop d more heq
      · rfl
    rw [hnone]
    rfl

theorem fractionLength_le (bytes : Bytes) : fractionLength bytes ≤ bytes.length := by
  unfold fractionLength
  split
  · next dot d more =>
    have hle := (List.takeWhile_sublist isDigitByte (l := d :: more)).length_le
    split
    · simp only [List.length_cons] at hle ⊢
      omega
    · exact Nat.zero_le _
  · exact Nat.zero_le _

theorem numberAt_le (bytes : Bytes) : (numberAt bytes).2 ≤ bytes.length := by
  have hwhole := (List.takeWhile_sublist isDigitByte (l := bytes)).length_le
  have hfraction := fractionLength_le (bytes.drop (bytes.takeWhile isDigitByte).length)
  rw [List.length_drop] at hfraction
  rw [numberAt_eq]
  dsimp only
  omega

/-- The kind, the lexeme and the length of a token, by the byte that it starts with. -/
inductive TokenAt (b : UInt8) (rest : Bytes) : Kind × Option String × Nat → Prop
  | mark {kind : Kind} (hmark : markOfByte? b = some kind) : TokenAt b rest (kind, none, 1)
  | assign (hb : b = 0x3A) (hrest : rest.head? = some 0x3D) : TokenAt b rest (.assign, none, 2)
  | colon (hb : b = 0x3A) (hrest : rest.head? ≠ some 0x3D) : TokenAt b rest (.colon, none, 1)
  | word {word : Bytes} (hmark : markOfByte? b = none) (hcolon : b ≠ 0x3A)
      (hb : isWordStart b = true) (hword : word = b :: rest.takeWhile isWordByte) :
      TokenAt b rest (kindOfWord (asciiText word), some (asciiText word), word.length)
  | number {kind : Kind} {n : Nat} (hmark : markOfByte? b = none) (hcolon : b ≠ 0x3A)
      (hword : isWordStart b = false) (hb : isDigitByte b = true)
      (hnumber : numberAt (b :: rest) = (kind, n)) :
      TokenAt b rest (kind, some (asciiText ((b :: rest).take n)), n)

theorem TokenAt.tokenAt?_eq {found : Kind × Option String × Nat}
    (h : TokenAt b rest found) : tokenAt? b rest = some found := by
  unfold tokenAt?
  cases h with
  | mark hmark => simp only [hmark]
  | assign hb hrest =>
    subst hb
    cases rest with
    | nil => cases hrest
    | cons x rest =>
      cases hrest
      rfl
  | colon hb hrest =>
    subst hb
    cases rest with
    | nil => rfl
    | cons x rest =>
      have hx : x ≠ 0x3D := fun h => hrest (congrArg some h)
      simp [markOfByte?, hx]
  | word hmark hcolon hb hword =>
    subst hword
    simp only [hmark, hcolon, hb, if_true, if_false]
  | number hmark hcolon hword hb hnumber =>
    simp only [hmark, hcolon, hword, hb, hnumber, if_true, if_false, Bool.false_eq_true]

def StartsNothing (b : UInt8) : Prop :=
  markOfByte? b = none ∧ b ≠ 0x3A ∧ isWordStart b = false ∧ isDigitByte b = false

theorem StartsNothing.tokenAt?_eq (h : StartsNothing b) (rest : Bytes) :
    tokenAt? b rest = none := by
  obtain ⟨hmark, hcolon, hword, hdigit⟩ := h
  simp [tokenAt?, hmark, hcolon, hword, hdigit]

theorem tokenAt_or_startsNothing (b : UInt8) (rest : Bytes) :
    (∃ found, TokenAt b rest found) ∨ StartsNothing b := by
  cases hmark : markOfByte? b with
  | some kind => exact .inl ⟨_, .mark hmark⟩
  | none =>
    by_cases hcolon : b = 0x3A
    · by_cases hrest : rest.head? = some 0x3D
      · exact .inl ⟨_, .assign hcolon hrest⟩
      · exact .inl ⟨_, .colon hcolon hrest⟩
    · cases hword : isWordStart b with
      | true => exact .inl ⟨_, .word hmark hcolon hword rfl⟩
      | false =>
        cases hdigit : isDigitByte b with
        | true => exact .inl ⟨_, .number hmark hcolon hword hdigit rfl⟩
        | false => exact .inr ⟨hmark, hcolon, hword, hdigit⟩

theorem tokenAt?_eq_some {found : Kind × Option String × Nat} :
    tokenAt? b rest = some found ↔ TokenAt b rest found := by
  refine ⟨fun h => ?_, TokenAt.tokenAt?_eq⟩
  rcases tokenAt_or_startsNothing b rest with ⟨found', h'⟩ | hnothing
  · cases h'.tokenAt?_eq.symm.trans h
    exact h'
  · cases (hnothing.tokenAt?_eq rest).symm.trans h

theorem tokenAt?_eq_none : tokenAt? b rest = none ↔ StartsNothing b := by
  refine ⟨fun h => ?_, fun h => h.tokenAt?_eq rest⟩
  rcases tokenAt_or_startsNothing b rest with ⟨found', h'⟩ | hnothing
  · cases h'.tokenAt?_eq.symm.trans h
  · exact hnothing

theorem tokenAt?_le {kind : Kind} {lexeme : Option String} {n : Nat}
    (h : tokenAt? b rest = some (kind, lexeme, n)) : n ≤ rest.length + 1 := by
  cases tokenAt?_eq_some.mp h with
  | mark hmark => omega
  | assign hb hrest =>
    cases rest with
    | nil => cases hrest
    | cons x rest => exact Nat.succ_le_succ (Nat.succ_le_succ (Nat.zero_le _))
  | colon hb hrest => omega
  | word hmark hcolon hb hword =>
    subst hword
    exact Nat.succ_le_succ (List.takeWhile_sublist isWordByte).length_le
  | number hmark hcolon hword hb hnumber =>
    have hle := numberAt_le (b :: rest)
    rw [hnumber] at hle
    exact hle

theorem mem_of_markOfByte? {kind : Kind} (h : markOfByte? b = some kind) :
    kind ∈ [.openParen, .closeParen, .semicolon, .dot, .comma, .plus, .minus, .star, .slash] := by
  unfold markOfByte? at h
  repeat' split at h
  all_goals cases h <;> decide

theorem isLiteral_of_numberAt {bytes : Bytes} {kind : Kind} {n : Nat}
    (h : numberAt bytes = (kind, n)) : kind.isLiteral = true := by
  rw [numberAt_eq, Prod.mk.injEq] at h
  rw [← h.1]
  split <;> rfl

/-- No token but the last one is the end of the file. -/
theorem tokenAt?_kind_ne {kind : Kind} {lexeme : Option String} {n : Nat}
    (h : tokenAt? b rest = some (kind, lexeme, n)) : kind ≠ .endOfFile := by
  cases tokenAt?_eq_some.mp h with
  | mark hmark =>
    rintro rfl
    exact absurd (mem_of_markOfByte? hmark) (by decide)
  | assign | colon => exact Kind.noConfusion
  | @word word hmark hcolon hb hword =>
    unfold kindOfWord
    cases hkind : Kind.ofWord? (asciiText word) with
    | none => exact Kind.noConfusion
    | some kind =>
      have hmem : kind ∈ Kind.keywords := List.mem_of_find?_eq_some hkind
      rintro rfl
      exact absurd hmem (by decide)
  | number hmark hcolon hword hb hnumber =>
    rintro rfl
    cases isLiteral_of_numberAt hnumber

/-- A byte of a gap starts no token. -/
theorem isSolid_of_tokenAt? {found : Kind × Option String × Nat}
    (h : tokenAt? b rest = some found) : IsSolid b := by
  constructor
  · refine Bool.eq_false_iff.mpr fun hb => ?_
    simp only [isGapByte, Bool.or_eq_true, beq_iff_eq] at hb
    rcases hb with ((rfl | rfl) | rfl) | rfl <;> cases h
  · rintro rfl
    cases h

/-- The outcomes of an attempt to read a token. -/
inductive Reading (c : Cursor) : Except Diagnostic Token × Cursor → Prop
  | token {gap : Bytes} {b : UInt8} {rest : Bytes} {kind : Kind} {lexeme : Option String}
      {length : Nat} (hgap : Gap gap) (hrest : c.rest = gap ++ b :: rest)
      (htoken : tokenAt? b rest = some (kind, lexeme, length)) :
      Reading c (.ok { kind, lexeme, pos := c.pos.advanceBy gap, index := c.index },
        afterToken { c with pos := c.pos.advanceBy gap, rest := b :: rest } length)
  | endOfFile (hgap : Gap c.rest) :
      Reading c (.ok { kind := .endOfFile, pos := c.pos.advanceBy c.rest, index := c.index },
        { c with pos := c.pos.advanceBy c.rest, rest := [] })
  | invalid {gap : Bytes} {b : UInt8} {rest : Bytes} (hgap : Gap gap)
      (hrest : c.rest = gap ++ b :: rest) (hb : IsSolid b) (htoken : tokenAt? b rest = none) :
      Reading c (.error
          ⟨.invalidCharacter (Text.firstPiece b rest).1.toChar, c.pos.advanceBy gap, none⟩,
        { c with pos := c.pos.advanceBy gap, rest := b :: rest })
  | unclosed {gap inside tail : Bytes} (hgap : Gap gap)
      (hrest : c.rest = gap ++ 0x7B :: (inside ++ tail)) (hinside : IsInside inside)
      (htail : IsUnclosed tail) :
      Reading c (.error ⟨.unterminatedComment, c.pos.advanceBy gap, none⟩,
        { c with pos := c.pos.advanceBy (gap ++ 0x7B :: inside), rest := tail })

theorem Reading.next_eq {c : Cursor} {outcome : Except Diagnostic Token × Cursor}
    (h : Reading c outcome) : c.next = outcome := by
  unfold next
  cases h with
  | token hgap hrest htoken =>
    rw [hrest, skipFrom_gap hgap, skipFrom_solid (isSolid_of_tokenAt? htoken)]
    simp only [htoken]
  | endOfFile hgap =>
    have hskip : skipFrom none c.pos (c.rest ++ []) = (none, c.pos.advanceBy c.rest, []) :=
      skipFrom_gap hgap
    rw [List.append_nil] at hskip
    rw [hskip]
  | invalid hgap hrest hb htoken =>
    rw [hrest, skipFrom_gap hgap, skipFrom_solid hb]
    simp only [htoken]
  | unclosed hgap hrest hinside htail =>
    rw [hrest, skipFrom_gap hgap, skipFrom_open, skipFrom_inside hinside, skipFrom_unclosed htail,
      Position.advanceBy_append, Position.advanceBy_cons]

theorem reading_next (c : Cursor) : Reading c c.next := by
  obtain ⟨gap, rest, hrest, hgap, hends⟩ := exists_gap c.rest
  cases hends with
  | nothing =>
    rw [List.append_nil] at hrest
    have h := Reading.endOfFile (c := c) (hrest ▸ hgap)
    exact h.next_eq ▸ h
  | @solid b rest hb =>
    cases htoken : tokenAt? b rest with
    | none =>
      have h := Reading.invalid hgap hrest hb htoken
      exact h.next_eq ▸ h
    | some found =>
      have h := Reading.token hgap hrest htoken
      exact h.next_eq ▸ h
  | unclosed hinside htail =>
    have h := Reading.unclosed hgap hrest hinside htail
    exact h.next_eq ▸ h

end Cursor

end MiniPascal
