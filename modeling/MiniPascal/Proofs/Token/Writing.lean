import MiniPascal.Proofs.Syntax.Relabel
import MiniPascal.Proofs.Token.Spelling

/-!
# Written tokens

A string writes tokens before some bytes if reading it there gives tokens of these kinds and texts
and then goes on with the bytes. Strings that write tokens one behind the other are put together;
the only care to take is that a word, a number or a colon is followed by a delimiter. Every token of
a source text is written by its own text.
-/
namespace MiniPascal

namespace Text

theorem toList_loop (bytes : ByteArray) (i : Nat) (front : Bytes) :
    ByteArray.toList.loop bytes i front = front.reverse ++ bytes.data.toList.drop i := by
  fun_induction ByteArray.toList.loop bytes i front with
  | case1 i front h ih =>
    have hi : i < bytes.data.toList.length := by simpa using h
    rw [ih, List.drop_eq_getElem_cons hi]
    simp [ByteArray.get!, h]
  | case2 i front h =>
    rw [List.drop_eq_nil_of_le (by simpa using Nat.le_of_not_lt h)]
    simp

theorem encode_eq (s : String) : encode s = s.toList.flatMap String.utf8EncodeChar := by
  rw [encode, ByteArray.toList, toList_loop, String.toUTF8_eq_toByteArray,
    ← String.utf8Encode_toList]
  exact List.toList_data_toByteArray

theorem encode_append (s t : String) : encode (s ++ t) = encode s ++ encode t := by
  rw [encode_eq, encode_eq, encode_eq, String.toList_append, List.flatMap_append]

/-- Bytes below 128 are the bytes of their own text. -/
theorem encode_asciiText {bytes : Bytes} (h : ∀ b ∈ bytes, b < 0x80) :
    encode (asciiText bytes) = bytes := by
  have hchar : ∀ n < 0x80, String.utf8EncodeChar (Char.ofNat n) = [n.toUInt8] := by decide
  rw [encode_eq, asciiText, String.toList_ofList, List.flatMap_map]
  induction bytes with
  | nil => rfl
  | cons b bytes ih =>
    obtain ⟨hb, hbytes⟩ := List.forall_mem_cons.mp h
    rw [List.flatMap_cons, hchar b.toNat (UInt8.lt_iff_toNat_lt.mp hb), ih hbytes,
      Nat.toUInt8_eq, UInt8.ofNat_toNat]
    rfl

end Text

/-- The bytes start with one that ends any token before it. -/
def Delimited (bytes : Bytes) : Prop := ∃ g more, bytes = g :: more ∧ Cursor.Delimits g

theorem Delimited.append {bytes : Bytes} (h : Delimited bytes) (more : Bytes) :
    Delimited (bytes ++ more) := by
  obtain ⟨g, rest, rfl, hg⟩ := h
  exact ⟨g, rest ++ more, rfl, hg⟩

def TokenStream.behind (s : TokenStream) (front : List Token) : TokenStream :=
  { s with tokens := front ++ s.tokens }

theorem TokenStream.behind_behind (s : TokenStream) (front back : List Token) :
    (s.behind back).behind front = s.behind (front ++ back) := by
  simp only [behind, List.append_assoc]

/-- Before `more` the string is read as tokens that agree with the given ones in kind and text, and
reading goes on behind it. -/
def Writes (text : String) (tokens : List Token) (more : Bytes) : Prop :=
  ∀ pos index, ∃ read : List Token, read.map Token.plain = tokens ∧
    Cursor.stream ⟨Text.encode text ++ more, pos, index⟩ =
      (Cursor.stream ⟨more, pos.advanceBy (Text.encode text), index + read.length⟩).behind read

section

variable {text text' : String} {tokens tokens' : List Token} {more : Bytes}

theorem Writes.append (h : Writes text tokens (Text.encode text' ++ more))
    (h' : Writes text' tokens' more) : Writes (text ++ text') (tokens ++ tokens') more := by
  intro pos index
  obtain ⟨read, rfl, hread⟩ := h pos index
  obtain ⟨read', rfl, hread'⟩ := h' (pos.advanceBy (Text.encode text)) (index + read.length)
  refine ⟨read ++ read', List.map_append, ?_⟩
  rw [Text.encode_append, List.append_assoc, hread, hread', Position.advanceBy_append,
    List.length_append, Nat.add_assoc, TokenStream.behind_behind]

theorem writes_gap (h : Gap (Text.encode text)) : Writes text [] more :=
  fun pos index => ⟨[], rfl, Cursor.stream_gap h pos index⟩

theorem writes_token {b : UInt8} {rest : Bytes} {kind : Kind} {lexeme : Option String}
    (htext : Text.encode text = b :: rest)
    (h : Cursor.tokenAt? b (rest ++ more) = some (kind, lexeme, rest.length + 1)) :
    Writes text [Token.plain { kind, lexeme, pos := default }] more := by
  intro pos index
  refine ⟨[{ kind, lexeme, pos, index }], rfl, ?_⟩
  have hreading := Cursor.Reading.token (c := ⟨b :: (rest ++ more), pos, index⟩) Gap.nil rfl h
  have hrest : (b :: (rest ++ more)).drop (rest.length + 1) = more := List.drop_left
  have hread : (b :: (rest ++ more)).take (rest.length + 1) = b :: rest :=
    congrArg (b :: ·) List.take_left
  rw [htext, List.cons_append, Cursor.stream_of_token hreading.next_eq (Cursor.tokenAt?_kind_ne h)]
  simp only [Cursor.afterToken, hrest, hread]
  rfl

/-- A spelling of a token writes it before a delimiter. -/
theorem Spells.writes {kind : Kind} {lexeme : Option String}
    (h : Spells kind lexeme (Text.encode text)) (hmore : Delimited more) :
    Writes text [Token.plain { kind, lexeme, pos := default }] more := by
  obtain ⟨g, more, rfl, hg⟩ := hmore
  generalize hbytes : Text.encode text = bytes at h
  cases bytes with
  | nil => cases h
  | cons b rest =>
    have htoken : Cursor.tokenAt? b (rest ++ []) = some (kind, lexeme, rest.length + 1) := by
      rw [List.append_nil]
      exact h
    exact writes_token hbytes (Cursor.tokenAt?_splice more hg htoken (Nat.le_refl _))

/-- Up to the end of the file, the tokens of a string are those that it writes. -/
theorem Writes.stream_eq (h : Writes text tokens []) (pos : Position) (index : Nat) :
    ∃ read eof, Cursor.stream ⟨Text.encode text, pos, index⟩ = ⟨read, .endOfFile eof⟩ ∧
      read.map Token.plain = tokens := by
  obtain ⟨read, hread, hstream⟩ := h pos index
  have hend := (Cursor.Reading.endOfFile
    (c := ⟨[], pos.advanceBy (Text.encode text), index + read.length⟩) .nil).next_eq
  rw [List.append_nil, Cursor.stream_of_endOfFile hend rfl, TokenStream.behind,
    List.append_nil] at hstream
  exact ⟨read, _, hstream, hread⟩

end

def WritesBefore (follow : Bytes → Prop) (text : String) (tokens : List Token) : Prop :=
  ∀ more, follow more → Writes text tokens more

def Anything (_ : Bytes) : Prop := True

namespace WritesBefore

variable {follow follow' : Bytes → Prop} {text text' : String} {tokens tokens' : List Token}

theorem append (h : WritesBefore follow text tokens) (h' : WritesBefore follow' text' tokens')
    (hfollow : ∀ more, follow' more → follow (Text.encode text' ++ more)) :
    WritesBefore follow' (text ++ text') (tokens ++ tokens') :=
  fun more hmore => Writes.append (h _ (hfollow more hmore)) (h' more hmore)

/-- Behind a closed string there can stand any other. -/
theorem closed (h : WritesBefore Anything text tokens) (h' : WritesBefore follow' text' tokens') :
    WritesBefore follow' (text ++ text') (tokens ++ tokens') :=
  h.append h' fun _ _ => trivial

/-- Behind an open string there can stand one that starts with a delimiter. -/
theorem delimited (h : WritesBefore Delimited text tokens)
    (h' : WritesBefore follow' text' tokens') (htext : Delimited (Text.encode text')) :
    WritesBefore follow' (text ++ text') (tokens ++ tokens') :=
  h.append h' fun more _ => htext.append more

theorem before (h : WritesBefore Anything text tokens) : WritesBefore follow text tokens :=
  fun more _ => h more trivial

end WritesBefore

theorem delimited_of_head {text : String}
    (h : (text.toList.flatMap String.utf8EncodeChar).head?.any
      (fun g => Cursor.Delimits g) = true) : Delimited (Text.encode text) := by
  rw [Text.encode_eq]
  generalize text.toList.flatMap String.utf8EncodeChar = bytes at h
  cases bytes with
  | nil => cases h
  | cons g more => exact ⟨g, more, rfl, of_decide_eq_true h⟩

/-- White space writes nothing. -/
theorem writes_blank (text : String)
    (h : (text.toList.flatMap String.utf8EncodeChar).all isGapByte = true) :
    WritesBefore Anything text [] := by
  have hgap (bytes : Bytes) (hbytes : bytes.all isGapByte = true) : Gap bytes := by
    induction bytes with
    | nil => exact .nil
    | cons b bytes ih =>
      rw [List.all_cons, Bool.and_eq_true] at hbytes
      exact .blank hbytes.1 (ih hbytes.2)
  rw [← Text.encode_eq] at h
  exact fun more _ => writes_gap (hgap _ h)

theorem WritesBefore.blank {text : String} {tokens : List Token}
    (h : WritesBefore Delimited text tokens) : WritesBefore Anything (text ++ " ") tokens := by
  have hblank := h.delimited (writes_blank " " (by decide)) (delimited_of_head (by decide))
  rw [List.append_nil] at hblank
  exact hblank

def Token.Written (t : Token) : Prop := WritesBefore Delimited t.text [t.plain]

namespace Kind

def marks : List Kind :=
  [openParen, closeParen, semicolon, dot, comma, plus, minus, star, slash]

def fixed : List Kind := keywords ++ marks ++ [colon, assign]

def token (k : Kind) : Token := { kind := k, lexeme := some k.text, pos := default }

end Kind

/-- A keyword or a mark has the text of its kind. -/
theorem Token.text_of_fixed {t : Token} (h : t.kind ∈ Kind.fixed) : t.text = t.kind.text := by
  unfold text
  split
  case h_1 hk | h_2 hk | h_3 hk | h_4 hk | h_5 hk =>
    rw [hk] at h
    exact absurd h (by decide)
  · rfl

theorem Token.plain_of_fixed {t : Token} (h : t.kind ∈ Kind.fixed) : t.plain = t.kind.token := by
  rw [plain, text_of_fixed h]
  rfl

namespace Kind

theorem writes_of_spells {k : Kind} (hk : k ∈ fixed) {text : String} {lexeme : Option String}
    (h : Spells k lexeme (Text.encode text)) : WritesBefore Delimited text [k.token] := by
  intro more hmore
  rw [← Token.plain_of_fixed (t := { kind := k, lexeme, pos := default }) hk]
  exact h.writes hmore

theorem writes_fixed {k : Kind} (h : k ∈ fixed) : WritesBefore Delimited k.text [k.token] := by
  have hall : ∀ k ∈ fixed, ∃ lexeme ∈ [none, some k.text],
      Spells k lexeme (k.text.toList.flatMap String.utf8EncodeChar) := by
    decide +kernel
  obtain ⟨lexeme, _, hspells⟩ := hall k h
  rw [← Text.encode_eq] at hspells
  exact writes_of_spells h hspells

theorem writes_mark {k : Kind} (h : k ∈ marks) : WritesBefore Anything k.text [k.token] := by
  have hall : ∀ k ∈ marks, k ∈ fixed ∧ ∃ b ∈ k.text.toList.flatMap String.utf8EncodeChar,
      k.text.toList.flatMap String.utf8EncodeChar = [b] ∧ markOfByte? b = some k := by
    decide +kernel
  obtain ⟨hfixed, b, _, hbytes, hmark⟩ := hall k h
  rw [← Text.encode_eq] at hbytes
  intro more _
  rw [← Token.plain_of_fixed (t := { kind := k, pos := default }) hfixed]
  exact writes_token hbytes (Cursor.TokenAt.mark hmark).tokenAt?_eq

end Kind

/-- A mark behind an open string closes it. A dot could still belong to a number before it. -/
theorem WritesBefore.mark {text : String} {tokens : List Token}
    (h : WritesBefore Delimited text tokens) (k : Kind)
    (hk : k ∈ Kind.marks ∧ k ≠ .dot := by decide) :
    WritesBefore Anything (text ++ k.text) (tokens ++ [k.token]) := by
  have hall : ∀ k ∈ Kind.marks, k ≠ .dot →
      (k.text.toList.flatMap String.utf8EncodeChar).head?.any
        (fun g => Cursor.Delimits g) = true := by
    decide +kernel
  exact h.delimited (Kind.writes_mark hk.1) (delimited_of_head (hall k hk.1 hk.2))

theorem Token.written_of_fixed {t : Token} (h : t.kind ∈ Kind.fixed) : t.Written := by
  rw [Written, text_of_fixed h, plain_of_fixed h]
  exact Kind.writes_fixed h

namespace Cursor

theorem lt_of_isDigitByte {b : UInt8} (h : isDigitByte b = true) : b < 0x80 := by
  simp only [isDigitByte, Bool.and_eq_true, decide_eq_true_eq, UInt8.le_iff_toNat_le] at h
  rw [UInt8.lt_iff_toNat_lt]
  exact Nat.lt_of_le_of_lt h.2 (by decide)

theorem lt_of_isWordByte {b : UInt8} (h : isWordByte b = true) : b < 0x80 := by
  rcases Bool.or_eq_true_iff.mp h with h | h
  · simp only [isWordStart, isLetterByte, Bool.or_eq_true, Bool.and_eq_true, decide_eq_true_eq,
      UInt8.le_iff_toNat_le, beq_iff_eq] at h
    rw [UInt8.lt_iff_toNat_lt]
    rcases h with (h | h) | rfl
    · exact Nat.lt_of_le_of_lt h.2 (by decide)
    · exact Nat.lt_of_le_of_lt h.2 (by decide)
    · decide
  · exact lt_of_isDigitByte h

theorem isWordByte_of_mem_word {b x : UInt8} {rest : Bytes} (hb : isWordStart b = true)
    (hx : x ∈ b :: rest.takeWhile isWordByte) : isWordByte x = true := by
  rcases List.mem_cons.mp hx with rfl | hx
  · exact Bool.or_eq_true_iff.mpr (.inl hb)
  · exact List.all_eq_true.mp List.all_takeWhile x hx

theorem lt_of_mem_fraction {bytes : Bytes} {x : UInt8}
    (hx : x ∈ bytes.take (fractionLength bytes)) : x < 0x80 := by
  unfold fractionLength at hx
  split at hx
  · next dot d more =>
    split at hx
    · next hd =>
      rw [Nat.add_comm, List.take_succ_cons, ← List.prefix_iff_eq_take.mp
        (List.takeWhile_prefix isDigitByte)] at hx
      rcases List.mem_cons.mp hx with rfl | hx
      · rw [hd.1]
        decide
      · exact lt_of_isDigitByte (List.all_eq_true.mp List.all_takeWhile x hx)
    · cases hx
  · cases hx

/-- A number consists of digits and a dot. -/
theorem lt_of_mem_number {bytes : Bytes} {x : UInt8}
    (hx : x ∈ bytes.take (numberAt bytes).2) : x < 0x80 := by
  rw [numberAt_eq] at hx
  dsimp only at hx
  rw [List.take_add, ← List.prefix_iff_eq_take.mp (List.takeWhile_prefix isDigitByte)] at hx
  rcases List.mem_append.mp hx with hx | hx
  · exact lt_of_isDigitByte (List.all_eq_true.mp List.all_takeWhile x hx)
  · exact lt_of_mem_fraction hx

/-- A token whose text is its lexeme is written by the bytes that it was read from. -/
theorem written_of_lexeme {b : UInt8} {rest : Bytes} {n : Nat} {t : Token}
    (h : tokenAt? b rest = some (t.kind, t.lexeme, n))
    (htext : t.text = asciiText ((b :: rest).take n))
    (hascii : ∀ x ∈ (b :: rest).take n, x < 0x80) : t.Written := by
  rintro more ⟨g, more, rfl, hg⟩
  obtain ⟨m, rfl⟩ : ∃ m, n = m + 1 := ⟨n - 1, by have := tokenAt?_pos h; omega⟩
  have hlength : (rest.take m).length = m :=
    List.length_take_of_le (Nat.le_of_succ_le_succ (tokenAt?_le h))
  have hbytes : Text.encode t.text = b :: rest.take m := by
    rw [htext, Text.encode_asciiText hascii, List.take_succ_cons]
  have hplain : t.plain = Token.plain { kind := t.kind, lexeme := t.lexeme, pos := default } := rfl
  rw [hplain]
  refine writes_token hbytes ?_
  rw [hlength]
  rw [← List.take_append_drop m rest] at h
  exact tokenAt?_splice more hg h (Nat.le_of_eq (by rw [hlength]))

theorem written_of_next {c c' : Cursor} {t : Token} (h : c.next = (.ok t, c'))
    (hkind : t.kind ≠ .endOfFile) : t.Written := by
  have hreading := reading_next c
  rw [h] at hreading
  cases hreading with
  | endOfFile hgap => exact absurd rfl hkind
  | @token gap b rest kind lexeme length hgap hrest htoken =>
    cases tokenAt?_eq_some.mp htoken with
    | mark hmark =>
      refine Token.written_of_fixed ?_
      have hall : ∀ k ∈ Kind.marks, k ∈ Kind.fixed := by decide
      exact hall _ (mem_of_markOfByte? hmark)
    | assign => exact Token.written_of_fixed (by decide : Kind.assign ∈ Kind.fixed)
    | colon => exact Token.written_of_fixed (by decide : Kind.colon ∈ Kind.fixed)
    | @word word hmark hcolon hb hword =>
      cases hword' : Kind.ofWord? (asciiText word) with
      | some k =>
        have hk : kindOfWord (asciiText word) = k := by rw [kindOfWord, hword']; rfl
        have hmem : k ∈ Kind.keywords := List.mem_of_find?_eq_some hword'
        refine Token.written_of_fixed ?_
        rw [hk]
        exact List.mem_append_left _ (List.mem_append_left _ hmem)
      | none =>
        have hk : kindOfWord (asciiText word) = .identifier := by rw [kindOfWord, hword']; rfl
        have htake : (b :: rest).take word.length = word := by
          subst hword
          rw [List.length_cons, List.take_succ_cons,
            ← List.prefix_iff_eq_take.mp (List.takeWhile_prefix isWordByte)]
        refine written_of_lexeme htoken ?_ ?_
        · rw [htake, Token.text, hk]
          rfl
        · rw [htake, hword]
          exact fun x hx => lt_of_isWordByte (isWordByte_of_mem_word hb hx)
    | number hmark hcolon hword hb hnumber =>
      have hliteral := isLiteral_of_numberAt hnumber
      simp only [Kind.isLiteral, Bool.or_eq_true, beq_iff_eq] at hliteral
      refine written_of_lexeme htoken ?_ ?_
      · rcases hliteral with rfl | rfl <;> rfl
      · intro x hx
        have hx' : x ∈ (b :: rest).take (numberAt (b :: rest)).2 := by
          rw [hnumber]
          exact hx
        exact lt_of_mem_number hx'

theorem written_of_mem_stream (c : Cursor) : ∀ t ∈ c.stream.tokens, t.Written := by
  fun_induction stream c with
  | case1 c d c' hnext =>
    intro t ht
    cases ht
  | case2 c t c' hnext hkind =>
    intro t ht
    cases ht
  | case3 c t c' hnext hkind rest ih =>
    exact List.forall_mem_cons.mpr ⟨written_of_next hnext hkind, ih⟩

theorem isWordByte_of_identifier {b : UInt8} {rest : Bytes} {kind : Kind} {lexeme : Option String}
    {n : Nat} (h : tokenAt? b rest = some (kind, lexeme, n)) (hkind : kind = .identifier) :
    ∀ x ∈ Text.encode (lexeme.getD ""), isWordByte x = true := by
  cases tokenAt?_eq_some.mp h with
  | mark hmark =>
    subst hkind
    exact absurd (mem_of_markOfByte? hmark) (by decide)
  | assign | colon => cases hkind
  | @word word hmark hcolon hb hword =>
    have hbytes : ∀ x ∈ word, isWordByte x = true := by
      rw [hword]
      exact fun x hx => isWordByte_of_mem_word hb hx
    rw [Option.getD_some, Text.encode_asciiText fun x hx => lt_of_isWordByte (hbytes x hx)]
    exact hbytes
  | number hmark hcolon hword hb hnumber =>
    subst hkind
    cases isLiteral_of_numberAt hnumber

/-- The names in a text consist of letters, digits and underscores. -/
theorem isWordByte_of_mem_stream (c : Cursor) : ∀ t ∈ c.stream.tokens, t.kind = .identifier →
    ∀ x ∈ Text.encode t.name, isWordByte x = true := by
  fun_induction stream c with
  | case1 | case2 =>
    intro t ht
    cases ht
  | case3 c t c' hnext hkind rest ih =>
    refine List.forall_mem_cons.mpr ⟨fun hname => ?_, ih⟩
    have hreading := reading_next c
    rw [hnext] at hreading
    cases hreading with
    | endOfFile => cases hname
    | token hgap hrest htoken =>
      rw [Token.name, if_pos hname]
      exact isWordByte_of_identifier htoken hname

end Cursor

end MiniPascal
