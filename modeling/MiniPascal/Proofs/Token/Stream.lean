import MiniPascal.Token.Stream

/-!
# The tokens of a source text

Tokens are numbered in the order in which they are read, from the index of the cursor on. The end
of the file is never among them: it only ends the stream.
-/
namespace MiniPascal

/-- The token that ends a stream, if one does, is the end of the file. -/
def Stop.Proper (stop : Stop) : Prop :=
  ∀ t, stop = .endOfFile t → t.kind = .endOfFile

namespace Cursor

theorem next_index {c c' : Cursor} {t : Token} (h : c.next = (.ok t, c')) :
    t.index = c.index ∧ (t.kind ≠ .endOfFile → c'.index = c.index + 1) := by
  unfold next at h
  split at h
  · cases h
  · cases h
    exact ⟨rfl, fun hk => absurd rfl hk⟩
  · dsimp only at h
    split at h
    · cases h
      exact ⟨rfl, fun _ => rfl⟩
    · cases h

theorem stream_stop_proper (c : Cursor) : c.stream.stop.Proper := by
  fun_induction stream c with
  | case1 c d c' hnext =>
    intro t ht
    cases ht
  | case2 c t c' hnext hk =>
    intro t' ht
    cases ht
    exact hk
  | case3 c t c' hnext hk rest ih => exact ih

theorem kind_ne_of_mem_stream (c : Cursor) :
    ∀ t ∈ c.stream.tokens, t.kind ≠ .endOfFile := by
  fun_induction stream c with
  | case1 c d c' hnext =>
    intro t ht
    cases ht
  | case2 c t c' hnext hk =>
    intro t' ht
    cases ht
  | case3 c t c' hnext hk rest ih =>
    intro t' ht
    rcases List.mem_cons.mp ht with rfl | ht
    · exact hk
    · exact ih t' ht

theorem map_index_stream (c : Cursor) :
    c.stream.tokens.map Token.index = List.range' c.index c.stream.tokens.length := by
  fun_induction stream c with
  | case1 c d c' hnext => rfl
  | case2 c t c' hnext hk => rfl
  | case3 c t c' hnext hk rest ih =>
    obtain ⟨ht, hc⟩ := next_index hnext
    rw [hc hk] at ih
    rw [List.map_cons, List.length_cons, List.range'_succ, ht, ih]

/-- The end of the file is numbered behind the tokens. -/
theorem index_endOfFile (c : Cursor) {eof : Token} (h : c.stream.stop = .endOfFile eof) :
    eof.index = c.index + c.stream.tokens.length := by
  fun_induction stream c with
  | case1 c d c' hnext => cases h
  | case2 c t c' hnext hk =>
    cases h
    exact (next_index hnext).1
  | case3 c t c' hnext hk rest ih =>
    rw [ih h, (next_index hnext).2 hk, List.length_cons, Nat.add_assoc, Nat.add_comm 1]

end Cursor

namespace TokenStream

theorem ofSource_stop_proper (file : String) (source : Bytes) (index : Nat) :
    (ofSource file source index).stop.Proper :=
  Cursor.stream_stop_proper _

theorem kind_ne_of_mem_ofSource {file : String} {source : Bytes} {index : Nat} {t : Token}
    (ht : t ∈ (ofSource file source index).tokens) : t.kind ≠ .endOfFile :=
  Cursor.kind_ne_of_mem_stream _ t ht

/-- No two tokens of a source text share an index. -/
theorem nodup_index_ofSource (file : String) (source : Bytes) (index : Nat) :
    ((ofSource file source index).tokens.map Token.index).Nodup := by
  rw [ofSource, Cursor.map_index_stream]
  exact List.nodup_range' 1

theorem exists_of_toExcept {s : TokenStream} {tokens : List Token} (h : s.toExcept = .ok tokens) :
    ∃ front eof, s = ⟨front, .endOfFile eof⟩ ∧ tokens = front ++ [eof] := by
  obtain ⟨front, stop⟩ := s
  cases stop with
  | failed d => cases h
  | endOfFile eof =>
    cases h
    exact ⟨front, eof, rfl, rfl⟩

/-- The tokens of a text and the end of the file are numbered one after the other. -/
theorem map_index_of_toExcept {file : String} {source : Bytes} {index : Nat} {tokens : List Token}
    (h : (ofSource file source index).toExcept = .ok tokens) :
    tokens.map Token.index = List.range' index tokens.length := by
  obtain ⟨front, eof, hs, rfl⟩ := exists_of_toExcept h
  have htokens := Cursor.map_index_stream (.ofSource file source index)
  have heof : (Cursor.ofSource file source index).stream.stop = .endOfFile eof → _ :=
    Cursor.index_endOfFile (.ofSource file source index)
  rw [show (Cursor.ofSource file source index).stream = _ from hs] at htokens heof
  rw [List.map_append, htokens, List.map_singleton, heof rfl, List.length_append]
  exact List.range'_append_1 (s := index) (n := 1)

end TokenStream

end MiniPascal
