import MiniPascal.Proofs.Grammar.Completion
import MiniPascal.Proofs.Token.Splice

/-!
# Texts with given tokens

A text spells a token if the token is all that is read from it. Spellings with gaps between them
are read back one by one, so that every sequence of fillers is what the tokens of some text are.
-/
namespace MiniPascal

/-- The bytes are one token of the given kind and lexeme. -/
def Spells (kind : Kind) (lexeme : Option String) : Bytes → Prop
  | [] => False
  | b :: rest => Cursor.tokenAt? b rest = some (kind, lexeme, rest.length + 1)

instance (kind : Kind) (lexeme : Option String) : DecidablePred (Spells kind lexeme)
  | [] => inferInstanceAs (Decidable False)
  | b :: rest =>
    inferInstanceAs (Decidable (Cursor.tokenAt? b rest = some (kind, lexeme, rest.length + 1)))

theorem Spells.stream_eq {kind : Kind} {lexeme : Option String} {bytes : Bytes} {g : UInt8}
    (h : Spells kind lexeme bytes) (hg : isGapByte g = true) (more : Bytes) (pos : Position)
    (index : Nat) :
    let s := Cursor.stream ⟨more, (pos.advanceBy bytes).advance g, index + 1⟩
    Cursor.stream ⟨bytes ++ g :: more, pos, index⟩ =
      ⟨{ kind, lexeme, pos, index } :: s.tokens, s.stop⟩ := by
  cases bytes with
  | nil => cases h
  | cons b rest =>
    have htoken : Cursor.tokenAt? b (rest ++ []) = some (kind, lexeme, rest.length + 1) := by
      rw [List.append_nil]
      exact h
    have hreading := Cursor.Reading.token (c := ⟨b :: rest ++ g :: more, pos, index⟩) Gap.nil
      (List.cons_append ..)
      (Cursor.tokenAt?_splice more (Cursor.delimits_of_gap hg) htoken (Nat.le_refl _))
    rw [Cursor.stream_of_token hreading.next_eq (Cursor.tokenAt?_kind_ne htoken)]
    have hrest : (b :: rest ++ g :: more).drop (rest.length + 1) = [g] ++ more :=
      List.drop_left' rfl
    have hread : (b :: rest ++ g :: more).take (rest.length + 1) = b :: rest :=
      List.take_left' rfl
    rw [← List.cons_append, Cursor.afterToken, hrest, hread, Cursor.stream_gap (.blank hg .nil)]
    rfl

namespace Grammar

def spelling : Kind → Bytes
  | .identifier => [0x78]
  | k => k.text.toList.map fun c => c.toNat.toUInt8

theorem spells_spelling {k : Kind} (h : k ∈ fillers) : ∃ lexeme, Spells k lexeme (spelling k) := by
  have hall : ∀ k ∈ fillers, ∃ lexeme ∈ [none, some k.text, some "x"],
      Spells k lexeme (spelling k) := by
    decide
  obtain ⟨lexeme, _, hspells⟩ := hall k h
  exact ⟨lexeme, hspells⟩

def spelled : List Kind → Bytes
  | [] => []
  | k :: kinds => spelling k ++ 0x20 :: spelled kinds

theorem stream_spelled {kinds : List Kind} (h : kinds ⊆ fillers) (pos : Position) (index : Nat) :
    (Cursor.stream ⟨spelled kinds, pos, index⟩).tokens.map Token.kind = kinds ∧
      ∃ eof, (Cursor.stream ⟨spelled kinds, pos, index⟩).stop = .endOfFile eof := by
  induction kinds generalizing pos index with
  | nil =>
    have hreading := Cursor.Reading.endOfFile (c := ⟨[], pos, index⟩) .nil
    rw [spelled, Cursor.stream_of_endOfFile hreading.next_eq rfl]
    exact ⟨rfl, _, rfl⟩
  | cons k kinds ih =>
    obtain ⟨hk, hkinds⟩ := List.cons_subset.mp h
    obtain ⟨lexeme, hspells⟩ := spells_spelling hk
    rw [spelled, hspells.stream_eq rfl]
    obtain ⟨htokens, hstop⟩ := ih hkinds _ _
    exact ⟨congrArg (k :: ·) htokens, hstop⟩

/-- Behind a gap byte there can stand tokens of any kinds of fillers. -/
theorem exists_text_of_fillers {kinds : List Kind} (h : kinds ⊆ fillers) {g : UInt8}
    (hg : isGapByte g = true) (pos : Position) (index : Nat) :
    ∃ text tokens eof, Cursor.stream ⟨g :: text, pos, index⟩ = ⟨tokens, .endOfFile eof⟩ ∧
      tokens.map Token.kind = kinds := by
  have hgap : Cursor.stream ⟨[g] ++ spelled kinds, pos, index⟩ = _ :=
    Cursor.stream_gap (.blank hg .nil) pos index
  obtain ⟨htokens, eof, hstop⟩ := stream_spelled h (pos.advanceBy [g]) index
  refine ⟨spelled kinds, _, eof, ?_, htokens⟩
  rw [← hstop]
  exact hgap

end Grammar

end MiniPascal
