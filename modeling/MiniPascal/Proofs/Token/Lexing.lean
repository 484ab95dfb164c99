import MiniPascal.Proofs.Stage
import MiniPascal.Token.Lexing

/-!
# Tokens read on demand

The lexer gives the tokens of `Cursor.next`, one after the other. Where it finds no token it enters
the reason in the journal.
-/
namespace MiniPascal.Lexing

theorem ends_skip_of_none {c : Cursor} {pos : Position} {rest : Bytes}
    (h : Cursor.skipFrom none c.pos c.rest = (none, pos, rest)) :
    skip.Ends c (.ok ()) { c with pos, rest } := by
  refine (Stage.ends_ask id c).bind ?_
  dsimp only [id]
  rw [h]
  exact (Stage.ends_change _ c).bind (Stage.ends_pure _ _)

theorem ends_skip_of_some {c : Cursor} {pos start : Position} {rest : Bytes}
    (h : Cursor.skipFrom none c.pos c.rest = (some start, pos, rest)) :
    skip.Ends c (.error { cause := .unterminatedComment, pos := start }) { c with pos, rest } := by
  refine (Stage.ends_ask id c).bind ?_
  dsimp only [id]
  rw [h]
  exact (Stage.ends_change _ c).bind (Stage.ends_fail _ _)

theorem ends_token_nil {c : Cursor} (h : c.rest = []) :
    token.Ends c (.ok { kind := .endOfFile, pos := c.pos, index := c.index }) c := by
  refine (Stage.ends_ask id c).bind ?_
  dsimp only [id]
  rw [h]
  exact Stage.ends_pure _ _

theorem ends_token_some {c : Cursor} {b : UInt8} {rest : Bytes} {kind : Kind}
    {lexeme : Option String} {length : Nat} (h : c.rest = b :: rest)
    (ht : Cursor.tokenAt? b rest = some (kind, lexeme, length)) :
    token.Ends c (.ok { kind, lexeme, pos := c.pos, index := c.index }) (c.afterToken length) := by
  refine (Stage.ends_ask id c).bind ?_
  dsimp only [id]
  rw [h]
  dsimp only
  rw [ht]
  exact (Stage.ends_change _ c).bind (Stage.ends_pure _ _)

theorem ends_token_none {c : Cursor} {b : UInt8} {rest : Bytes} (h : c.rest = b :: rest)
    (ht : Cursor.tokenAt? b rest = none) :
    let cause := Cause.invalidCharacter (Text.firstPiece b rest).1.toChar
    token.Ends c (.error { cause, pos := c.pos }) c := by
  refine (Stage.ends_ask id c).bind ?_
  dsimp only [id]
  rw [h]
  dsimp only
  rw [ht]
  exact Stage.ends_fail _ _

/-- The lexer reads the next token of its cursor. -/
theorem ends_next (c : Cursor) : next.Ends c c.next.1 c.next.2 := by
  unfold Cursor.next
  split
  · next h => exact (ends_skip_of_some h).bind_error
  · next pos h => exact (ends_skip_of_none h).bind (ends_token_nil rfl)
  · next pos b rest h =>
    dsimp only
    split
    · next kind lexeme length ht =>
      exact (ends_skip_of_none h).bind (ends_token_some rfl ht)
    · next ht => exact (ends_skip_of_none h).bind (ends_token_none rfl ht)

/-- Going on after failures, the lexer reads what the cursor does, and enters every failure. -/
theorem attempts_eq (n : Nat) (c : Cursor) (j : Journal) :
    (attempts n (c, j)).1 = c.attempts n ∧
      (attempts n (c, j)).2.reports = j.reports ++ (c.attempts n).filterMap Failure.found? := by
  induction n generalizing c j with
  | zero => exact ⟨rfl, (List.append_nil _).symm⟩
  | succ n ih =>
    obtain ⟨text, hnext⟩ := ends_next c
    obtain ⟨houtcomes, hreports⟩ := ih c.next.2 ((j.print text).settle c.next.1)
    rw [attempts, hnext j, Cursor.attempts]
    refine ⟨congrArg _ houtcomes, hreports.trans ?_⟩
    rw [Journal.reports_settle, List.append_assoc, List.filterMap_cons]
    cases Failure.found? c.next.1 <;> rfl

end MiniPascal.Lexing
