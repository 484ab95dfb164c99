import MiniPascal.Stage
import MiniPascal.Proofs.Stateful

/-!
# What stages enter in the journal

A computation ends with a result and a state that do not depend on the journal it started with, and
what it writes does not either: a text for the log and, if it fails with a diagnostic, this
diagnostic. It enters the diagnostic once, where it is found. So each step of a stage enters at most
one diagnostic, and a sequence of steps does so as well, because it stops at the first failure.
-/
namespace MiniPascal

def Failure.found? {ε α : Type} [Failure ε] : Except ε α → Option Diagnostic
  | .ok _ => none
  | .error e => diagnostic? e

namespace Journal

variable {ε α : Type} [Failure ε]

def settle (j : Journal) (result : Except ε α) : Journal :=
  (Failure.found? result).elim j j.report

theorem settle_ok (j : Journal) (a : α) : j.settle (.ok a : Except ε α) = j := rfl

theorem print_empty (j : Journal) : j.print "" = j := by
  rw [print, String.append_empty]

theorem print_print (j : Journal) (text text' : String) :
    (j.print text).print text' = j.print (text ++ text') := by
  rw [print, print, print, String.append_assoc]

theorem reports_report (j : Journal) (d : Diagnostic) :
    (j.report d).reports = j.reports ++ [d] := by
  unfold report
  dsimp only
  split <;> rfl

theorem echoes_report (j : Journal) (d : Diagnostic) : (j.report d).echoes = j.echoes := by
  unfold report
  dsimp only
  split <;> rfl

theorem echoes_settle (j : Journal) (text : String) (result : Except ε α) :
    ((j.print text).settle result).echoes = j.echoes := by
  unfold settle
  cases Failure.found? result with
  | none => rfl
  | some d => exact echoes_report _ d

theorem reports_settle (j : Journal) (text : String) (result : Except ε α) :
    ((j.print text).settle result).reports = j.reports ++ (Failure.found? result).toList := by
  unfold settle
  cases Failure.found? result with
  | none => exact (List.append_nil _).symm
  | some d => exact reports_report _ d

end Journal

namespace Stage

variable {ε σ τ α β : Type} [Failure ε] {x : Stage ε σ α} {f : α → Stage ε σ β} {s s₁ s₂ : σ}

/-- Started in a state with any journal, a computation ends with a result in another state. It has
entered the diagnostic that it fails with and no other. -/
def Ends (x : Stage ε σ α) (s : σ) (result : Except ε α) (s' : σ) : Prop :=
  ∃ text, ∀ j, x (s, j) = (result, s', (j.print text).settle result)

theorem Ends.bind {a : α} {result : Except ε β} (hx : x.Ends s (.ok a) s₁)
    (hf : (f a).Ends s₁ result s₂) : (x >>= f).Ends s result s₂ := by
  obtain ⟨text, hx⟩ := hx
  obtain ⟨text', hf⟩ := hf
  refine ⟨text ++ text', fun j => ?_⟩
  rw [Stateful.bind_of_ok (hx j), ← Journal.print_print]
  exact hf (j.print text)

theorem Ends.bind_error {e : ε} (hx : x.Ends s (.error e) s₁) :
    (x >>= f).Ends s (.error e) s₁ := by
  obtain ⟨text, hx⟩ := hx
  exact ⟨text, fun j => Stateful.bind_of_error (hx j)⟩

/-- The diagnostic that a computation fails with is the one it adds to the reports. -/
theorem Ends.exists_journal {result : Except ε α} (h : x.Ends s result s₁) (j : Journal) :
    ∃ j', x (s, j) = (result, s₁, j') ∧
      j'.reports = j.reports ++ (Failure.found? result).toList := by
  obtain ⟨text, h⟩ := h
  exact ⟨_, h j, Journal.reports_settle j text result⟩

theorem ends_pure (s : σ) (a : α) : Ends (pure a : Stage ε σ α) s (.ok a) s := by
  refine ⟨"", fun j => ?_⟩
  rw [j.print_empty]
  rfl

theorem ends_ask (f : σ → α) (s : σ) : Ends (ask f : Stage ε σ α) s (.ok (f s)) s := by
  refine ⟨"", fun j => ?_⟩
  rw [j.print_empty]
  rfl

theorem ends_change (f : σ → σ) (s : σ) :
    Ends (change f : Stage ε σ Unit) s (.ok ()) (f s) := by
  refine ⟨"", fun j => ?_⟩
  rw [j.print_empty]
  rfl

theorem ends_print (text : String) (s : σ) :
    Ends (print text : Stage ε σ Unit) s (.ok ()) s :=
  ⟨text, fun _ => rfl⟩

theorem ends_throw {e : ε} (he : Failure.diagnostic? e = none) (s : σ) :
    Ends (throw e : Stage ε σ α) s (.error e) s := by
  refine ⟨"", fun j => ?_⟩
  rw [j.print_empty, Journal.settle, Failure.found?, he]
  rfl

/-- The one step that enters a diagnostic. -/
theorem ends_fail (d : Diagnostic) (s : σ) :
    Ends (fail d : Stage ε σ α) s (.error (Failure.ofDiagnostic d)) s := by
  refine ⟨"", fun j => ?_⟩
  rw [j.print_empty, Journal.settle, Failure.found?, Failure.diagnostic?_ofDiagnostic]
  rfl

theorem Ends.inside {y : Stage ε τ α} {part : σ → τ} {put : τ → σ → σ} {t : τ}
    {result : Except ε α} (h : y.Ends (part s) result t) :
    (Stage.inside part put y).Ends s result (put t s) := by
  obtain ⟨text, h⟩ := h
  refine ⟨text, fun j => ?_⟩
  rw [Stage.inside, h j]

theorem Ends.through {y : Stage Diagnostic τ α} {t t' : τ} {result : Except Diagnostic α}
    (h : y.Ends t result t') (s : σ) :
    (Stage.through y t : Stage ε σ α).Ends s (result.mapError Failure.ofDiagnostic) s := by
  obtain ⟨text, h⟩ := h
  refine ⟨text, fun j => ?_⟩
  rw [Stage.through, h j]
  cases result with
  | ok a => rfl
  | error d =>
    have hsettle (j : Journal) :
        j.settle (.error (Failure.ofDiagnostic d) : Except ε α) = j.report d := by
      rw [Journal.settle, Failure.found?, Failure.diagnostic?_ofDiagnostic]
      rfl
    exact congrArg (fun j => (_, s, j)) (hsettle (j.print text)).symm

/-- What is done behind a computation enters nothing, also if that fails. -/
theorem Ends.finishing {result : Except ε α} (h : x.Ends s result s₁) (f : σ → σ) :
    (Stage.finishing x f).Ends s result (f s₁) := by
  obtain ⟨text, h⟩ := h
  refine ⟨text, fun j => ?_⟩
  rw [Stage.finishing, h j]

end Stage

end MiniPascal
