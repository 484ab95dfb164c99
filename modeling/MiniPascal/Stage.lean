import MiniPascal.Diagnostic

/-!
# Stages and their journal

A source goes through stages: it is read, resolved and run. A stage has a state of its own, and all
stages write in one journal, which keeps the diagnostics and the log. A diagnostic is entered where
it is found; the stage then fails with it, and nothing that the failure passes through enters it a
second time.
-/
namespace MiniPascal

structure Journal where
  reports : Reports := []
  /-- Whether diagnostics are logged as well. -/
  echoes : Bool := false
  log : String := ""
  deriving Repr, Inhabited

namespace Journal

def print (j : Journal) (text : String) : Journal :=
  { j with log := j.log ++ text }

def report (j : Journal) (d : Diagnostic) : Journal :=
  let j := { j with reports := j.reports ++ [d] }
  if j.echoes then j.print (d.report ++ "\n") else j

def hasReports (j : Journal) : Bool := !j.reports.isEmpty

def last? (j : Journal) : Option Diagnostic := j.reports.getLast?

end Journal

class Failure (ε : Type) where
  ofDiagnostic : Diagnostic → ε
  diagnostic? : ε → Option Diagnostic
  diagnostic?_ofDiagnostic (d : Diagnostic) : diagnostic? (ofDiagnostic d) = some d

instance : Failure Diagnostic where
  ofDiagnostic d := d
  diagnostic? d := some d
  diagnostic?_ofDiagnostic _ := rfl

/-- Goes through some part of a stage, or stops at the first failure. -/
abbrev Stage (ε σ : Type) := ExceptT ε (StateM (σ × Journal))

namespace Stage

variable {ε σ τ α : Type}

def ask (f : σ → α) : Stage ε σ α := fun (s, j) => (.ok (f s), s, j)

def change (f : σ → σ) : Stage ε σ Unit := fun (s, j) => (.ok (), f s, j)

def print (text : String) : Stage ε σ Unit := fun (s, j) => (.ok (), s, j.print text)

def note (d : Diagnostic) : Stage ε σ Unit := fun (s, j) => (.ok (), s, j.report d)

/-- Reports a diagnostic and fails with it. -/
def fail [Failure ε] (d : Diagnostic) : Stage ε σ α := do
  note d
  throw (Failure.ofDiagnostic d)

def inside (part : σ → τ) (put : τ → σ → σ) (x : Stage ε τ α) : Stage ε σ α := fun (s, j) =>
  let (result, t, j) := x (part s, j)
  (result, put t s, j)

/-- Goes through another stage, whose state is not kept. -/
def through [Failure ε] (x : Stage Diagnostic τ α) (t : τ) : Stage ε σ α := fun (s, j) =>
  match x (t, j) with
  | (.ok a, _, j) => (.ok a, s, j)
  | (.error d, _, j) => (.error (Failure.ofDiagnostic d), s, j)

/-- Changes the state behind a computation, also if that fails. -/
def finishing (x : Stage ε σ α) (f : σ → σ) : Stage ε σ α := fun s =>
  let (result, s, j) := x s
  (result, f s, j)

end Stage

end MiniPascal
