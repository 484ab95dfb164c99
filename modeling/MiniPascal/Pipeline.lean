import MiniPascal.Execution.Interpreting
import MiniPascal.Syntax.Parsing

/-!
# From source to bindings

A source is read, resolved and run with one journal; the first stage that fails ends it. What the
stages before it made is kept.
-/
namespace MiniPascal

structure Pipeline where
  program : Option Program := none
  resolution : Option Resolution := none
  /-- The annotated program. -/
  output : Option String := none
  bindings : Option Bindings := none
  failure : Option RunError := none
  reports : Reports := []

namespace Pipeline

/-- The file name of a source that has none of its own. -/
def defaultFile : String := "test.pas"

def ofSource (file : String) (source : Bytes) : Pipeline :=
  let file := if file.isEmpty then defaultFile else file
  match Program.read file source 0 {} with
  | (.error d, j) => { failure := some (.diagnostic d), reports := j.reports }
  | (.ok p, j) =>
    match Annotating.resolve p ({}, j) with
    | (.error d, _, j) =>
      { program := some p, failure := some (.diagnostic d), reports := j.reports }
    | (.ok r, _, j) =>
      let s : Pipeline :=
        { program := some p, resolution := some r.resolution, output := some r.output }
      match Interpreting.run p (some r.resolution) ({}, j) with
      | (.error e, _, j) => { s with failure := some e, reports := j.reports }
      | (.ok b, _, j) => { s with bindings := some b, reports := j.reports }

def annotated (s : Pipeline) : Option String := do
  let p ← s.program
  let r ← s.resolution
  return r.annotated p

end Pipeline

end MiniPascal
