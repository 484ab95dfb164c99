import MiniPascal.History
import MiniPascal.Execution.Interpreting
import MiniPascal.Report
import MiniPascal.Syntax.Parsing

/-!
# The interactive loop

Lines are collected until they form an entry: a blank, a command that starts with a colon, or a
text that parses or fails for another reason than that it ends too early. A program is run and its
bindings are printed; whatever goes wrong with it is shown and the loop goes on.
-/
namespace MiniPascal

structure Shown where
  out : String := ""
  err : String := ""
  deriving Repr, DecidableEq, Inhabited

def Shown.append (a b : Shown) : Shown := ⟨a.out ++ b.out, a.err ++ b.err⟩

instance : Append Shown := ⟨Shown.append⟩

def Config.evaluate (c : Config) (p : Program) (j : Journal) :
    Except RunError Bindings × Journal :=
  match Annotating.resolve p ({ logged := c.logScope }, j) with
  | (.error d, _, j) => (.error (.diagnostic d), j)
  | (.ok r, _, j) =>
    let settings : Settings := { logged := c.logStack }
    let (result, _, j) := Interpreting.run p (some r.resolution) ({ settings }, j)
    (result, j)

namespace Repl

def fileName : String := "<repl>"

def banner : String :=
  "spi repl. Enter a whole program, e.g.\n" ++
  "  program P; var x : integer; begin x := 3 + 5 * 2 end.\n" ++
  "Type :quit to exit.\n"

def unknownCommand : String := "unknown command. Type :quit to exit.\n"

def runEntry (c : Config) (entry : Bytes) : Shown × Reports :=
  match Program.read fileName entry 0 {} with
  | (.error d, j) => ({ err := d.report ++ "\n" }, j.reports)
  | (.ok p, j) =>
    match c.evaluate p j with
    | (.error e, j) => ({ err := j.log ++ e.message ++ "\n" }, j.reports)
    | (.ok b, j) => ({ out := b.print c.format, err := j.log }, j.reports)

def isBlank (text : Bytes) : Bool := (Text.trim (Text.pieces text)).isEmpty

def isCommand (text : Bytes) : Bool :=
  (Text.trim (Text.pieces text)).head? = some (.char ':')

def isUnfinished (text : Bytes) : Bool :=
  match (Program.read fileName text 0 {}).1 with
  | .ok _ => false
  | .error d => d.isIncomplete

def isEntry (text : Bytes) : Bool :=
  isBlank text || isCommand text || !isUnfinished text

end Repl

/-- The state of the loop: the configuration, the lines of an unfinished entry, the history, and
whether the loop was told to end. -/
structure Repl where
  config : Config
  pending : Bytes := []
  history : History := {}
  ended : Bool := false
  deriving Repr, Inhabited

namespace Repl

def prompt (r : Repl) : String := if r.pending.isEmpty then "spi> " else "...> "

def extend (r : Repl) (line : Bytes) : Bytes :=
  if r.pending.isEmpty then line else r.pending ++ 0x0A :: line

def historyEntry (entry : Bytes) : Bytes := entry.map fun b => if b = 0x0A then 0x20 else b

def act (r : Repl) (entry : Bytes) : Repl × Shown :=
  let r := { r with pending := [] }
  if isBlank entry then (r, {})
  else if isCommand entry then
    if Text.isWord entry ":quit" || Text.isWord entry ":q" then ({ r with ended := true }, {})
    else (r, { out := unknownCommand })
  else
    ({ r with history := r.history.add (historyEntry entry) }, (runEntry r.config entry).1)

def feed (r : Repl) (line : Bytes) : Repl × Shown :=
  let text := r.extend line
  if isEntry text then r.act text else ({ r with pending := text }, {})

/-- Runs the loop on all lines of its input. At the end of the input an unfinished entry is
dropped. -/
def feedAll (r : Repl) : List Bytes → Repl × Shown
  | [] => (r, { out := r.prompt ++ "\n" })
  | line :: rest =>
    let (next, shown) := r.feed line
    let shown := { shown with out := r.prompt ++ shown.out }
    if next.ended then (next, shown)
    else
      let (last, more) := next.feedAll rest
      (last, shown ++ more)

end Repl

end MiniPascal
