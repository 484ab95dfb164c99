import MiniPascal.CommandLine.Flags
import MiniPascal.Config.Settings
import MiniPascal.Files
import MiniPascal.Repl

/-!
# Commands

`run` prints the bindings that a program leaves, `resolve` the program with its names resolved,
`tokens` its tokens; `repl` starts the interactive loop. A command line is checked in this order:
the name of the command, its flags, the number of its arguments, the configuration file, the format
flag, and last the program file.
-/
namespace MiniPascal

inductive CommandError
  | usage (e : UsageError)
  | configFile (path : String) (e : FileError)
  | config (path : String) (e : ConfigError)
  | format (value : String)
  | programFile (path : String) (e : FileError)
  | run (e : RunError)
  deriving Repr, Inhabited

namespace CommandError

def message : CommandError → String
  | usage e => e.message
  | configFile path e => "config: " ++ e.message path
  | config path e => Config.parseMessage path e
  | format value => Format.unknownMessage (Text.encode value)
  | programFile path e => "reading " ++ path ++ ": " ++ e.message path
  | run e => e.message

def diagnostic? : CommandError → Option Diagnostic
  | run e => e.diagnostic?
  | _ => none

end CommandError

namespace Config

def fileName : String := "config.yaml"

def defaultPath? (env : Environment) : Option String :=
  (directory? env directoryName).map fun dir => Path.join [dir, fileName]

/-- Loads the configuration from a path, or from the default file if the path is empty. Only the
default file may be missing. -/
def load (w : World) (env : Environment) (path : String) : Except CommandError Config :=
  let parse (path : String) (bytes : Bytes) : Except CommandError Config :=
    (ofBytes bytes).mapError (.config path)
  if path ≠ "" then
    match w.read path with
    | .ok bytes => parse path bytes
    | .error e => .error (.configFile path e)
  else
    match defaultPath? env with
    | none => .ok {}
    | some path =>
      match w.read path with
      | .ok bytes => parse path bytes
      | .error .missing => .ok {}
      | .error e => .error (.configFile path e)

def withFlags (c : Config) (f : Flags) : Except CommandError Config :=
  let c := { c with logScope := f.scope.getD c.logScope, logStack := f.stack.getD c.logStack }
  match f.format with
  | none => .ok c
  | some name =>
    match Format.ofBytes? (Text.encode name) with
    | some format => .ok { c with format }
    | none => .error (.format name)

end Config

namespace History

def fileName : String := "history"

def path? (w : World) (env : Environment) : Option String :=
  (Config.directory? env directoryName).bind fun dir =>
    if w.canMakeDirectory dir then some (Path.join [dir, fileName]) else none

def load (w : World) (path : Option String) : History :=
  match path.map w.read with
  | some (.ok bytes) => ofBytes bytes
  | _ => {}

def save (w : World) (path : Option String) (h : History) : Option (String × Bytes) :=
  path.bind fun path => if w.canWrite path then some (path, h.toBytes) else none

end History

inductive Request
  | help
  | command (c : Command) (flags : Flags)
  deriving Repr, Inhabited

structure CommandResult where
  shown : Shown := {}
  failure : Option CommandError := none
  saved : Option (String × Bytes) := none
  deriving Inhabited

namespace CommandLine

def helpText : String :=
  "spi lexes, parses, resolves and interprets programs written in a small\n" ++
  "subset of Pascal: integer and real variables, nested procedures with value\n" ++
  "parameters, and arithmetic expressions.\n\n" ++
  "Commands:\n" ++
  "  run      Run a program and print the final values of its variables\n" ++
  "  resolve  Print the program annotated with nesting levels and types\n" ++
  "  tokens   Print the token stream of a program\n" ++
  "  repl     Read programs interactively and run them\n"

def checkArgs (c : Command) (args : List String) : Except UsageError Unit :=
  match c, args with
  | .repl, [] => .ok ()
  | .repl, word :: _ => .error (.unexpectedArgument word c)
  | _, [_] => .ok ()
  | _, args => .error (.argumentCount 1 args.length)

def request (words : List String) : Except UsageError Request :=
  match Flags.commandWords words with
  | [] => do
    let _ ← Flags.read {} false words
    return .help
  | name :: _ =>
    if name = "help" ∨ name = "completion" then .ok .help
    else
      match Command.ofName? name with
      | none => .error (.unknownCommand name (suggestions name))
      | some c => do
        let flags ← Flags.read {} false (Flags.withoutCommand name words)
        if flags.help then return .help
        checkArgs c flags.args
        return .command c flags

def configure (w : World) (env : Environment) (flags : Flags) : Except CommandError Config := do
  let c ← Config.load w env flags.config
  c.withFlags flags

def source (w : World) (flags : Flags) : Except CommandError (String × Bytes) :=
  let path := flags.args.headD ""
  match w.read path with
  | .ok bytes => .ok (Path.base path, bytes)
  | .error e => .error (.programFile path e)

def parse (w : World) (flags : Flags) : Except CommandError Program × Journal :=
  match source w flags with
  | .error e => (.error e, {})
  | .ok (file, bytes) =>
    let (answer, j) := Program.read file bytes 0 {}
    (answer.mapError fun d => .run (.diagnostic d), j)

def output (w : World) (c : Config) (flags : Flags) : Command → Shown × Option CommandError
  | .run =>
    match parse w flags with
    | (.error e, _) => ({}, some e)
    | (.ok p, j) =>
      match c.evaluate p j with
      | (.ok b, j) => ({ out := b.print c.format, err := j.log }, none)
      | (.error e, j) => ({ err := j.log }, some (.run e))
  | .resolve =>
    match parse w flags with
    | (.error e, _) => ({}, some e)
    | (.ok p, j) =>
      match Annotating.resolve p ({ logged := c.logScope }, j) with
      | (.ok r, _, j) => ({ out := r.print c.format, err := j.log }, none)
      | (.error d, _, j) => ({ err := j.log }, some (.run (.diagnostic d)))
  | .tokens =>
    match source w flags with
    | .error e => ({}, some e)
    | .ok (file, bytes) =>
      match (TokenStream.ofSource file bytes).toExcept with
      | .ok tokens => ({ out := Token.printAll tokens c.format }, none)
      | .error d => ({}, some (.run (.diagnostic d)))
  | .repl => ({}, none)

def runLoop (w : World) (env : Environment) (c : Config) (input : Bytes) : CommandResult :=
  let path := History.path? w env
  let start : Repl := { config := c, history := History.load w path }
  let (last, shown) := start.feedAll ((inputLines input).map InputLine.text)
  { shown := { shown with out := Repl.banner ++ shown.out }, saved := last.history.save w path }

def run (w : World) (env : Environment) (words : List String) (input : Bytes) : CommandResult :=
  match request words with
  | .error e => { failure := some (.usage e) }
  | .ok .help => { shown := { out := helpText } }
  | .ok (.command c flags) =>
    match configure w env flags with
    | .error e => { failure := some e }
    | .ok config =>
      if c = .repl then runLoop w env config input
      else
        let (shown, failure) := output w config flags c
        { shown, failure }

end CommandLine

end MiniPascal
