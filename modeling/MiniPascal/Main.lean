import MiniPascal.CommandLine

/-!
# The program

The outer layer: it looks up the environment and the files that a command line can ask for, runs
the command, and writes what the command leaves. The interactive loop alone is driven from here,
line by line, so that each answer is shown before the next line is read.
-/
namespace MiniPascal.Main

def variableNames : List String := ["XDG_CONFIG_HOME", "HOME", "OS", "APPDATA"]

def environment : IO Environment :=
  variableNames.filterMapM fun name => return (← IO.getEnv name).map fun value => (name, value)

def readFile (path : String) : IO (Except FileError Bytes) := do
  try
    return .ok (← IO.FS.readBinFile path).toList
  catch e =>
    match e with
    | .noFileOrDirectory .. => return .error .missing
    | .inappropriateType none _ _ => return .error .isADirectory
    | .inappropriateType (some _) _ _ => return .error .notADirectory
    | e => return .error (.other (toString e))

def paths (env : Environment) (flags : Flags) : List String :=
  [flags.config, flags.args.headD ""] ++ (Config.defaultPath? env).toList ++
    (Config.directory? env directoryName).toList.map fun dir => Path.join [dir, History.fileName]

def world (env : Environment) (flags : Flags) : IO World := do
  let found ← (paths env flags).mapM fun path => return (path, ← readFile path)
  return {
    read := fun path => (List.lookup path found).getD (.error .missing)
    canMakeDirectory := fun _ => true
    canWrite := fun _ => true }

def write (s : Shown) : IO Unit := do
  IO.print s.out
  (← IO.getStdout).flush
  IO.eprint s.err

/-- Feeds lines to the loop, which asks for more when it has none left. -/
partial def converse (r : Repl) : List InputLine → IO Repl
  | line :: rest => do
    let (next, shown) := r.feed line.text
    write shown
    if next.ended then return next
    write { out := next.prompt }
    converse next rest
  | [] => do
    let line ← (← IO.getStdin).getLine
    if line.isEmpty then
      write { out := "\n" }
      return r
    converse r (inputLines (Text.encode line))

def save (env : Environment) (w : World) (h : History) : IO Unit := do
  match Config.directory? env directoryName, h.save w (History.path? w env) with
  | some dir, some (path, contents) =>
    try
      IO.FS.createDirAll dir
      IO.FS.writeBinFile path ⟨contents.toArray⟩
    catch _ => return
  | _, _ => return

def interact (env : Environment) (w : World) (c : Config) : IO Unit := do
  let start : Repl := { config := c, history := History.load w (History.path? w env) }
  write { out := Repl.banner ++ start.prompt }
  let last ← converse start []
  save env w last.history

def fail (e : CommandError) : IO UInt32 := do
  let message := e.message
  IO.eprint (if message.endsWith "\n" then message else message ++ "\n")
  return 1

def run (words : List String) : IO UInt32 := do
  let env ← environment
  match CommandLine.request words with
  | .error e => fail (.usage e)
  | .ok .help =>
    write { out := CommandLine.helpText }
    return 0
  | .ok (.command c flags) =>
    let w ← world env flags
    match c, CommandLine.configure w env flags with
    | _, .error e => fail e
    | .repl, .ok config =>
      interact env w config
      return 0
    | c, .ok config =>
      let (shown, failure) := CommandLine.output w config flags c
      write shown
      match failure with
      | some e => fail e
      | none => return 0

end MiniPascal.Main

def main (words : List String) : IO UInt32 := MiniPascal.Main.run words
