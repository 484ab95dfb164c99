import MiniPascal.Path
import MiniPascal.Text.Blank
import MiniPascal.Text.Quoted
import MiniPascal.Yaml.Writer

/-!
# Configuration

The configuration says which logs are written and in which format results are printed. It is kept
in a file in the program's own directory among those of other programs.
-/
namespace MiniPascal

inductive Format
  | text
  | yaml
  deriving Repr, DecidableEq, Inhabited

def directoryName : String := "spi"

namespace Format

def name : Format → String
  | text => "text"
  | yaml => "yaml"

def nameOfNumber (n : Int) : String :=
  if n = 0 then text.name else if n = 1 then yaml.name else "unknown"

/-- Formats are named in any letter case, with blanks around; no name means text. -/
def ofBytes? (bytes : Bytes) : Option Format :=
  if Text.isWord bytes "" || Text.isWord bytes "text" then some text
  else if Text.isWord bytes "yaml" || Text.isWord bytes "yml" then some yaml
  else none

def unknownMessage (bytes : Bytes) : String :=
  "unknown output format " ++ Text.quote bytes ++ " (want text or yaml)"

end Format

structure Config where
  logScope : Bool := false
  logStack : Bool := false
  format : Format := .text
  deriving Repr, DecidableEq, Inhabited

namespace Config

def doc (c : Config) : Yaml.Doc :=
  .mapping
    [("log_scope", .plain (toString c.logScope)), ("log_stack", .plain (toString c.logStack)),
      ("format", .string c.format.name)]

end Config

abbrev Environment := List (String × String)

def Environment.value (env : Environment) (name : String) : String :=
  (List.lookup name env).getD ""

namespace Config

def noHomeMessage : String := "could not determine home directory"

/-- The configuration directory of a program, or none if there is no home directory to put it in. -/
def directory? (env : Environment) (app : String) : Option String :=
  let configHome := env.value "XDG_CONFIG_HOME"
  let home := env.value "HOME"
  if configHome ≠ "" then some (Path.join [configHome, app])
  else if home = "" then none
  else if env.value "OS" = "Windows_NT" then some (Path.join [env.value "APPDATA", app])
  else some (Path.join [home, ".config", app])

end Config

end MiniPascal
