import MiniPascal.Path
import MiniPascal.Text.Utf8

/-!
# Files

A command reads a few files and may write one. What it can find out about files is given by a
`World`, so that commands are functions; `Files` is a world that consists of a directory with the
files listed in it.
-/
namespace MiniPascal

inductive FileError
  | missing
  | notADirectory
  | isADirectory
  | other (reason : String)
  deriving Repr, DecidableEq, Inhabited

def FileError.message (path : String) : FileError → String
  | missing => "open " ++ path ++ ": no such file or directory"
  | notADirectory => "open " ++ path ++ ": not a directory"
  | isADirectory => "read " ++ path ++ ": is a directory"
  | other reason => "open " ++ path ++ ": " ++ reason

structure World where
  read : String → Except FileError Bytes
  /-- Whether a directory exists or can be made. -/
  canMakeDirectory : String → Bool
  /-- Whether a file in an existing directory can be written. -/
  canWrite : String → Bool

/-- The files of a directory, under the elements of their paths. -/
abbrev Files := List (List String × Bytes)

namespace Files

inductive Entry
  | file (contents : Bytes)
  | directory
  deriving Repr, DecidableEq, Inhabited

def ofPaths (files : List (String × Bytes)) : Files :=
  files.map fun (path, contents) => (Path.elements (Path.clean path), contents)

/-- What is found at a path. A directory is there if a file is in it. -/
def entry? (f : Files) (path : List String) : Option Entry :=
  match List.lookup path f with
  | some contents => some (.file contents)
  | none => if path = [] ∨ f.any fun (p, _) => path.isPrefixOf p then some .directory else none

/-- Whether an element leads nowhere else or only outwards. -/
def isDots (element : String) : Bool := element = "" || element = "." || element = ".."

/-- Follows the elements of a path from a place in the directory. Outside of the directory nothing
but directories is known. -/
def walk (f : Files) (here : List String) : List String → Except FileError Entry
  | [] =>
    match f.entry? here with
    | some e => .ok e
    | none => .error .missing
  | element :: rest =>
    match f.entry? here with
    | none => .error .missing
    | some (.file _) => .error .notADirectory
    | some .directory =>
      if element = "" ∨ element = "." then walk f here rest
      else if element = ".." then
        if here = [] then if rest.all isDots then .ok .directory else .error .missing
        else walk f here.dropLast rest
      else walk f (here ++ [element]) rest

def locate (f : Files) (path : String) : Except FileError Entry :=
  if path.isEmpty then .error .missing
  else if Path.isRooted path then
    if (Path.elements path).all isDots then .ok .directory else .error .missing
  else walk f [] (Path.elements path)

def read (f : Files) (path : String) : Except FileError Bytes :=
  match f.locate path with
  | .ok (.file contents) => .ok contents
  | .ok .directory => .error .isADirectory
  | .error e => .error e

/-- A directory can be made where no file is in the way. -/
def canMakeDirectory (f : Files) (path : String) : Bool :=
  match f.locate path with
  | .ok .directory => true
  | .ok (.file _) => false
  | .error .missing => !Path.isRooted path
  | .error _ => false

def canWrite (f : Files) (path : String) : Bool :=
  match f.locate path with
  | .ok (.file _) => true
  | .ok .directory => false
  | .error .missing => !Path.isRooted path
  | .error _ => false

def world (f : Files) : World where
  read := f.read
  canMakeDirectory := f.canMakeDirectory
  canWrite := f.canWrite

end Files

end MiniPascal
