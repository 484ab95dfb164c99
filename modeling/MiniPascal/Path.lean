/-!
# Paths

Paths are texts with slashes. `Path.clean` gives the shortest path with the same meaning: no empty
elements, no `.`, and no `..` behind another element; a `..` at the root goes nowhere.
-/
namespace MiniPascal.Path

def elements (path : String) : List String := path.splitOn "/"

def isRooted (path : String) : Bool := path.startsWith "/"

/-- Adds an element behind the elements of a clean path, which are given in reverse. -/
def step (rooted : Bool) (reversed : List String) (element : String) : List String :=
  if element = "" ∨ element = "." then reversed
  else if element = ".." then
    match reversed with
    | [] => if rooted then [] else [".."]
    | last :: rest => if last = ".." then ".." :: reversed else rest
  else element :: reversed

def clean (path : String) : String :=
  let rooted := isRooted path
  let text := String.intercalate "/" ((elements path).foldl (step rooted) []).reverse
  if rooted then "/" ++ text else if text.isEmpty then "." else text

/-- Joins paths with slashes; empty ones are left out, and joining nothing gives nothing. -/
def join (parts : List String) : String :=
  match parts.filter (· ≠ "") with
  | [] => ""
  | parts => clean (String.intercalate "/" parts)

def base (path : String) : String :=
  if path.isEmpty then "."
  else
    match (elements path).reverse.find? (· ≠ "") with
    | some element => element
    | none => "/"

end MiniPascal.Path
