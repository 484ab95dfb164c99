import MiniPascal.Symbol
import MiniPascal.Text.Column

/-!
# Scopes

A scope holds the symbols declared at one level, in the order of their declaration and at most one
for each name. At any point of a program the scopes around it form a chain, and a name stands for
the symbol of the innermost scope that has it.
-/
namespace MiniPascal

structure Scope where
  name : String
  level : Int := 1
  symbols : List Symbol := []
  deriving Repr, Inhabited

inductive ScopeError
  | alreadyDefined
  | notFound
  deriving Repr, DecidableEq, Inhabited

def ScopeError.message : ScopeError → String
  | alreadyDefined => "symbol already defined on scope"
  | notFound => "symbol not found on scope"

namespace Scope

def find? (s : Scope) (name : String) : Option Symbol :=
  s.symbols.find? fun symbol => symbol.name == name

/-- Adds a symbol, which thereby gets the level of the scope. -/
def insert? (s : Scope) (symbol : Symbol) : Option Scope :=
  match s.find? symbol.name with
  | some _ => none
  | none => some { s with symbols := s.symbols ++ [symbol.atLevel s.level] }

/-- A scope as a table; `enclosing` is the name of the scope around it. -/
def listing (s : Scope) (enclosing : Option String) : String :=
  let header := "SCOPE (SCOPED SYMBOL TABLE)"
  let contents := "Scope (Scoped symbol table) contents"
  let underline (c : Char) (s : String) := String.ofList (List.replicate s.length c)
  let entry (label value : String) := Text.alignLeft 15 label ++ ": " ++ value
  let lines :=
    [header, underline '=' header, entry "Scope name" s.name,
      entry "Scope level" (toString s.level),
      entry "Enclosing scope" (enclosing.getD "None"), contents, underline '-' contents] ++
    s.symbols.map fun symbol => Text.alignRight 8 symbol.name ++ ": " ++ symbol.text
  String.join (lines.map (· ++ "\n"))

end Scope

/-- The chain of scopes at a point: the innermost one, and those around it from the inside out. -/
structure Scopes where
  current : Scope
  enclosing : List Scope := []
  deriving Repr, Inhabited

namespace Scopes

def lookup (s : Scopes) (name : String) : Option Symbol :=
  (s.current :: s.enclosing).findSome? fun scope => scope.find? name

def enter (s : Scopes) (name : String) : Scopes :=
  { current := { name, level := s.current.level + 1 }, enclosing := s.current :: s.enclosing }

/-- Adds a symbol to the current scope, which stays as it is if it has the name already. -/
def insert (s : Scopes) (symbol : Symbol) : Scopes :=
  { s with current := (s.current.insert? symbol).getD s.current }

def enclosingName (s : Scopes) : Option String := s.enclosing.head?.map Scope.name

end Scopes

end MiniPascal
