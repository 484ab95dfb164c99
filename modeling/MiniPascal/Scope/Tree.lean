import MiniPascal.Scope

/-!
# Trees of scopes

Scopes are opened one after the other, each inside an earlier one or inside none, and any of them
can be extended at any time. Scopes are named by the order in which they were opened. A look-up
starts at a scope and goes on to the scopes around it.
-/
namespace MiniPascal

structure ScopeNode where
  scope : Scope
  parent : Option Nat := none
  deriving Repr, Inhabited

abbrev ScopeTree := List ScopeNode

namespace ScopeTree

/-- The scopes from number `i` outwards. A scope only lies inside an earlier one. -/
def chain (t : ScopeTree) (i : Nat) : List Scope :=
  match t[i]? with
  | none => []
  | some node =>
    node.scope ::
      match node.parent with
      | none => []
      | some p => if p < i then chain t p else []
termination_by i

/-- Opens a scope inside the scope number `parent`, or outside of all. -/
def openScope (t : ScopeTree) (name : String) (parent : Option Nat) : ScopeTree :=
  let level := match parent.bind fun p => t[p]? with
    | none => 1
    | some node => node.scope.level + 1
  t ++ [{ scope := { name, level }, parent }]

def insert (t : ScopeTree) (i : Nat) (symbol : Symbol) : Except ScopeError ScopeTree :=
  match t[i]? with
  | none => .error .notFound
  | some node =>
    match node.scope.insert? symbol with
    | none => .error .alreadyDefined
    | some scope => .ok (t.set i { node with scope })

def find (t : ScopeTree) (i : Nat) (name : String) : Except ScopeError Symbol :=
  match t[i]?.bind fun node => node.scope.find? name with
  | some symbol => .ok symbol
  | none => .error .notFound

def lookup (t : ScopeTree) (i : Nat) (name : String) : Except ScopeError Symbol :=
  match (t.chain i).findSome? fun scope => scope.find? name with
  | some symbol => .ok symbol
  | none => .error .notFound

def listing (t : ScopeTree) (i : Nat) : String :=
  match t.chain i with
  | [] => ""
  | scope :: outer => scope.listing (outer.head?.map Scope.name)

end ScopeTree

end MiniPascal
