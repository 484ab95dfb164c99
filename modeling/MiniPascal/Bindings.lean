import MiniPascal.Value

/-!
# Bindings

Bindings give values to names, in the order in which the names were first bound. A new value for a
name takes the place of the old one. They are shown sorted by name.
-/
namespace MiniPascal

abbrev Bindings := List (String × Value)

namespace Bindings

def get? (b : Bindings) (name : String) : Option Value := List.lookup name b

def set (name : String) (value : Value) : Bindings → Bindings
  | [] => [(name, value)]
  | (n, v) :: rest => if n = name then (n, value) :: rest else (n, v) :: set name value rest

def ofList (items : List (String × Value)) : Bindings :=
  items.foldl (fun b (name, value) => set name value b) []

/-- The bindings in the order of their names, compared character by character. -/
def sorted (b : Bindings) : Bindings :=
  b.mergeSort fun x y => x.1 ≤ y.1

def names (b : Bindings) : List String := b.sorted.map Prod.fst

def text (b : Bindings) : String :=
  String.join (b.sorted.map fun (name, value) => name ++ " = " ++ value.text ++ "\n")

end Bindings

end MiniPascal
