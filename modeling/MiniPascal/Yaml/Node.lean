import MiniPascal.Yaml.Scalar

/-!
# YAML documents as trees

Every node has a tag, which is given in the text or follows from what the node is. A node can be
named by an anchor; an alias stands for a named node.
-/
namespace MiniPascal.Yaml

/-- A part of a document, with the line on which it starts, counted from one. -/
inductive Node
  | scalar (tag value : String) (line : Nat)
  | sequence (tag : String) (items : List Node) (line : Nat)
  | mapping (tag : String) (entries : List (Node × Node)) (line : Nat)
  /-- An alias with the node that it stands for. If that node is around the alias it is given
  without what is inside it. -/
  | reference (name : String) (around : Bool) (target : Node) (line : Nat)
  deriving Repr, Inhabited

namespace Node

def sequenceTag : String := "!!seq"

def mappingTag : String := "!!map"

def mergeTag : String := "!!merge"

def binaryTag : String := "!!binary"

def line : Node → Nat
  | scalar _ _ line => line
  | sequence _ _ line => line
  | mapping _ _ line => line
  | reference _ _ _ line => line

def tag : Node → String
  | scalar tag _ _ => tag
  | sequence tag _ _ => tag
  | mapping tag _ _ => tag
  | reference _ _ target _ => target.tag

def value : Node → String
  | scalar _ value _ => value
  | reference name _ _ _ => name
  | _ => ""

def target : Node → Node
  | reference _ _ target _ => target
  | node => node

/-- Whether two nodes count as the same key: nodes of one kind, and of one text if they have any. -/
def sameKey : Node → Node → Bool
  | scalar _ a _, scalar _ b _ => a = b
  | reference a _ _ _, reference b _ _ _ => a = b
  | sequence .., sequence .. => true
  | mapping .., mapping .. => true
  | _, _ => false

def isMerge : Node → Bool
  | scalar tag value _ => value = "<<" && tag = mergeTag
  | _ => false

def ownTag (value : String) (plain : Bool) : String :=
  if !plain then Tag.str.text
  else if value = "<<" then mergeTag
  else (tagOf value).text

def standardPrefix : String := "tag:yaml.org,2002:"

def shortTag (tag : String) : String :=
  let start := standardPrefix.toList
  if start.isPrefixOf tag.toList then "!!" ++ String.ofList (tag.toList.drop start.length) else tag

end Node

end MiniPascal.Yaml
