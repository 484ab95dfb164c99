import MiniPascal.Bindings
import MiniPascal.Text.Column

/-!
# Activation records and the call stack

Each activation of the program or of a procedure has a record: its name, its lexical level, its
static link to the record of the routine around it, and the values of its own variables.

Records are numbered in the order in which they are made, and none is ever forgotten; the call
stack lists the numbers of the live ones, the innermost first. A record is found along the static
links: `CallStack.enclosing` goes from a record outwards to the first one at a level.
-/
namespace MiniPascal

inductive RecordKind
  | program
  | procedure
  | other (number : Int)
  deriving Repr, DecidableEq, Inhabited

namespace RecordKind

def ofNumber : Int → RecordKind
  | 0 => program
  | 1 => procedure
  | n => other n

def text : RecordKind → String
  | program => "PROGRAM"
  | procedure => "PROCEDURE"
  | other n => "RecordKind(" ++ toString n ++ ")"

end RecordKind

structure Record where
  name : String
  kind : RecordKind := .program
  level : Int := 1
  /-- The number of the record of the lexically enclosing routine. -/
  link : Option Nat := none
  members : Bindings := []
  deriving Repr, DecidableEq, Inhabited

namespace Record

def set (r : Record) (name : String) (value : Value) : Record :=
  { r with members := r.members.set name value }

def title (r : Record) : String :=
  toString r.level ++ ": " ++ r.kind.text ++ " " ++ r.name

def text (r : Record) : String :=
  r.title ++ "\n" ++
    String.join (r.members.map fun (name, value) =>
      "   " ++ Text.alignLeft 20 name ++ ": " ++ value.text ++ "\n")

end Record

structure CallStack where
  records : Array Record := #[]
  live : List Nat := []
  deriving Repr, Inhabited

namespace CallStack

def get? (s : CallStack) (id : Nat) : Option Record := s.records[id]?

def nextId (s : CallStack) : Nat := s.records.size

def create (s : CallStack) (r : Record) : CallStack :=
  { s with records := s.records.push r }

def push (s : CallStack) (id : Nat) : CallStack :=
  { s with live := id :: s.live }

def pop (s : CallStack) : CallStack :=
  { s with live := s.live.tail }

def enter (s : CallStack) (r : Record) : CallStack :=
  let id := s.nextId
  (s.create r).push id

def top? (s : CallStack) : Option Nat := s.live.head?

def topRecord? (s : CallStack) : Option Record := s.top?.bind s.get?

def depth (s : CallStack) : Nat := s.live.length

def set (s : CallStack) (id : Nat) (name : String) (value : Value) : CallStack :=
  { s with records := s.records.modify id fun r => r.set name value }

/-- The first record at a level on the static chain of a record. Links lead to earlier records. -/
def enclosing (s : CallStack) (id : Nat) (level : Int) : Option Nat :=
  match s.get? id with
  | none => none
  | some r =>
    if r.level = level then some id
    else
      match r.link with
      | none => none
      | some outer => if outer < id then s.enclosing outer level else none
termination_by id

/-- The record at a level that the innermost live record sees. -/
def visible (s : CallStack) (level : Int) : Option Nat :=
  s.top?.bind fun id => s.enclosing id level

def frames (s : CallStack) : List Record := s.live.filterMap s.get?

def linkTitle (s : CallStack) (r : Record) : Option String :=
  (r.link.bind s.get?).map Record.title

def listing (frames : List Record) : String :=
  "CALL STACK\n" ++ String.join (frames.map fun r => r.text ++ "\n")

end CallStack

end MiniPascal
