import MiniPascal.Pipeline
import MiniPascal.Syntax.Edit
import MiniPascal.Syntax.Node

/-!
# Sessions

A session reads, resolves and runs programs one after the other with one journal, one resolver and
one interpreter. It keeps the program read last and the resolution made last. The resolver and the
interpreter keep what they have been left with, finished or not, until they are used again.

Tokens are numbered on from one program to the next, so that a resolution of one program says
nothing about the nodes of another.
-/
namespace MiniPascal

structure Session where
  journal : Journal := {}
  annotator : Annotator := {}
  interpreter : Interpreter := {}
  program : Option Program := none
  resolution : Option Resolution := none
  /-- The index of the first token of the next program. -/
  nextIndex : Nat := 0

structure Step (α : Type) where
  answer : α
  session : Session

namespace Session

def start (logged : Bool) : Session where
  journal := { echoes := logged }
  annotator := { logged }
  interpreter := { settings := { logged } }

/-- Reads a program, which becomes the current one if that succeeds. -/
def parse (s : Session) (file : String) (source : Bytes) : Step (Except Diagnostic Program) :=
  let (answer, journal) := Program.read file source s.nextIndex s.journal
  let nextIndex := s.nextIndex + source.length + 1
  { answer, session := { s with journal, nextIndex, program := answer.toOption.or s.program } }

def resolve (s : Session) (p : Program) : Step (Except Diagnostic Resolved) :=
  let (answer, annotator, journal) := Annotating.resolve p (s.annotator, s.journal)
  let resolution := (answer.toOption.map Resolved.resolution).or s.resolution
  { answer, session := { s with journal, annotator, resolution } }

/-- Runs a program with the current resolution, or with one of its own if there is none. -/
def run (s : Session) (p : Program) : Step (Except RunError Bindings) :=
  let (answer, interpreter, journal) :=
    Interpreting.run p s.resolution (s.interpreter, s.journal)
  { answer, session := { s with journal, interpreter } }

def limit (s : Session) (maxDepth : Int) : Session :=
  let settings := { s.interpreter.settings with maxDepth }
  { s with interpreter := { s.interpreter with settings } }

def forget (s : Session) : Session := { s with resolution := none }

/-- Edits the current program, and its blocks in the current resolution. -/
def edit (s : Session) (e : Edit) : Session :=
  { s with
    program := s.program.map (Program.edit e)
    resolution := s.resolution.map (Resolution.edit e) }

def editAt (s : Session) (tokens : Program → List Token) (i : Nat) (e : Nat → Edit) : Session :=
  match s.program.bind fun p => (tokens p)[i]? with
  | some t => s.edit (e t.index)
  | none => s

def reviseAt (s : Session) (tokens : Program → List Token) (i : Nat)
    (f : Resolution → Nat → Resolution) : Session :=
  match s.program.bind fun p => (tokens p)[i]? with
  | some t => { s with resolution := s.resolution.map fun r => f r t.index }
  | none => s

def repeatArg (s : Session) (i : Nat) : Session := s.editAt Program.calls i Edit.repeatArg

def dropArg (s : Session) (i : Nat) : Session := s.editAt Program.calls i Edit.dropArg

def setOperatorKind (s : Session) (i : Nat) (kind : Kind) : Session :=
  s.editAt Program.operators i fun index => Edit.operatorKind index kind

/-- Changes the kind of a type, for all names declared with it. -/
def setTypeKind (s : Session) (i : Nat) (kind : Kind) : Session :=
  s.editAt Program.types i fun index => Edit.typeKind index kind

def dropReference (s : Session) (i : Nat) : Session :=
  s.reviseAt Program.references i fun r index => { r with references := r.references.erase index }

def dropCall (s : Session) (i : Nat) : Session :=
  s.reviseAt Program.calls i fun r index => { r with calls := r.calls.erase index }

def setReferenceLevel (s : Session) (i : Nat) (level : Int) : Session :=
  s.reviseAt Program.references i fun r index =>
    (r.references.find? index).elim r fun v => r.setVariableLevel v level

def setCallLevel (s : Session) (i : Nat) (level : Int) : Session :=
  s.reviseAt Program.calls i fun r index =>
    (r.calls.find? index).elim r fun p => r.setProcedureLevel p level

end Session

end MiniPascal
