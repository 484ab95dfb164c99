import MiniPascal.CallStack
import MiniPascal.Resolution

/-!
# Running programs

A resolved program runs on a call stack. A variable belongs to the record at its level on the
static chain of the innermost record; a new record of a procedure is linked to the record at the
level of the procedure. Expressions read records and never change them.

The number of live records is bounded: a call finds room for its record, or it is an error that the
stack is too deep. The room left is what the recursion of `Execution.call` counts down, so that
every run ends. A record leaves the stack when its body is done, and also when its body fails.
-/
namespace MiniPascal

/-- Why a run fails. All but diagnostics say that the program does not match its resolution. -/
inductive RunError
  | diagnostic (d : Diagnostic)
  | unresolvedReference (t : Token)
  | unresolvedCall (t : Token)
  | noFrame (level : Int) (name : String)
  | unexpectedOperator (op : Kind)
  deriving Repr, DecidableEq, Inhabited

namespace RunError

def diagnostic? : RunError → Option Diagnostic
  | diagnostic d => some d
  | _ => none

def message : RunError → String
  | diagnostic d => d.report
  | unresolvedReference t =>
    "interp: '" ++ t.name ++ "' at " ++ t.pos.bracketed ++ " was not resolved"
  | unresolvedCall t =>
    "interp: call to '" ++ t.name ++ "' at " ++ t.pos.bracketed ++ " was not resolved"
  | noFrame level name => "interp: no frame at level " ++ toString level ++ " for '" ++ name ++ "'"
  | unexpectedOperator op => "interp: unexpected operator " ++ op.text

def ofOperation (op : Token) : Value.OperationError → RunError
  | .cause c => .diagnostic (.atToken op c)
  | .unknownOperator k => .unexpectedOperator k

end RunError

/-- A record that is entered or left, with the live records at that moment. -/
inductive CallEvent
  | entered (record : Record) (frames : List Record)
  | left (record : Record) (frames : List Record)
  deriving Repr, Inhabited

def CallEvent.text : CallEvent → String
  | entered r frames =>
    "ENTER: " ++ r.kind.text ++ " " ++ r.name ++ "\n" ++ CallStack.listing frames
  | left r frames =>
    "LEAVE: " ++ r.kind.text ++ " " ++ r.name ++ "\n" ++ CallStack.listing frames

structure Settings where
  /-- The greatest number of live records, the record of the program included. -/
  maxDepth : Int := 1000
  /-- Whether calls are to be logged. -/
  logged : Bool := false
  deriving Repr, Inhabited

/-- The state of a run; what came last comes first. -/
structure Machine where
  stack : CallStack := {}
  /-- The records whose body was completed, as they were then. -/
  returned : List Record := []
  events : List CallEvent := []
  deriving Repr, Inhabited

abbrev Execution := ExceptT RunError (StateM Machine)

namespace Execution

def owner (r : Resolution) (s : CallStack) (t : Token) : Except RunError (Nat × Variable) :=
  match r.references.find? t.index with
  | none => .error (.unresolvedReference t)
  | some v =>
    match s.visible v.level with
    | none => .error (.noFrame v.level v.name)
    | some id => .ok (id, v)

def read (r : Resolution) (s : CallStack) (t : Token) : Except RunError Value := do
  let (id, v) ← owner r s t
  match (s.get? id).bind fun record => record.members.get? v.name with
  | some value => return value
  | none => throw (.diagnostic (.atToken t (.unbound v.name)))

def evaluate (r : Resolution) (s : CallStack) : Expr → Except RunError Value
  | .number _ v => .ok v
  | .variable t => read r s t
  | .unary op e => do
    let v ← evaluate r s e
    (Value.unary op.kind v).mapError (RunError.ofOperation op)
  | .binary left op right => do
    let a ← evaluate r s left
    let b ← evaluate r s right
    (Value.binary op.kind a b).mapError (RunError.ofOperation op)

def evaluateAll (r : Resolution) (s : CallStack) : List Expr → Except RunError (List Value)
  | [] => .ok []
  | e :: rest => do
    let v ← evaluate r s e
    return v :: (← evaluateAll r s rest)

/-- Something found out from the call stack without changing it. -/
def ask {α : Type} (f : CallStack → Except RunError α) : Execution α := do
  let m ← getThe Machine
  ExceptT.mk (pure (f m.stack))

def log (settings : Settings) (event : List Record → CallEvent) : Execution Unit :=
  modify fun m =>
    if settings.logged then { m with events := event m.stack.frames :: m.events } else m

def enter (settings : Settings) (record : Record) : Execution Unit := do
  modify fun m => { m with stack := m.stack.enter record }
  log settings (.entered record)

/-- Notes that the body of the innermost record is complete. -/
def leave (settings : Settings) : Execution Unit := do
  match (← getThe Machine).stack.topRecord? with
  | none => return
  | some record =>
    log settings (.left record)
    modify fun m => { m with returned := record :: m.returned }

def pop : Execution Unit :=
  modify fun m => { m with stack := m.stack.pop }

/-- Runs a body in a new record, which is off the stack afterwards, whether the body is completed
or fails. -/
def within {α : Type} (settings : Settings) (record : Record) (body : Execution α) :
    Execution α := do
  enter settings record
  try
    let a ← body
    leave settings
    pop
    return a
  catch e =>
    pop
    throw e

def assign (r : Resolution) (target : Token) (value : Value) : Execution Unit := do
  let (id, v) ← ask fun s => owner r s target
  modify fun m => { m with stack := m.stack.set id v.name value }

mutual

/-- Runs a statement; `call` runs the calls in it. -/
def statement (r : Resolution) (call : Token → List Expr → Execution Unit) :
    Stmt → Execution Unit
  | .compound _ children => statements r call children
  | .assign target _ value => do
    let v ← ask fun s => evaluate r s value
    assign r target v
  | .call name args => call name args
  | .empty => return

def statements (r : Resolution) (call : Token → List Expr → Execution Unit) :
    List Stmt → Execution Unit
  | [] => return
  | s :: rest => do
    statement r call s
    statements r call rest

end

def prepare (r : Resolution) (s : CallStack) (name : Token) (args : List Expr) :
    Except RunError (Procedure × List Value) :=
  match r.calls.find? name.index with
  | none => .error (.unresolvedCall name)
  | some p =>
    if args.length = p.params.length then do
      return (p, ← evaluateAll r s args)
    else
      .error (.diagnostic (.atToken name (.arity p.name p.params.length args.length)))

/-- The record of a call, linked to the record of the routine that declares the procedure. -/
def callRecord (s : CallStack) (p : Procedure) (values : List Value) : Record where
  name := p.name
  kind := .procedure
  level := p.level + 1
  link := s.visible p.level
  members := .ofList ((p.params.map Variable.name).zip values)

/-- Runs a call when there is room for a number of further records. -/
def call (settings : Settings) (r : Resolution) : Nat → Token → List Expr → Execution Unit
  | 0, name, args => do
    let (p, _) ← ask fun s => prepare r s name args
    throw (.diagnostic (.atToken name (.depthExceeded p.name settings.maxDepth)))
  | room + 1, name, args => do
    let (p, values) ← ask fun s => prepare r s name args
    let record ← ask fun s => .ok (callRecord s p values)
    within settings record (statements r (call settings r room) p.block.body)

def program (settings : Settings) (r : Resolution) (p : Program) : Execution Bindings :=
  within settings { name := p.name.name } do
    statements r (call settings r (settings.maxDepth - 1).toNat) p.block.body
    ask fun s => .ok (s.topRecord?.elim [] Record.members)

end Execution

/-- What a run leaves: its result, the records that were completed, the logged events, and the
call stack, of which only the records are left. -/
structure Outcome where
  result : Except RunError Bindings
  returned : List Record
  events : List CallEvent
  stack : CallStack

namespace Outcome

def after (answer : Except RunError Bindings) (m : Machine) : Outcome :=
  { result := answer, returned := m.returned.reverse, events := m.events.reverse, stack := m.stack }

def diagnostic? (o : Outcome) : Option Diagnostic :=
  match o.result with
  | .ok _ => none
  | .error e => e.diagnostic?

end Outcome

def Program.run (p : Program) (r : Resolution) (settings : Settings := {}) : Outcome :=
  let (result, m) := (Execution.program settings r p).run.run {}
  .after result m

def Program.resolveAndRun (p : Program) (settings : Settings := {}) : Outcome :=
  match p.resolve.1 with
  | .ok r => p.run r settings
  | .error d => .after (.error (.diagnostic d)) {}

end MiniPascal
