import MiniPascal.Execution
import MiniPascal.Resolution.Annotating

/-!
# Running and reporting

The last stage runs a program with the resolution that it is given. It keeps the call stack, which
a failure leaves behind without its live records, and hands out a record when its body is complete.
An operation that goes wrong is reported at its operator, before the bodies around it are left.
-/
namespace MiniPascal

instance : Failure RunError where
  ofDiagnostic := .diagnostic
  diagnostic? := RunError.diagnostic?
  diagnostic?_ofDiagnostic _ := rfl

structure Interpreter where
  settings : Settings := {}
  resolution : Resolution := default
  stack : CallStack := {}
  /-- The records whose body was completed, as they were then, the last one first. -/
  returned : List Record := []
  deriving Repr, Inhabited

abbrev Interpreting := Stage RunError Interpreter

namespace Interpreting

def fail {α : Type} (t : Token) (cause : Cause) : Interpreting α :=
  Stage.fail (.atToken t cause)

def owner (t : Token) : Interpreting (Nat × Variable) := do
  match (← Stage.ask Interpreter.resolution).references.find? t.index with
  | none => throw (.unresolvedReference t)
  | some v =>
    match (← Stage.ask Interpreter.stack).visible v.level with
    | none => throw (.noFrame v.level v.name)
    | some id => return (id, v)

def read (t : Token) : Interpreting Value := do
  let (id, v) ← owner t
  let record ← Stage.ask fun i => i.stack.get? id
  match record.bind fun record => record.members.get? v.name with
  | some value => return value
  | none => fail t (.unbound v.name)

def operate (op : Token) : Except Value.OperationError Value → Interpreting Value
  | .ok v => return v
  | .error (.cause c) => fail op c
  | .error (.unknownOperator k) => throw (.unexpectedOperator k)

def evaluate : Expr → Interpreting Value
  | .number _ v => return v
  | .variable t => read t
  | .unary op e => do
    let v ← evaluate e
    operate op (Value.unary op.kind v)
  | .binary left op right => do
    let a ← evaluate left
    let b ← evaluate right
    operate op (Value.binary op.kind a b)

def evaluateAll : List Expr → Interpreting (List Value)
  | [] => return []
  | e :: rest => do
    let v ← evaluate e
    return v :: (← evaluateAll rest)

def log (event : List Record → CallEvent) : Interpreting Unit := do
  if (← Stage.ask Interpreter.settings).logged then
    Stage.print (event (← Stage.ask Interpreter.stack).frames).text

def enter (record : Record) : Interpreting Unit := do
  Stage.change fun i => { i with stack := i.stack.enter record }
  log (.entered record)

def leave : Interpreting Unit := do
  match (← Stage.ask Interpreter.stack).topRecord? with
  | none => return
  | some record =>
    log (.left record)
    Stage.change fun i => { i with returned := record :: i.returned }

/-- Runs a body in a new record, which is off the stack afterwards, also if the body fails. -/
def within {α : Type} (record : Record) (body : Interpreting α) : Interpreting α := do
  enter record
  Stage.finishing
    (do
      let a ← body
      leave
      return a)
    fun i => { i with stack := i.stack.pop }

def assign (target : Token) (value : Value) : Interpreting Unit := do
  let (id, v) ← owner target
  Stage.change fun i => { i with stack := i.stack.set id v.name value }

mutual

def statement (call : Token → List Expr → Interpreting Unit) : Stmt → Interpreting Unit
  | .compound _ children => statements call children
  | .assign target _ value => do
    let v ← evaluate value
    assign target v
  | .call name args => call name args
  | .empty => return

def statements (call : Token → List Expr → Interpreting Unit) : List Stmt → Interpreting Unit
  | [] => return
  | s :: rest => do
    statement call s
    statements call rest

end

def prepare (name : Token) (args : List Expr) : Interpreting (Procedure × List Value) := do
  match (← Stage.ask Interpreter.resolution).calls.find? name.index with
  | none => throw (.unresolvedCall name)
  | some p =>
    if args.length = p.params.length then
      let values ← evaluateAll args
      return (p, values)
    else fail name (.arity p.name p.params.length args.length)

def call : Nat → Token → List Expr → Interpreting Unit
  | 0, name, args => do
    let (p, _) ← prepare name args
    fail name (.depthExceeded p.name (← Stage.ask Interpreter.settings).maxDepth)
  | room + 1, name, args => do
    let (p, values) ← prepare name args
    let record ← Stage.ask fun i => Execution.callRecord i.stack p values
    within record (statements (call room) p.block.body)

def program (p : Program) : Interpreting Bindings :=
  within { name := p.name.name } do
    let settings ← Stage.ask Interpreter.settings
    statements (call (settings.maxDepth - 1).toNat) p.block.body
    Stage.ask fun i => i.stack.topRecord?.elim [] Record.members

def restart (r : Resolution) : Interpreting Unit :=
  Stage.change fun i => { settings := i.settings, resolution := r }

/-- The resolution that is given, or else one that is made without a log. -/
def resolution (p : Program) : Option Resolution → Interpreting Resolution
  | some r => return r
  | none => do
    let resolved ← Stage.through (Annotating.resolve p) {}
    return resolved.resolution

/-- Runs a program. One that cannot be resolved is not run. -/
def run (p : Program) (given : Option Resolution) : Interpreting Bindings := do
  Stage.change fun i => { i with returned := [] }
  restart (← resolution p given)
  program p

end Interpreting

end MiniPascal
