import MiniPascal.Scope

/-!
# Resolution

Resolving a program finds for every reference the variable and for every call the procedure that
its name stands for. The answers are kept in tables beside the tree, under the index of the token
of the reference or call.

A block is resolved in this order: no name may be declared twice; all its procedures become known,
so that they can call each other; then its declarations take effect one after the other, each
procedure being resolved where it stands; last comes the body. An assignment looks up its right
side first.
-/
namespace MiniPascal

/-- What is known about nodes, by the index of their token. -/
abbrev Table (α : Type) := List (Nat × α)

namespace Table

variable {α : Type}

def find? (t : Table α) (index : Nat) : Option α := List.lookup index t

def insert (t : Table α) (index : Nat) (a : α) : Table α :=
  (index, a) :: t.filter (·.1 != index)

def erase (t : Table α) (index : Nat) : Table α :=
  t.filter (·.1 != index)

end Table

structure Resolution where
  globals : Scope
  references : Table Variable
  calls : Table Procedure
  deriving Repr, Inhabited

inductive ScopeEvent
  | entered (scope : String)
  | inserted (name : String)
  | lookedUp (name scope : String)
  | left (scope : Scope) (enclosing : Option String)
  deriving Repr, Inhabited

def ScopeEvent.text : ScopeEvent → String
  | entered scope => "ENTER scope: " ++ scope ++ "\n"
  | inserted name => "Insert: " ++ name ++ "\n"
  | lookedUp name scope => "Lookup: " ++ name ++ ". (Scope name: " ++ scope ++ ")\n"
  | left scope enclosing => scope.listing enclosing ++ "LEAVE scope: " ++ scope.name ++ "\n"

/-- What has been found out so far; the last event comes first. -/
structure Findings where
  references : Table Variable := []
  calls : Table Procedure := []
  events : List ScopeEvent := []
  deriving Repr, Inhabited

abbrev Resolver := ExceptT Diagnostic (StateM Findings)

namespace Resolver

def note (e : ScopeEvent) : Resolver Unit :=
  modify fun f => { f with events := e :: f.events }

def fail {α : Type} (t : Token) (cause : Cause) : Resolver α :=
  throw (.atToken t cause)

def insert (scopes : Scopes) (symbol : Symbol) : Resolver Scopes := do
  note (.inserted symbol.name)
  return scopes.insert symbol

def type (scopes : Scopes) (t : Token) : Resolver Unit :=
  match scopes.lookup t.kind.text with
  | some (.builtinType ..) => return
  | _ => fail t (.typeNotFound t.kind.text)

def reference (scopes : Scopes) (t : Token) : Resolver Unit := do
  note (.lookedUp t.name scopes.current.name)
  match scopes.lookup t.name with
  | some (.variable v) => modify fun f => { f with references := f.references.insert t.index v }
  | _ => fail t (.variableNotFound t.name)

def expression (scopes : Scopes) : Expr → Resolver Unit
  | .number .. => return
  | .variable t => reference scopes t
  | .unary _ e => expression scopes e
  | .binary l _ r => do
    expression scopes l
    expression scopes r

def expressions (scopes : Scopes) : List Expr → Resolver Unit
  | [] => return
  | e :: rest => do
    expression scopes e
    expressions scopes rest

def call (scopes : Scopes) (name : Token) (args : List Expr) : Resolver Unit := do
  note (.lookedUp name.name scopes.current.name)
  match scopes.lookup name.name with
  | some (.procedure p) =>
    if args.length = p.params.length then
      expressions scopes args
      modify fun f => { f with calls := f.calls.insert name.index p }
    else fail name (.arity name.name p.params.length args.length)
  | _ => fail name (.procedureNotFound name.name)

mutual

def statement (scopes : Scopes) : Stmt → Resolver Unit
  | .compound _ children => statements scopes children
  | .assign target _ value => do
    expression scopes value
    reference scopes target
  | .call name args => call scopes name args
  | .empty => return

def statements (scopes : Scopes) : List Stmt → Resolver Unit
  | [] => return
  | s :: rest => do
    statement scopes s
    statements scopes rest

end

/-- The first of some names that equals a taken name or an earlier one of them. -/
def firstRepeated (taken : List String) : List Token → Option Token
  | [] => none
  | t :: rest => if taken.contains t.name then some t else firstRepeated (t.name :: taken) rest

def noRepetition (scopes : Scopes) (decls : List Decl) : Resolver Unit :=
  match firstRepeated (scopes.current.symbols.map Symbol.name) (decls.map Decl.name) with
  | some t => fail t (.duplicate t.name)
  | none => return

def types (scopes : Scopes) : List Param → Resolver Unit
  | [] => return
  | p :: rest => do
    type scopes p.type
    types scopes rest

def procedures (scopes : Scopes) : List Decl → Resolver Scopes
  | [] => return scopes
  | .variable .. :: rest => procedures scopes rest
  | .procedure name params block :: rest => do
    types scopes params
    let p := Procedure.declared scopes.current.level name params block
    procedures (← insert scopes (.procedure p)) rest

def params (scopes : Scopes) : List Param → Resolver Scopes
  | [] => return scopes
  | p :: rest => do
    if (scopes.current.find? p.name.name).isSome then fail p.name (.duplicate p.name.name)
    else
      let v := Variable.declared scopes.current.level p.name p.type
      params (← insert scopes (.variable v)) rest

def enter (scopes : Scopes) (name : String) : Resolver Scopes := do
  note (.entered name)
  return scopes.enter name

def leave (scopes : Scopes) : Resolver Unit :=
  note (.left scopes.current scopes.enclosingName)

mutual

/-- Resolves a declaration and returns the scopes behind it. -/
def declaration (scopes : Scopes) : Decl → Resolver Scopes
  | .variable name type => do
    Resolver.type scopes type
    insert scopes (.variable (.declared scopes.current.level name type))
  | .procedure name params block => do
    let inner ← enter scopes name.name
    let inner ← Resolver.params inner params
    let inner ← Resolver.block inner block
    leave inner
    return scopes

def declarations (scopes : Scopes) : List Decl → Resolver Scopes
  | [] => return scopes
  | d :: rest => do
    let scopes ← declaration scopes d
    declarations scopes rest

/-- Resolves a block and returns the scopes that its body sees. -/
def block (scopes : Scopes) : Block → Resolver Scopes
  | .mk decls _ body => do
    noRepetition scopes decls
    let scopes ← procedures scopes decls
    let scopes ← declarations scopes decls
    statements scopes body
    return scopes

end

def builtins : List Symbol :=
  [.builtinType Kind.integerWord.text 0, .builtinType Kind.realWord.text 0]

def inserts (scopes : Scopes) : List Symbol → Resolver Scopes
  | [] => return scopes
  | s :: rest => do inserts (← insert scopes s) rest

def restart : Resolver Unit :=
  modify fun f => { f with references := [], calls := [], events := [] }

def program (p : Program) : Resolver Scope := do
  note (.entered "global")
  let scopes ← inserts { current := { name := "global" } } builtins
  let scopes ← block scopes p.block
  leave scopes
  return scopes.current

end Resolver

/-- Resolves a program. The events show how far the resolution came. -/
def Program.resolve (p : Program) : Except Diagnostic Resolution × List ScopeEvent :=
  match (Resolver.program p).run.run {} with
  | (.ok globals, f) =>
    (.ok { globals, references := f.references, calls := f.calls }, f.events.reverse)
  | (.error d, f) => (.error d, f.events.reverse)

/-- Resolves a program where others may have been resolved before, and gives what has been found out
about it, also if that fails. -/
def Findings.resolve (f : Findings) (p : Program) : Except Diagnostic Resolution × Findings :=
  let (result, f) := (do Resolver.restart; Resolver.program p : Resolver Scope).run.run f
  (result.map fun globals => { globals, references := f.references, calls := f.calls }, f)

end MiniPascal
