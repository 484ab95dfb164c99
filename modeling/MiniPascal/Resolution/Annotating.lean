import MiniPascal.Resolution.Rendering
import MiniPascal.Stage

/-!
# Resolving and annotating

The second stage resolves a program and renders it at the same time: what stands for a name in the
text shows what the name was found to stand for. It keeps the scopes that are open, which a failure
leaves open, the tables, and the text so far; all of them are dropped when the next program is
resolved.
-/
namespace MiniPascal

structure Annotator where
  /-- The open scopes, the innermost first. -/
  scopes : List Scope := []
  references : Table Variable := []
  calls : Table Procedure := []
  out : String := ""
  /-- Whether scopes and look-ups are logged. -/
  logged : Bool := false
  deriving Repr, Inhabited

namespace Annotator

def current (a : Annotator) : Scope := a.scopes.headD default

def lookup (a : Annotator) (name : String) : Option Symbol :=
  a.scopes.findSome? fun scope => scope.find? name

def nextLevel (a : Annotator) : Int :=
  match a.scopes with
  | [] => 1
  | scope :: _ => scope.level + 1

def enter (a : Annotator) (name : String) : Annotator :=
  { a with scopes := { name, level := a.nextLevel } :: a.scopes }

/-- Inserts a symbol into the innermost scope, if that does not have its name. -/
def insert (a : Annotator) (symbol : Symbol) : Annotator :=
  match a.scopes with
  | [] => a
  | scope :: outer => { a with scopes := (scope.insert? symbol).getD scope :: outer }

def leave (a : Annotator) : Annotator := { a with scopes := a.scopes.tail }

end Annotator

structure Resolved where
  resolution : Resolution
  output : String
  deriving Repr, Inhabited

abbrev Annotating := Stage Diagnostic Annotator

namespace Annotating

def log (e : ScopeEvent) : Annotating Unit := do
  if ← Stage.ask Annotator.logged then Stage.print e.text

def line (indent : Nat) (s : String) : Annotating Unit :=
  Stage.change fun a => { a with out := a.out ++ renderedLine indent s }

def fail {α : Type} (t : Token) (cause : Cause) : Annotating α :=
  Stage.fail (.atToken t cause)

def insert (symbol : Symbol) : Annotating Unit := do
  log (.inserted symbol.name)
  Stage.change fun a => a.insert symbol

def checkNew (t : Token) : Annotating Unit := do
  if ((← Stage.ask Annotator.current).find? t.name).isSome then fail t (.duplicate t.name)

def type (t : Token) : Annotating Unit := do
  match ← Stage.ask fun a => a.lookup t.kind.text with
  | some (.builtinType ..) => return
  | _ => fail t (.typeNotFound t.kind.text)

def lookUp (t : Token) : Annotating (Option Symbol) := do
  log (.lookedUp t.name (← Stage.ask Annotator.current).name)
  Stage.ask fun a => a.lookup t.name

def reference (t : Token) : Annotating String := do
  match ← lookUp t with
  | some (.variable v) =>
    Stage.change fun a => { a with references := a.references.insert t.index v }
    return "<" ++ t.name ++ toString v.level ++ ":" ++ v.typeName ++ ">"
  | _ => fail t (.variableNotFound t.name)

def expression : Expr → Annotating String
  | .number t _ => return t.text
  | .variable t => reference t
  | .unary op e => do
    let operand ← expression e
    return op.kind.text ++ inBrackets (e.precedence < 3) operand
  | .binary left op right => do
    let a ← expression left
    let b ← expression right
    let p := (Expr.binary left op right).precedence
    return inBrackets (left.precedence < p) a ++ " " ++ op.kind.text ++ " " ++
      inBrackets (right.precedence ≤ p) b

def expressions : List Expr → Annotating (List String)
  | [] => return []
  | e :: rest => do
    let first ← expression e
    return first :: (← expressions rest)

def call (name : Token) (args : List Expr) : Annotating String := do
  match ← lookUp name with
  | some (.procedure p) =>
    if args.length = p.params.length then
      let shown ← expressions args
      Stage.change fun a => { a with calls := a.calls.insert name.index p }
      return name.name ++ toString p.level ++ "(" ++ String.intercalate ", " shown ++ ")"
    else fail name (.arity name.name p.params.length args.length)
  | _ => fail name (.procedureNotFound name.name)

mutual

def statement (indent : Nat) : Stmt → Annotating Unit
  | .compound _ children => do
    line indent "begin"
    statements (indent + 1) children
    line indent "end;"
  | .assign target _ value => do
    let right ← expression value
    let left ← reference target
    line indent (left ++ " := " ++ right ++ ";")
  | .call name args => do
    let shown ← call name args
    line indent (shown ++ ";")
  | .empty => return

def statements (indent : Nat) : List Stmt → Annotating Unit
  | [] => return
  | s :: rest => do
    statement indent s
    statements indent rest

end

def noRepetition (decls : List Decl) : Annotating Unit := do
  let taken := (← Stage.ask Annotator.current).symbols.map Symbol.name
  match Resolver.firstRepeated taken (decls.map Decl.name) with
  | some t => fail t (.duplicate t.name)
  | none => return

def types : List Param → Annotating Unit
  | [] => return
  | p :: rest => do
    type p.type
    types rest

def procedures : List Decl → Annotating Unit
  | [] => return
  | .variable .. :: rest => procedures rest
  | .procedure name params block :: rest => do
    checkNew name
    types params
    let level := (← Stage.ask Annotator.current).level
    insert (.procedure (.declared level name params block))
    procedures rest

def params : List Param → Annotating (List String)
  | [] => return []
  | p :: rest => do
    checkNew p.name
    let level := (← Stage.ask Annotator.current).level
    insert (.variable (.declared level p.name p.type))
    return (p.name.name ++ toString level ++ " : " ++ p.type.kind.text) :: (← params rest)

def enter (name : String) : Annotating Unit := do
  log (.entered name)
  Stage.change fun a => a.enter name

def leave : Annotating Unit := do
  let outer := (← Stage.ask Annotator.leave).scopes
  log (.left (← Stage.ask Annotator.current) (outer.head?.map Scope.name))
  Stage.change Annotator.leave

mutual

def declaration (indent : Nat) : Decl → Annotating Unit
  | .variable name type => do
    Annotating.type type
    checkNew name
    let level := (← Stage.ask Annotator.current).level
    insert (.variable (.declared level name type))
    line indent ("var " ++ name.name ++ toString level ++ " : " ++ type.kind.text ++ ";")
  | .procedure name params block => do
    let level := (← Stage.ask Annotator.current).level
    enter name.name
    let shown ← Annotating.params params
    let shown := if shown.isEmpty then "" else "(" ++ String.intercalate "; " shown ++ ")"
    line indent ("procedure " ++ name.name ++ toString level ++ shown ++ ";")
    Annotating.block (indent + 1) (indent + 1) block
    line (indent + 1) ("end;" ++ endComment name)
    leave

def declarations (indent : Nat) : List Decl → Annotating Unit
  | [] => return
  | d :: rest => do
    declaration indent d
    declarations indent rest

def block (declIndent bodyIndent : Nat) : Block → Annotating Unit
  | .mk decls _ body => do
    noRepetition decls
    procedures decls
    declarations declIndent decls
    line bodyIndent "begin"
    statements (bodyIndent + 1) body

end

def inserts : List Symbol → Annotating Unit
  | [] => return
  | s :: rest => do
    insert s
    inserts rest

def program (p : Program) : Annotating Scope := do
  enter "global"
  inserts Resolver.builtins
  line 0 ("program " ++ p.name.name ++ "0;")
  block 1 0 p.block
  line 0 ("end." ++ endComment p.name)
  let globals ← Stage.ask Annotator.current
  leave
  return globals

def restart : Annotating Unit := Stage.change fun a => { logged := a.logged }

def resolve (p : Program) : Annotating Resolved := do
  restart
  let globals ← program p
  Stage.ask fun a =>
    { resolution := { globals, references := a.references, calls := a.calls }, output := a.out }

end Annotating

end MiniPascal
