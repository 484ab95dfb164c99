import MiniPascal.Syntax.Parser
import MiniPascal.Token.Lexing

/-!
# Reading trees from a source

The parser holds one token ahead, which it has taken from the lexer, and it reads the grammar of
`Parser` by descent. A token that is not taken is found out to be wrong without moving on; when a
token is taken the next one is read at once, so that a failure to read it counts right then. Either
way the first failure is reported where it is found and ends the reading.
-/
namespace MiniPascal

/-- The token ahead, and the cursor behind it. -/
structure Lookahead where
  ahead : Token
  cursor : Cursor

abbrev Parsing := Stage Diagnostic Lookahead

namespace Parsing

def peek : Parsing Token := Stage.ask Lookahead.ahead

def advance : Parsing Unit := do
  let ahead ← Stage.inside Lookahead.cursor (fun cursor s => { s with cursor }) Lexing.next
  Stage.change fun s => { s with ahead }

def fail {α : Type} (t : Token) (cause : Cause) : Parsing α :=
  Stage.fail (.atToken t cause)

def eat (kind : Kind) : Parsing Token := do
  let t ← peek
  if t.kind = kind then
    advance
    return t
  else fail t (.unexpected t.described kind)

def nextIs (kind : Kind) : Parsing Bool := do
  return (← peek).kind == kind

def sepBy {α : Type} (separator : Kind) (item : Parsing α) : Nat → Parsing (List α)
  | 0 => do return [← item]
  | n + 1 => do
    let first ← item
    if ← nextIs separator then
      let _ ← eat separator
      return first :: (← sepBy separator item n)
    else return [first]

def chain (isOperator : Kind → Bool) (operand : Parsing Expr) : Nat → Expr → Parsing Expr
  | 0, left => return left
  | n + 1, left => do
    let op ← peek
    if isOperator op.kind then
      advance
      let right ← operand
      chain isOperator operand n (.binary left op right)
    else return left

def term (factor : Parsing Expr) (n : Nat) : Parsing Expr := do
  chain Kind.isProductOp factor n (← factor)

def sum (factor : Parsing Expr) (n : Nat) : Parsing Expr := do
  chain Kind.isSign (term factor n) n (← term factor n)

def number (t : Token) : Parsing Expr := do
  match Value.ofLexeme? t.kind t.lexemeText with
  | some v =>
    advance
    return .number t v
  | none => fail t (.constantOutOfRange t.lexemeText)

def factor : Nat → Parsing Expr
  | 0 => do
    let t ← peek
    fail t (.expectedExpression t.described)
  | n + 1 => do
    let t ← peek
    match t.kind with
    | .plus | .minus =>
      advance
      return .unary t (← factor n)
    | .integerConst | .realConst => number t
    | .openParen =>
      advance
      let e ← sum (factor n) n
      let _ ← eat .closeParen
      return e
    | .identifier =>
      advance
      return .variable t
    | _ => fail t (.expectedExpression t.described)

def expression (n : Nat) : Parsing Expr := sum (factor n) n

def call (n : Nat) (name : Token) : Parsing Stmt := do
  let _ ← eat .openParen
  let args ← if ← nextIs .closeParen then pure [] else sepBy .comma (expression n) n
  let _ ← eat .closeParen
  return .call name args

def assignment (n : Nat) (target : Token) : Parsing Stmt := do
  let op ← eat .assign
  let value ← expression n
  return .assign target op value

def compound (statement : Parsing Stmt) (n : Nat) : Parsing (Token × List Stmt) := do
  let start ← eat .beginWord
  let children ← sepBy .semicolon statement n
  let _ ← eat .endWord
  return (start, children)

def statement : Nat → Parsing Stmt
  | 0 => do
    let _ ← peek
    return .empty
  | n + 1 => do
    match (← peek).kind with
    | .beginWord =>
      let (start, children) ← compound (statement n) n
      return .compound start children
    | .identifier =>
      let name ← eat .identifier
      if ← nextIs .openParen then call n name else assignment n name
    | _ => return .empty

def type : Parsing Token := do
  let t ← peek
  if t.kind.isBasicType then
    advance
    return t
  else fail t (.expectedType t.described)

def group (n : Nat) : Parsing (List Param) := do
  let names ← sepBy .comma (eat .identifier) n
  let _ ← eat .colon
  let type ← type
  return names.map fun name => { name, type }

def variableGroup (n : Nat) : Parsing (List Decl) := do
  let declared ← group n
  let _ ← eat .semicolon
  return declared.map fun p => .variable p.name p.type

def variableSection (n : Nat) : Nat → Parsing (List Decl)
  | 0 => variableGroup n
  | m + 1 => do
    let decls ← variableGroup n
    if ← nextIs .identifier then return decls ++ (← variableSection n m) else return decls

def params (n : Nat) : Parsing (List Param) := do
  if ← nextIs .openParen then
    let _ ← eat .openParen
    let groups ← sepBy .semicolon (group n) n
    let _ ← eat .closeParen
    return groups.flatten
  else return []

def procedure (block : Parsing Block) (n : Nat) : Parsing Decl := do
  let _ ← eat .procedureWord
  let name ← eat .identifier
  let params ← params n
  let _ ← eat .semicolon
  let block ← block
  let _ ← eat .semicolon
  return .procedure name params block

def declarations (block : Parsing Block) (n : Nat) : Nat → Parsing (List Decl)
  | 0 => do
    let _ ← peek
    return []
  | m + 1 => do
    match (← peek).kind with
    | .varWord =>
      let _ ← eat .varWord
      let decls ← variableSection n n
      return decls ++ (← declarations block n m)
    | .procedureWord =>
      let decl ← procedure block n
      return decl :: (← declarations block n m)
    | _ => return []

def block : Nat → Parsing Block
  | 0 => do return .mk [] (← eat .beginWord) []
  | n + 1 => do
    let decls ← declarations (block n) n (n + 1)
    let (start, body) ← compound (statement (n + 1)) (n + 1)
    return .mk decls start body

def program (n : Nat) : Parsing Program := do
  let _ ← eat .programWord
  let name ← eat .identifier
  let _ ← eat .semicolon
  let block ← block n
  let _ ← eat .dot
  let t ← peek
  if t.kind = .endOfFile then return { name, block }
  else fail t (.trailing t.described)

def whole {α : Type} (p : Parsing α) : Parsing α := do
  let a ← p
  let _ ← eat .endOfFile
  return a

/-- Reads the first token ahead and then what `p` reads, which is nested no deeper than there are
tokens. -/
def runOn {α : Type} (p : Nat → Parsing α) (c : Cursor) (j : Journal) :
    Except Diagnostic α × Journal :=
  match Lexing.next (c, j) with
  | (.error d, _, j) => (.error d, j)
  | (.ok ahead, cursor, j) =>
    let (result, _, j) := p c.stream.length ({ ahead, cursor }, j)
    (result, j)

def defaultFile : String := "test.pas"

end Parsing

def Program.read (file : String) (source : Bytes) (index : Nat) (j : Journal) :
    Except Diagnostic Program × Journal :=
  Parsing.runOn Parsing.program (.ofSource file source index) j

def Expr.read (file : String) (source : Bytes) (j : Journal) : Except Diagnostic Expr × Journal :=
  let file := if file.isEmpty then Parsing.defaultFile else file
  Parsing.runOn (fun n => Parsing.whole (Parsing.expression n)) (.ofSource file source) j

def Stmt.read (file : String) (source : Bytes) (j : Journal) : Except Diagnostic Stmt × Journal :=
  let file := if file.isEmpty then Parsing.defaultFile else file
  Parsing.runOn (fun n => Parsing.whole (Parsing.statement n)) (.ofSource file source) j

end MiniPascal
