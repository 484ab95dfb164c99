import MiniPascal.Syntax
import MiniPascal.Token.Stream

/-!
# Reading trees from tokens

The grammar is read by descent with one token of lookahead:

    program      = "program" name ";" block "."
    block        = { "var" group ";" { group ";" } | procedure } compound
    group        = name { "," name } ":" type
    procedure    = "procedure" name [ "(" group { ";" group } ")" ] ";" block ";"
    compound     = "begin" statement { ";" statement } "end"
    statement    = compound | name ":=" expression | name "(" [ arguments ] ")" | nothing
    arguments    = expression { "," expression }
    expression   = term { ("+" | "-") term }
    term         = factor { ("*" | "/" | "div") factor }
    factor       = ("+" | "-") factor | number | "(" expression ")" | name

The first error ends the reading. A token that could not be read counts as an error at the moment
when it would be looked at. The number that each recursive function takes bounds the depth of what
it reads; the number of tokens ahead is always enough.
-/
namespace MiniPascal

abbrev Parser := StateT TokenStream (Except Diagnostic)

namespace Parser

def peek : Parser Token := fun s => do
  let t ← s.head
  return (t, s)

def advance : Parser Unit := modify TokenStream.tail

def fail {α : Type} (t : Token) (cause : Cause) : Parser α :=
  throw (.atToken t cause)

def eat (kind : Kind) : Parser Token := do
  let t ← peek
  if t.kind = kind then
    advance
    return t
  else fail t (.unexpected t.described kind)

def nextIs (kind : Kind) : Parser Bool := do
  return (← peek).kind == kind

def sepBy {α : Type} (separator : Kind) (item : Parser α) : Nat → Parser (List α)
  | 0 => do return [← item]
  | n + 1 => do
    let first ← item
    if ← nextIs separator then
      let _ ← eat separator
      return first :: (← sepBy separator item n)
    else return [first]

/-- Operands joined by operators that associate to the left; `left` has been read. -/
def chain (isOperator : Kind → Bool) (operand : Parser Expr) : Nat → Expr → Parser Expr
  | 0, left => return left
  | n + 1, left => do
    let op ← peek
    if isOperator op.kind then
      advance
      let right ← operand
      chain isOperator operand n (.binary left op right)
    else return left

def term (factor : Parser Expr) (n : Nat) : Parser Expr := do
  chain Kind.isProductOp factor n (← factor)

def sum (factor : Parser Expr) (n : Nat) : Parser Expr := do
  chain Kind.isSign (term factor n) n (← term factor n)

/-- A constant that is too large is an error at its token. -/
def number (t : Token) : Parser Expr := do
  match Value.ofLexeme? t.kind t.lexemeText with
  | some v =>
    advance
    return .number t v
  | none => fail t (.constantOutOfRange t.lexemeText)

/-- A sign binds to the factor after it only, so that `-2 * 3` is `(-2) * 3`. -/
def factor : Nat → Parser Expr
  | 0 => do
    let t ← peek
    fail t (.expectedExpression t.described)
  | n + 1 => do
    let t ← peek
    match t.kind with
    | .plus | .minus =>
      advance
      return .unary t (← factor n)
    | .integerConst | .realConst => number t
    | .openParen =>
      advance
      let e ← sum (factor n) n
      let _ ← eat .closeParen
      return e
    | .identifier =>
      advance
      return .variable t
    | _ => fail t (.expectedExpression t.described)

def expression (n : Nat) : Parser Expr := sum (factor n) n

def call (n : Nat) (name : Token) : Parser Stmt := do
  let _ ← eat .openParen
  let args ← if ← nextIs .closeParen then pure [] else sepBy .comma (expression n) n
  let _ ← eat .closeParen
  return .call name args

def assignment (n : Nat) (target : Token) : Parser Stmt := do
  let op ← eat .assign
  let value ← expression n
  return .assign target op value

def compound (statement : Parser Stmt) (n : Nat) : Parser (Token × List Stmt) := do
  let start ← eat .beginWord
  let children ← sepBy .semicolon statement n
  let _ ← eat .endWord
  return (start, children)

/-- Where nothing else starts, the statement is empty. -/
def statement : Nat → Parser Stmt
  | 0 => do
    let _ ← peek
    return .empty
  | n + 1 => do
    match (← peek).kind with
    | .beginWord =>
      let (start, children) ← compound (statement n) n
      return .compound start children
    | .identifier =>
      let name ← eat .identifier
      if ← nextIs .openParen then call n name else assignment n name
    | _ => return .empty

def type : Parser Token := do
  let t ← peek
  if t.kind.isBasicType then
    advance
    return t
  else fail t (.expectedType t.described)

def group (n : Nat) : Parser (List Param) := do
  let names ← sepBy .comma (eat .identifier) n
  let _ ← eat .colon
  let type ← type
  return names.map fun name => { name, type }

def variableGroup (n : Nat) : Parser (List Decl) := do
  let declared ← group n
  let _ ← eat .semicolon
  return declared.map fun p => .variable p.name p.type

/-- One or more variable declarations; another one follows where a name does. -/
def variableSection (n : Nat) : Nat → Parser (List Decl)
  | 0 => variableGroup n
  | m + 1 => do
    let decls ← variableGroup n
    if ← nextIs .identifier then return decls ++ (← variableSection n m) else return decls

def params (n : Nat) : Parser (List Param) := do
  if ← nextIs .openParen then
    let _ ← eat .openParen
    let groups ← sepBy .semicolon (group n) n
    let _ ← eat .closeParen
    return groups.flatten
  else return []

def procedure (block : Parser Block) (n : Nat) : Parser Decl := do
  let _ ← eat .procedureWord
  let name ← eat .identifier
  let params ← params n
  let _ ← eat .semicolon
  let block ← block
  let _ ← eat .semicolon
  return .procedure name params block

def declarations (block : Parser Block) (n : Nat) : Nat → Parser (List Decl)
  | 0 => do
    let _ ← peek
    return []
  | m + 1 => do
    match (← peek).kind with
    | .varWord =>
      let _ ← eat .varWord
      let decls ← variableSection n n
      return decls ++ (← declarations block n m)
    | .procedureWord =>
      let decl ← procedure block n
      return decl :: (← declarations block n m)
    | _ => return []

def block : Nat → Parser Block
  | 0 => do return .mk [] (← eat .beginWord) []
  | n + 1 => do
    let decls ← declarations (block n) n (n + 1)
    let (start, body) ← compound (statement (n + 1)) (n + 1)
    return .mk decls start body

def program (n : Nat) : Parser Program := do
  let _ ← eat .programWord
  let name ← eat .identifier
  let _ ← eat .semicolon
  let block ← block n
  let _ ← eat .dot
  let t ← peek
  if t.kind = .endOfFile then return { name, block }
  else fail t (.trailing t.described)

def whole {α : Type} (p : Parser α) : Parser α := do
  let a ← p
  let _ ← eat .endOfFile
  return a

/-- Runs a parser on a stream, with the bound that its length gives. -/
def runOn {α : Type} (p : Nat → Parser α) (s : TokenStream) : Except Diagnostic α :=
  (p s.length).run' s

end Parser

def Program.ofStream (s : TokenStream) : Except Diagnostic Program :=
  Parser.runOn Parser.program s

/-- Reads a program; `index` is the index of its first token. -/
def Program.ofSource (file : String) (source : Bytes) (index : Nat := 0) :
    Except Diagnostic Program :=
  Program.ofStream (.ofSource file source index)

def Expr.ofSource (file : String) (source : Bytes) : Except Diagnostic Expr :=
  Parser.runOn (fun n => Parser.whole (Parser.expression n)) (.ofSource file source)

def Stmt.ofSource (file : String) (source : Bytes) : Except Diagnostic Stmt :=
  Parser.runOn (fun n => Parser.whole (Parser.statement n)) (.ofSource file source)

end MiniPascal
