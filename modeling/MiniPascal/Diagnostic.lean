import MiniPascal.Text.Quoted
import MiniPascal.Token

/-!
# Diagnostics

A diagnostic says what is wrong with a program and where. Its cause fixes the code under which it
is filed and the wording of its message; its token, where it has one, is the token at fault.

Some diagnostics only say that the text ended too early, so that more text could still complete
it: a syntax error at the end of the file, and a comment that is never closed.
-/
namespace MiniPascal

inductive Code
  | lexical
  | parsing
  | duplicateName
  | undefinedName
  | unboundVariable
  | arityMismatch
  | typeMismatch
  | divisionByZero
  | integerOverflow
  | stackOverflow
  | other (number : Int)
  deriving Repr, DecidableEq, Inhabited

namespace Code

def listed : List Code :=
  [lexical, parsing, duplicateName, undefinedName, unboundVariable, arityMismatch, typeMismatch,
    divisionByZero, integerOverflow, stackOverflow]

def ofNumber (n : Int) : Code :=
  if n < 0 then other n else listed.getD n.toNat (other n)

def sentinel? : Code → Option String
  | lexical => some "lexical error"
  | parsing => some "parse error"
  | duplicateName => some "duplicate identifier"
  | undefinedName => some "undefined identifier"
  | unboundVariable => some "unbound variable"
  | arityMismatch => some "arity mismatch"
  | typeMismatch => some "type mismatch"
  | divisionByZero => some "division by zero"
  | integerOverflow => some "integer overflow"
  | stackOverflow => some "stack overflow"
  | other _ => none

def text (c : Code) : String :=
  match c, c.sentinel? with
  | _, some s => s
  | other n, none => "Code(" ++ toString n ++ ")"
  | _, none => ""

end Code

/-- What can be wrong. The texts `found` describe the token that was met instead. -/
inductive Cause
  | invalidCharacter (c : Char)
  | unterminatedComment
  | unexpected (found : String) (expected : Kind)
  | expectedType (found : String)
  | expectedExpression (found : String)
  | trailing (found : String)
  | constantOutOfRange (lexeme : String)
  | duplicate (name : String)
  | variableNotFound (name : String)
  | procedureNotFound (name : String)
  | typeNotFound (name : String)
  | arity (name : String) (expected found : Nat)
  | unbound (name : String)
  | divisionOperands (left right : Kind)
  | divisionByZero
  | overflow (left : String) (op : Kind) (right : String)
  | negationOverflow (operand : String)
  | depthExceeded (name : String) (limit : Int)
  | noted (code : Code) (message : String)
  deriving Repr, DecidableEq, Inhabited

namespace Cause

def code : Cause → Code
  | invalidCharacter _ | unterminatedComment => .lexical
  | unexpected .. | expectedType _ | expectedExpression _ | trailing _
  | constantOutOfRange _ => .parsing
  | duplicate _ => .duplicateName
  | variableNotFound _ | procedureNotFound _ | typeNotFound _ => .undefinedName
  | arity .. => .arityMismatch
  | unbound _ => .unboundVariable
  | divisionOperands .. => .typeMismatch
  | divisionByZero => .divisionByZero
  | overflow .. | negationOverflow _ => .integerOverflow
  | depthExceeded .. => .stackOverflow
  | noted c _ => c

def unterminatedCommentText : String := "unterminated comment"

def message : Cause → String
  | invalidCharacter c => "invalid character " ++ Text.quoteChar c
  | unterminatedComment => unterminatedCommentText
  | unexpected found expected => "unexpected " ++ found ++ ", expected " ++ expected.text
  | expectedType found => "unexpected " ++ found ++ ", expected type INTEGER or REAL"
  | expectedExpression found => "unexpected " ++ found ++ ", expected expression"
  | trailing found => "expected end of file after program, not " ++ found
  | constantOutOfRange lexeme => "numeric constant " ++ lexeme ++ " out of range"
  | duplicate name => "'" ++ name ++ "' already declared in this scope"
  | variableNotFound name => "identifier '" ++ name ++ "' not found"
  | procedureNotFound name => "procedure '" ++ name ++ "' not found"
  | typeNotFound name => "type '" ++ name ++ "' not found"
  | arity name expected found =>
    "procedure '" ++ name ++ "' expects " ++ toString expected ++ " argument(s), got " ++
      toString found
  | unbound name => "variable '" ++ name ++ "' used before assignment"
  | divisionOperands left right =>
    "DIV expects two integers, got " ++ left.text ++ " and " ++ right.text
  | divisionByZero => "division by zero"
  | overflow left op right =>
    left ++ " " ++ op.text ++ " " ++ right ++ " does not fit in an integer"
  | negationOverflow operand => "-(" ++ operand ++ ") does not fit in an integer"
  | depthExceeded name limit =>
    "call to '" ++ name ++ "' exceeds the maximum call depth of " ++ toString limit
  | noted _ message => message

end Cause

structure Diagnostic where
  cause : Cause
  pos : Position
  token : Option Token := none
  deriving Repr, DecidableEq, Inhabited

namespace Diagnostic

def atToken (t : Token) (cause : Cause) : Diagnostic :=
  { cause, pos := t.pos, token := some t }

def code (d : Diagnostic) : Code := d.cause.code

/-- The whole line that reports a diagnostic: place, class and message. -/
def report (d : Diagnostic) : String :=
  d.pos.file ++ ":" ++ d.pos.lineColumn ++ ": " ++ d.code.text ++ ": " ++ d.cause.message

/-- Whether the diagnostic only says that the text ended too early. -/
def isIncomplete (d : Diagnostic) : Bool :=
  match d.code with
  | .parsing => d.token.any fun t => t.kind == .endOfFile
  | .lexical => d.cause.message == Cause.unterminatedCommentText
  | _ => false

end Diagnostic

abbrev Reports := List Diagnostic

end MiniPascal
