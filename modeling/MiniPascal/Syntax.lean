import MiniPascal.Value

/-!
# Syntax trees

A program is a name and a block; a block declares variables and procedures and has a body of
statements. Every node keeps the token that names it or that its operator is. A constant also keeps
the value that was read from its token, and all names of one declaration share their type token.
-/
namespace MiniPascal

inductive Expr
  | number (token : Token) (value : Value)
  | variable (token : Token)
  | unary (op : Token) (operand : Expr)
  | binary (left : Expr) (op : Token) (right : Expr)
  deriving Repr, DecidableEq, Inhabited

/-- The empty statement is the one before `END` in `x := 1; END`. -/
inductive Stmt
  | compound (start : Token) (children : List Stmt)
  | assign (target : Token) (op : Token) (value : Expr)
  | call (name : Token) (args : List Expr)
  | empty
  deriving Repr, Inhabited

structure Param where
  name : Token
  type : Token
  deriving Repr, DecidableEq, Inhabited

mutual

inductive Decl
  | variable (name : Token) (type : Token)
  | procedure (name : Token) (params : List Param) (block : Block)
  deriving Repr, Inhabited

/-- Declarations, and a body that starts with a `BEGIN` token. -/
inductive Block
  | mk (decls : List Decl) (start : Token) (body : List Stmt)
  deriving Repr, Inhabited

end

namespace Block

def decls : Block → List Decl
  | mk ds _ _ => ds

def start : Block → Token
  | mk _ t _ => t

def body : Block → List Stmt
  | mk _ _ ss => ss

end Block

def Decl.name : Decl → Token
  | .variable name _ => name
  | .procedure name _ _ => name

structure Program where
  name : Token
  block : Block
  deriving Repr, Inhabited

end MiniPascal
