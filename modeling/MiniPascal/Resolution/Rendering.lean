import MiniPascal.Resolution

/-!
# Programs as text

A program is rendered one declaration or statement a line, with the brackets that its tree needs
and no others. What is written for a declared name, a reference and a call is left to a labelling;
`Resolution.annotated` shows for each the level of its declaration, and for a reference also its
type.
-/
namespace MiniPascal

structure Labelling where
  /-- A name declared at a level. -/
  declared : Token → Int → String
  reference : Token → String
  call : Token → String

def Expr.precedence : Expr → Nat
  | .binary _ op _ => if op.kind.isSign then 1 else 2
  | _ => 3

def inBrackets (needed : Bool) (s : String) : String :=
  if needed then "(" ++ s ++ ")" else s

/-- A left operand needs brackets if it binds less tightly than the operator, a right operand also
if it binds as tightly, and the operand of a sign if it is a binary operation. -/
def Expr.render (l : Labelling) : Expr → String
  | .number t _ => t.text
  | .variable t => l.reference t
  | .unary op e => op.kind.text ++ inBrackets (e.precedence < 3) (e.render l)
  | .binary left op right =>
    let p := (Expr.binary left op right).precedence
    inBrackets (left.precedence < p) (left.render l) ++ " " ++ op.kind.text ++ " " ++
      inBrackets (right.precedence ≤ p) (right.render l)

def renderedLine (indent : Nat) (s : String) : String :=
  String.join (List.replicate indent "   ") ++ s ++ "\n"

mutual

/-- The lines of a statement; an empty one has none. -/
def Stmt.render (l : Labelling) (indent : Nat) : Stmt → String
  | .compound _ children =>
    renderedLine indent "begin" ++ Stmt.renderAll l (indent + 1) children ++
      renderedLine indent "end;"
  | .assign target _ value =>
    renderedLine indent (l.reference target ++ " := " ++ value.render l ++ ";")
  | .call name args =>
    renderedLine indent
      (l.call name ++ "(" ++ String.intercalate ", " (args.map fun e => e.render l) ++ ");")
  | .empty => ""

def Stmt.renderAll (l : Labelling) (indent : Nat) : List Stmt → String
  | [] => ""
  | s :: rest => s.render l indent ++ Stmt.renderAll l indent rest

end

/-- The parameters of a procedure whose own names are at the given level. -/
def renderParams (l : Labelling) (level : Int) (params : List Param) : String :=
  if params.isEmpty then ""
  else
    "(" ++
      String.intercalate "; "
        (params.map fun p => l.declared p.name level ++ " : " ++ p.type.kind.text) ++ ")"

def endComment (name : Token) : String :=
  " \x7bEND OF " ++ name.name ++ "\x7d"

mutual

def Decl.render (l : Labelling) (level : Int) (indent : Nat) : Decl → String
  | .variable name type =>
    renderedLine indent ("var " ++ l.declared name level ++ " : " ++ type.kind.text ++ ";")
  | .procedure name params block =>
    renderedLine indent
        ("procedure " ++ l.declared name level ++ renderParams l (level + 1) params ++ ";") ++
      block.render l (level + 1) (indent + 1) (indent + 1) ++
      renderedLine (indent + 1) ("end;" ++ endComment name)

def Decl.renderAll (l : Labelling) (level : Int) (indent : Nat) : List Decl → String
  | [] => ""
  | d :: rest => d.render l level indent ++ Decl.renderAll l level indent rest

/-- A block up to the end of its last statement; the closing line is the caller's. -/
def Block.render (l : Labelling) (level : Int) (declIndent bodyIndent : Nat) : Block → String
  | .mk decls _ body =>
    Decl.renderAll l level declIndent decls ++ renderedLine bodyIndent "begin" ++
      Stmt.renderAll l (bodyIndent + 1) body

end

/-- A program counts as declared at level zero, and its names at level one. -/
def Program.render (l : Labelling) (p : Program) : String :=
  renderedLine 0 ("program " ++ l.declared p.name 0 ++ ";") ++ p.block.render l 1 1 0 ++
    renderedLine 0 ("end." ++ endComment p.name)

namespace Resolution

def labelling (r : Resolution) : Labelling where
  declared name level := name.name ++ toString level
  reference t :=
    match r.references.find? t.index with
    | some v => "<" ++ t.name ++ toString v.level ++ ":" ++ v.typeName ++ ">"
    | none => t.name
  call t :=
    match r.calls.find? t.index with
    | some p => t.name ++ toString p.level
    | none => t.name

def annotated (r : Resolution) (p : Program) : String := p.render r.labelling

end Resolution

end MiniPascal
