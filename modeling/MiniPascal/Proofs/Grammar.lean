import MiniPascal.Syntax

/-!
# The grammar and its derivation trees

    program        := "program" IDENT ";" block "."
    block          := declarations compound
    declarations   := ( "var" (var_decl ";")+ | procedure_decl )*
    var_decl       := IDENT ("," IDENT)* ":" type_spec
    procedure_decl := "procedure" IDENT ("(" formal_params ")")? ";" block ";"
    formal_params  := formal_group (";" formal_group)*
    formal_group   := IDENT ("," IDENT)* ":" type_spec
    type_spec      := "INTEGER" | "REAL"
    compound       := "begin" statement (";" statement)* "end"
    statement      := compound | assignment | proc_call | ε
    assignment     := IDENT ":=" expr
    proc_call      := IDENT "(" (expr ("," expr)*)? ")"
    expr           := term (("+"|"-") term)*
    term           := factor (("*"|"DIV"|"/") factor)*
    factor         := ("+"|"-") factor | INTEGER_CONST | REAL_CONST | "(" expr ")" | IDENT

`Derivation n` is the type of derivation trees from the nonterminal `n`, with a constructor for
each alternative; optional parts and repetitions have nonterminals of their own, and `var_decl` and
`formal_group`, whose right sides are the same, share one. A derivation has a `yield`, the tokens
at its leaves, and a `tree`, the syntax tree that it stands for.
-/
namespace MiniPascal.Grammar

/-- The phrases that occur in sequences with separators. -/
inductive Item
  | name
  | group
  | statement
  | expr
  deriving DecidableEq

/-- The operands that operators of one level join. -/
inductive Operand
  | term
  | factor
  deriving DecidableEq

inductive Nonterminal
  | program
  | block
  | declarations
  | varDecls
  | procedureDecl
  | formals
  | compound
  | assignment
  | procCall
  | actuals
  | operand (o : Operand)
  | chain (o : Operand)
  | item (i : Item)
  | sequence (i : Item)
  deriving DecidableEq

def Item.separator : Item → Kind
  | name | expr => .comma
  | group | statement => .semicolon

def Operand.joins : Operand → Kind → Bool
  | term => Kind.isSign
  | factor => Kind.isProductOp

theorem Operand.of_joins {o : Operand} {k : Kind} (h : o.joins k = true) :
    k ≠ .endOfFile ∧ k.isLiteral = false := by
  cases o with
  | term =>
    simp only [joins, Kind.isSign, Bool.or_eq_true, beq_iff_eq] at h
    rcases h with rfl | rfl <;> decide
  | factor =>
    simp only [joins, Kind.isProductOp, Bool.or_eq_true, beq_iff_eq] at h
    rcases h with (rfl | rfl) | rfl <;> decide

abbrev Terminal (k : Kind) := { t : Token // t.kind = k }

abbrev TerminalIn (p : Kind → Bool) := { t : Token // p t.kind = true }

inductive Derivation : Nonterminal → Type
  | program (head : Terminal .programWord) (name : Terminal .identifier)
      (mark : Terminal .semicolon) (block : Derivation .block) (dot : Terminal .dot) :
      Derivation .program
  | block (decls : Derivation .declarations) (body : Derivation .compound) : Derivation .block
  | noDeclarations : Derivation .declarations
  | varSection (head : Terminal .varWord) (first : Derivation .varDecls)
      (rest : Derivation .declarations) : Derivation .declarations
  | procedure (first : Derivation .procedureDecl) (rest : Derivation .declarations) :
      Derivation .declarations
  | lastVarDecl (group : Derivation (.item .group)) (mark : Terminal .semicolon) :
      Derivation .varDecls
  | moreVarDecls (group : Derivation (.item .group)) (mark : Terminal .semicolon)
      (rest : Derivation .varDecls) : Derivation .varDecls
  | group (names : Derivation (.sequence .name)) (colon : Terminal .colon)
      (type : TerminalIn Kind.isBasicType) : Derivation (.item .group)
  | name (t : Terminal .identifier) : Derivation (.item .name)
  | procedureDecl (head : Terminal .procedureWord) (name : Terminal .identifier)
      (formals : Derivation .formals) (mark : Terminal .semicolon) (block : Derivation .block)
      (last : Terminal .semicolon) : Derivation .procedureDecl
  | noFormals : Derivation .formals
  | formals (left : Terminal .openParen) (groups : Derivation (.sequence .group))
      (right : Terminal .closeParen) : Derivation .formals
  | compound (start : Terminal .beginWord) (children : Derivation (.sequence .statement))
      (stop : Terminal .endWord) : Derivation .compound
  | nested (c : Derivation .compound) : Derivation (.item .statement)
  | assigning (a : Derivation .assignment) : Derivation (.item .statement)
  | calling (c : Derivation .procCall) : Derivation (.item .statement)
  | nothing : Derivation (.item .statement)
  | assignment (target : Terminal .identifier) (op : Terminal .assign)
      (value : Derivation (.item .expr)) : Derivation .assignment
  | procCall (name : Terminal .identifier) (left : Terminal .openParen)
      (args : Derivation .actuals) (right : Terminal .closeParen) : Derivation .procCall
  | noActuals : Derivation .actuals
  | actuals (args : Derivation (.sequence .expr)) : Derivation .actuals
  | expr (first : Derivation (.operand .term)) (rest : Derivation (.chain .term)) :
      Derivation (.item .expr)
  | term (first : Derivation (.operand .factor)) (rest : Derivation (.chain .factor)) :
      Derivation (.operand .term)
  | noLink {o : Operand} : Derivation (.chain o)
  | link {o : Operand} (op : TerminalIn o.joins) (right : Derivation (.operand o))
      (rest : Derivation (.chain o)) : Derivation (.chain o)
  | signed (op : TerminalIn Kind.isSign) (inner : Derivation (.operand .factor)) :
      Derivation (.operand .factor)
  | number (t : TerminalIn Kind.isLiteral) : Derivation (.operand .factor)
  | parenthesized (left : Terminal .openParen) (inner : Derivation (.item .expr))
      (right : Terminal .closeParen) : Derivation (.operand .factor)
  | reference (t : Terminal .identifier) : Derivation (.operand .factor)
  | one {i : Item} (first : Derivation (.item i)) : Derivation (.sequence i)
  | more {i : Item} (first : Derivation (.item i)) (mark : Terminal i.separator)
      (rest : Derivation (.sequence i)) : Derivation (.sequence i)

def constant (t : Token) : Option Value := Value.ofLexeme? t.kind t.lexemeText

/-- All constants among some tokens are in range. -/
def InRange (tokens : List Token) : Prop :=
  ∀ t ∈ tokens, t.kind.isLiteral = true → (constant t).isSome = true

theorem inRange_nil : InRange [] := by
  intro t ht
  cases ht

theorem inRange_append {front back : List Token} :
    InRange (front ++ back) ↔ InRange front ∧ InRange back :=
  List.forall_mem_append

theorem inRange_cons {t : Token} {rest : List Token} :
    InRange (t :: rest) ↔ (t.kind.isLiteral = true → (constant t).isSome = true) ∧ InRange rest :=
  List.forall_mem_cons

/-- Only constants can be out of range. -/
theorem InRange.cons {t : Token} {rest : List Token} (ht : t.kind.isLiteral = false)
    (h : InRange rest) : InRange (t :: rest) := by
  refine inRange_cons.mpr ⟨fun hl => ?_, h⟩
  rw [ht] at hl
  cases hl

def joined (first : Expr) (rest : List (Token × Expr)) : Expr :=
  rest.foldl (fun left (op, right) => .binary left op right) first

abbrev Item.Tree : Item → Type
  | name => Token
  | group => List Param
  | statement => Stmt
  | expr => Expr

abbrev Nonterminal.Tree : Nonterminal → Type
  | program => Program
  | block => Block
  | declarations | varDecls => List Decl
  | procedureDecl => Decl
  | formals => List Param
  | compound => Token × List Stmt
  | assignment | procCall => Stmt
  | actuals => List Expr
  | operand _ => Expr
  | chain _ => List (Token × Expr)
  | item i => i.Tree
  | sequence i => List i.Tree

namespace Derivation

/-- The tokens that a derivation derives. -/
@[simp] def yield : {n : Nonterminal} → Derivation n → List Token
  | _, .program head ident mark body dot =>
    head.1 :: ident.1 :: mark.1 :: (body.yield ++ [dot.1])
  | _, .block decls body => decls.yield ++ body.yield
  | _, .noDeclarations => []
  | _, .varSection head first rest => head.1 :: (first.yield ++ rest.yield)
  | _, .procedure first rest => first.yield ++ rest.yield
  | _, .lastVarDecl first mark => first.yield ++ [mark.1]
  | _, .moreVarDecls first mark rest => first.yield ++ mark.1 :: rest.yield
  | _, .group names colon type => names.yield ++ [colon.1, type.1]
  | _, .name t => [t.1]
  | _, .procedureDecl head ident params mark body last =>
    head.1 :: ident.1 :: (params.yield ++ mark.1 :: (body.yield ++ [last.1]))
  | _, .noFormals => []
  | _, .formals left groups right => left.1 :: (groups.yield ++ [right.1])
  | _, .compound start children stop => start.1 :: (children.yield ++ [stop.1])
  | _, .nested c => c.yield
  | _, .assigning a => a.yield
  | _, .calling c => c.yield
  | _, .nothing => []
  | _, .assignment target op value => target.1 :: op.1 :: value.yield
  | _, .procCall ident left args right => ident.1 :: left.1 :: (args.yield ++ [right.1])
  | _, .noActuals => []
  | _, .actuals args => args.yield
  | _, .expr first rest => first.yield ++ rest.yield
  | _, .term first rest => first.yield ++ rest.yield
  | _, .noLink => []
  | _, .link op right rest => op.1 :: (right.yield ++ rest.yield)
  | _, .signed op inner => op.1 :: inner.yield
  | _, .number t => [t.1]
  | _, .parenthesized left inner right => left.1 :: (inner.yield ++ [right.1])
  | _, .reference t => [t.1]
  | _, .one first => first.yield
  | _, .more first mark rest => first.yield ++ mark.1 :: rest.yield

/-- The syntax tree of a derivation. Operators of one level associate to the left, and a sign
belongs to the factor behind it. -/
@[simp] def tree : {n : Nonterminal} → Derivation n → n.Tree
  | _, .program _ ident _ body _ => { name := ident.1, block := body.tree }
  | _, .block decls body => .mk decls.tree body.tree.1 body.tree.2
  | _, .noDeclarations => []
  | _, .varSection _ first rest => first.tree ++ rest.tree
  | _, .procedure first rest => first.tree :: rest.tree
  | _, .lastVarDecl first _ => first.tree.map fun p => .variable p.name p.type
  | _, .moreVarDecls first _ rest =>
    first.tree.map (fun p => .variable p.name p.type) ++ rest.tree
  | _, .group names _ type => names.tree.map fun ident => { name := ident, type := type.1 }
  | _, .name t => t.1
  | _, .procedureDecl _ ident params _ body _ => .procedure ident.1 params.tree body.tree
  | _, .noFormals => []
  | _, .formals _ groups _ => groups.tree.flatten
  | _, .compound start children _ => (start.1, children.tree)
  | _, .nested c => .compound c.tree.1 c.tree.2
  | _, .assigning a => a.tree
  | _, .calling c => c.tree
  | _, .nothing => .empty
  | _, .assignment target op value => .assign target.1 op.1 value.tree
  | _, .procCall ident _ args _ => .call ident.1 args.tree
  | _, .noActuals => []
  | _, .actuals args => args.tree
  | _, .expr first rest => joined first.tree rest.tree
  | _, .term first rest => joined first.tree rest.tree
  | _, .noLink => []
  | _, .link op right rest => (op.1, right.tree) :: rest.tree
  | _, .signed op inner => .unary op.1 inner.tree
  | _, .number t => .number t.1 ((constant t.1).getD default)
  | _, .parenthesized _ inner _ => inner.tree
  | _, .reference t => .variable t.1
  | _, .one first => [first.tree]
  | _, .more first _ rest => first.tree :: rest.tree

end Derivation

end MiniPascal.Grammar
