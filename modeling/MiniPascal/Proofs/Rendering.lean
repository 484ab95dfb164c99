import MiniPascal.Proofs.Syntax.Nodes
import MiniPascal.Proofs.Token.Writing
import MiniPascal.Resolution.Rendering

/-!
# Rendered expressions

`Prints` says that a string writes the tokens of a derivation of a given tree. A rendered expression
prints its own tree: the brackets are just those that the tree needs, since each operand stands for
a phrase of the level at which the grammar expects it.
-/
namespace MiniPascal

open Grammar

def Labelling.plain : Labelling where
  declared t _ := t.name
  reference := Token.name
  call := Token.name

def Relabeling.plain : Relabeling where
  toFun := Token.plain
  kind _ := rfl
  text t := by
    rcases t with ⟨kind, lexeme, pos, index⟩
    cases kind <;> rfl

/-- The string writes the tokens of a derivation of the tree. -/
def Prints (n : Nonterminal) (follow : Bytes → Prop) (text : String) (a : n.Tree) : Prop :=
  ∃ d : Derivation n, d.tree = a ∧ InRange d.yield ∧ WritesBefore follow text d.yield

section Operators

variable {follow : Bytes → Prop} {text text' : String}

theorem writes_spaced {k : Kind} (h : k ∈ Kind.fixed) :
    WritesBefore Anything (" " ++ k.text ++ " ") [k.token] :=
  ((writes_blank " " (by decide)).closed (Kind.writes_fixed h)).blank

/-- An operator between blanks. -/
theorem WritesBefore.operator {tokens tokens' : List Token} {k : Kind} (hk : k ∈ Kind.fixed)
    (h : WritesBefore Delimited text tokens) (h' : WritesBefore follow text' tokens') :
    WritesBefore follow (text ++ " " ++ k.text ++ " " ++ text') (tokens ++ k.token :: tokens') := by
  have hright := (writes_spaced hk).closed h'
  have hstart : Delimited (Text.encode (" " ++ k.text ++ " " ++ text')) := by
    rw [Text.encode_append, Text.encode_append, Text.encode_append, List.append_assoc,
      List.append_assoc]
    exact (delimited_of_head (by decide)).append _
  have hwhole := h.delimited hright hstart
  rw [← String.append_assoc, ← String.append_assoc, ← String.append_assoc] at hwhole
  exact hwhole

theorem mem_fixed_of_isSign {k : Kind} (h : k.isSign = true) : k ∈ Kind.marks ∧ k ∈ Kind.fixed := by
  simp only [Kind.isSign, Bool.or_eq_true, beq_iff_eq] at h
  rcases h with rfl | rfl <;> decide

theorem mem_fixed_of_isProductOp {k : Kind} (h : k.isProductOp = true) : k ∈ Kind.fixed := by
  simp only [Kind.isProductOp, Bool.or_eq_true, beq_iff_eq] at h
  rcases h with (rfl | rfl) | rfl <;> decide

theorem inRange_fixed {k : Kind} (h : k ∈ Kind.fixed) {tokens : List Token}
    (htokens : InRange tokens) : InRange (k.token :: tokens) := by
  have hall : ∀ k ∈ Kind.fixed, k.isLiteral = false := by decide
  exact htokens.cons (hall k h)

theorem inRange_append_fixed {k : Kind} (h : k ∈ Kind.fixed) {tokens : List Token}
    (htokens : InRange tokens) : InRange (tokens ++ [k.token]) :=
  inRange_append.mpr ⟨htokens, inRange_fixed h inRange_nil⟩

end Operators

namespace Prints

variable {follow : Bytes → Prop} {text text' : String} {a b : Expr}

theorem signed {op : Token} (hop : op.kind.isSign = true)
    (h : Prints (.operand .factor) follow text a) :
    Prints (.operand .factor) follow (op.kind.text ++ text) (.unary op.plain a) := by
  obtain ⟨hmark, hfixed⟩ := mem_fixed_of_isSign hop
  obtain ⟨d, rfl, hr, hwrites⟩ := h
  rw [Token.plain_of_fixed hfixed]
  exact ⟨.signed ⟨op.kind.token, hop⟩ d, rfl, inRange_fixed hfixed hr,
    (Kind.writes_mark hmark).closed hwrites⟩

theorem bracketed (h : Prints (.item .expr) Delimited text a) :
    Prints (.operand .factor) follow ("(" ++ text ++ ")") a := by
  obtain ⟨d, rfl, hr, hwrites⟩ := h
  have hopen := Kind.writes_mark (by decide : Kind.openParen ∈ Kind.marks)
  refine ⟨.parenthesized ⟨Kind.openParen.token, rfl⟩ d ⟨Kind.closeParen.token, rfl⟩, rfl, ?_,
    ((hopen.closed hwrites).mark .closeParen).before⟩
  exact inRange_fixed (by decide) (inRange_append_fixed (by decide) hr)

theorem term (h : Prints (.operand .factor) follow text a) :
    Prints (.operand .term) follow text a := by
  obtain ⟨d, rfl, hr, hwrites⟩ := h
  refine ⟨.term d .noLink, rfl, ?_, ?_⟩ <;> rw [Derivation.yield, Derivation.yield, List.append_nil]
  · exact hr
  · exact hwrites

theorem expr (h : Prints (.operand .term) follow text a) : Prints (.item .expr) follow text a := by
  obtain ⟨d, rfl, hr, hwrites⟩ := h
  refine ⟨.expr d .noLink, rfl, ?_, ?_⟩ <;> rw [Derivation.yield, Derivation.yield, List.append_nil]
  · exact hr
  · exact hwrites

theorem exists_snoc {o : Operand} (op : TerminalIn o.joins) (right : Derivation (.operand o)) :
    ∀ d : Derivation (.chain o), ∃ d' : Derivation (.chain o),
      d'.yield = d.yield ++ op.1 :: right.yield ∧ d'.tree = d.tree ++ [(op.1, right.tree)]
  | .noLink => ⟨.link op right .noLink, by simp, rfl⟩
  | .link op' right' rest => by
    obtain ⟨d', hyield, htree⟩ := exists_snoc op right rest
    refine ⟨.link op' right' d', ?_, ?_⟩
    · simp only [Derivation.yield, hyield, List.cons_append, List.append_assoc]
    · simp only [Derivation.tree, htree, List.cons_append]

/-- A chain with one more link joins what was joined before with one more operand. -/
theorem exists_linked (o : Operand) {op : Token} (hfixed : op.kind ∈ Kind.fixed)
    (hop : o.joins op.kind = true) (first : Derivation (.operand o))
    (rest : Derivation (.chain o)) (hr : InRange (first.yield ++ rest.yield))
    (hwrites : WritesBefore Delimited text (first.yield ++ rest.yield))
    (h' : Prints (.operand o) follow text' b) :
    ∃ rest' : Derivation (.chain o),
      joined first.tree rest'.tree = .binary (joined first.tree rest.tree) op.plain b ∧
      InRange (first.yield ++ rest'.yield) ∧
      WritesBefore follow (text ++ " " ++ op.kind.text ++ " " ++ text')
        (first.yield ++ rest'.yield) := by
  obtain ⟨right, rfl, hr', hwrites'⟩ := h'
  obtain ⟨rest', hyield, htree⟩ := exists_snoc ⟨op.kind.token, hop⟩ right rest
  refine ⟨rest', ?_⟩
  rw [Token.plain_of_fixed hfixed, hyield, htree, ← List.append_assoc]
  refine ⟨List.foldl_append, ?_, hwrites.operator hfixed hwrites'⟩
  exact inRange_append.mpr ⟨hr, inRange_fixed hfixed hr'⟩

theorem product {op : Token} (hop : op.kind.isProductOp = true)
    (h : Prints (.operand .term) Delimited text a)
    (h' : Prints (.operand .factor) follow text' b) :
    Prints (.operand .term) follow (text ++ " " ++ op.kind.text ++ " " ++ text')
      (.binary a op.plain b) := by
  obtain ⟨d, rfl, hr, hwrites⟩ := h
  cases d with
  | term first rest =>
    obtain ⟨rest', hlinked⟩ :=
      exists_linked .factor (mem_fixed_of_isProductOp hop) hop first rest hr hwrites h'
    exact ⟨.term first rest', hlinked⟩

theorem sum {op : Token} (hop : op.kind.isSign = true)
    (h : Prints (.item .expr) Delimited text a) (h' : Prints (.operand .term) follow text' b) :
    Prints (.item .expr) follow (text ++ " " ++ op.kind.text ++ " " ++ text')
      (.binary a op.plain b) := by
  obtain ⟨d, rfl, hr, hwrites⟩ := h
  cases d with
  | expr first rest =>
    obtain ⟨rest', hlinked⟩ :=
      exists_linked .term (mem_fixed_of_isSign hop).2 hop first rest hr hwrites h'
    exact ⟨.expr first rest', hlinked⟩

end Prints

/-- Tokens as a text has them: they are read back from their texts, constants are in range, and
names consist of the bytes of words. -/
structure Readable (tokens : List Token) : Prop where
  written : ∀ t ∈ tokens, t.Written
  inRange : InRange tokens
  name : ∀ t ∈ tokens, t.kind = .identifier → ∀ x ∈ Text.encode t.name, isWordByte x = true

variable {tokens : List Token}

theorem Readable.writes_name (hs : Readable tokens) {t : Token}
    (h : t ∈ tokens ∧ t.kind = .identifier) : WritesBefore Delimited t.name [t.plain] := by
  have hname : t.name = t.text := by
    rw [Token.name, if_pos h.2, Token.text, h.2]
  rw [hname]
  exact hs.written t h.1

theorem inRange_name {t : Token} (h : t.kind = .identifier) {rest : List Token}
    (hrest : InRange rest) : InRange (t.plain :: rest) := by
  refine hrest.cons ?_
  rw [show t.plain.kind = t.kind from rfl, h]
  rfl

theorem Readable.prints_number (hs : Readable tokens) {t : Token} {v : Value}
    (h : (Node.expr (.number t v)).Lexical tokens) :
    Prints (.operand .factor) Delimited t.text (.number t.plain v) := by
  obtain ⟨hmem, hliteral, rfl⟩ := h
  have hconstant : constant t.plain = constant t := Relabeling.plain.constant hliteral
  refine ⟨.number ⟨t.plain, hliteral⟩, ?_, ?_, hs.written t hmem⟩
  · rw [Derivation.tree, hconstant]
  · refine List.forall_mem_singleton.mpr fun _ => ?_
    rw [hconstant]
    exact hs.inRange t hmem hliteral

theorem Readable.prints_reference (hs : Readable tokens) {t : Token}
    (h : t ∈ tokens ∧ t.kind = .identifier) :
    Prints (.operand .factor) Delimited t.name (.variable t.plain) :=
  ⟨.reference ⟨t.plain, h.2⟩, rfl, inRange_name h.2 inRange_nil, hs.writes_name h⟩

namespace Expr

/-- An expression is rendered as a phrase of each level, in brackets where it binds less tightly. -/
structure Printed (e : Expr) : Prop where
  expr : Prints (.item .expr) Delimited (e.render .plain) (e.relabel .plain)
  term : Prints (.operand .term) Delimited (inBrackets (e.precedence < 2) (e.render .plain))
    (e.relabel .plain)
  factor : Prints (.operand .factor) Delimited (inBrackets (e.precedence < 3) (e.render .plain))
    (e.relabel .plain)

variable {e : Expr}

theorem Printed.of_factor (hp : e.precedence = 3)
    (h : Prints (.operand .factor) Delimited (e.render .plain) (e.relabel .plain)) :
    e.Printed := by
  refine ⟨h.term.expr, ?_, ?_⟩
  · rw [hp]
    exact h.term
  · rw [hp]
    exact h

theorem Printed.of_term (hp : e.precedence = 2)
    (h : Prints (.operand .term) Delimited (e.render .plain) (e.relabel .plain)) :
    e.Printed := by
  refine ⟨h.expr, ?_, ?_⟩
  · rw [hp]
    exact h
  · rw [hp]
    exact h.expr.bracketed

theorem Printed.of_expr (hp : e.precedence = 1)
    (h : Prints (.item .expr) Delimited (e.render .plain) (e.relabel .plain)) : e.Printed := by
  refine ⟨h, ?_, ?_⟩
  · rw [hp]
    exact h.bracketed.term
  · rw [hp]
    exact h.bracketed

theorem one_le_precedence (e : Expr) : 1 ≤ e.precedence := by
  cases e with
  | binary left op right =>
    rw [precedence]
    split <;> decide
  | number | «variable» | unary => exact (by decide : 1 ≤ 3)

theorem printed_binary {left right : Expr} {op : Token}
    (hop : op.kind.isSign = true ∨ op.kind.isProductOp = true) (hl : left.Printed)
    (hr : right.Printed) : (Expr.binary left op right).Printed := by
  rcases hop with hop | hop
  · have hp : (Expr.binary left op right).precedence = 1 := if_pos hop
    have hleft : decide (left.precedence < 1) = false :=
      decide_eq_false (Nat.not_lt.mpr left.one_le_precedence)
    have hright : right.precedence ≤ 1 ↔ right.precedence < 2 := Nat.lt_succ_iff.symm
    refine .of_expr hp ?_
    simp only [render, hp, hleft, hright]
    exact hl.expr.sum hop hr.term
  · have hsign : ¬ op.kind.isSign = true := by
      simp only [Kind.isProductOp, Bool.or_eq_true, beq_iff_eq] at hop
      rcases hop with (hk | hk) | hk <;> rw [hk] <;> decide
    have hp : (Expr.binary left op right).precedence = 2 := if_neg hsign
    have hright : right.precedence ≤ 2 ↔ right.precedence < 3 := Nat.lt_succ_iff.symm
    refine .of_term hp ?_
    simp only [render, hp, hright]
    exact hl.term.product hop hr.factor

theorem printed (hs : Readable tokens) : ∀ e : Expr,
    (∀ node ∈ e.nodes, node.Lexical tokens) → e.Printed
  | .number t v, h => .of_factor rfl (hs.prints_number (h _ List.mem_cons_self))
  | .variable t, h => .of_factor rfl (hs.prints_reference (h _ List.mem_cons_self))
  | .unary op e, h => by
    obtain ⟨hop, he⟩ := List.forall_mem_cons.mp h
    exact .of_factor rfl (.signed hop (printed hs e he).factor)
  | .binary left op right, h => by
    obtain ⟨hop, hoperands⟩ := List.forall_mem_cons.mp h
    obtain ⟨hleft, hright⟩ := List.forall_mem_append.mp hoperands
    exact printed_binary hop (printed hs left hleft) (printed hs right hright)

end Expr

end MiniPascal
