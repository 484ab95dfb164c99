import MiniPascal.Proofs.Grammar

/-!
# One token of lookahead suffices

`Nonterminal.continues n k` says that a token of kind `k` right behind a phrase of `n` could belong
to a longer phrase of `n`. Where the token behind is none of those, a phrase is determined by the
tokens from its start on: no other derivation from `n` fits there, and none ends elsewhere.
-/
namespace MiniPascal.Grammar

/-- The kind of the first token, which is the end of the file if there is none. -/
def ahead : List Token → Kind
  | [] => .endOfFile
  | t :: _ => t.kind

@[simp] theorem ahead_cons (t : Token) (rest : List Token) : ahead (t :: rest) = t.kind := rfl

@[simp] def Item.continues : Item → Kind → Bool
  | name, _ | group, _ => false
  | statement, k => k == .beginWord || k == .identifier || k.isSign || k.isProductOp
  | expr, k => k.isSign || k.isProductOp

@[simp] def Nonterminal.continues : Nonterminal → Kind → Bool
  | declarations, k => k == .varWord || k == .procedureWord || k == .identifier
  | varDecls, k => k == .identifier
  | formals, k => k == .openParen
  | assignment, k | chain .term, k => k.isSign || k.isProductOp
  | operand .term, k | chain .factor, k => k.isProductOp
  | actuals, k => k != .closeParen
  | item i, k => i.continues k
  | sequence i, k => k == i.separator || i.continues k
  | _, _ => false

/-- A phrase of `n` ends before the given tokens. -/
def Stops (n : Nonterminal) (tokens : List Token) : Prop :=
  n.continues (ahead tokens) = false

def startsExpr (k : Kind) : Bool :=
  k.isSign || k.isLiteral || k == .openParen || k == .identifier

namespace Derivation

theorem ahead_compound (d : Derivation .compound) (rest : List Token) :
    ahead (d.yield ++ rest) = .beginWord := by
  cases d with
  | compound start children stop => exact start.2

theorem ahead_procedureDecl (d : Derivation .procedureDecl) (rest : List Token) :
    ahead (d.yield ++ rest) = .procedureWord := by
  cases d with
  | procedureDecl head ident params mark body last => exact head.2

theorem ahead_assignment (d : Derivation .assignment) (rest : List Token) :
    ahead (d.yield ++ rest) = .identifier ∧ ahead (d.yield ++ rest).tail = .assign := by
  cases d with
  | assignment target op value => exact ⟨target.2, op.2⟩

theorem ahead_procCall (d : Derivation .procCall) (rest : List Token) :
    ahead (d.yield ++ rest) = .identifier ∧ ahead (d.yield ++ rest).tail = .openParen := by
  cases d with
  | procCall ident left args right => exact ⟨ident.2, left.2⟩

theorem ahead_names (d : Derivation (.sequence .name)) (rest : List Token) :
    ahead (d.yield ++ rest) = .identifier := by
  cases d with
  | one first => cases first with | name t => exact t.2
  | more first mark others => cases first with | name t => exact t.2

theorem ahead_group (d : Derivation (.item .group)) (rest : List Token) :
    ahead (d.yield ++ rest) = .identifier := by
  cases d with
  | group names colon type =>
    rw [yield, List.append_assoc]
    exact ahead_names names _

theorem ahead_varDecls (d : Derivation .varDecls) (rest : List Token) :
    ahead (d.yield ++ rest) = .identifier := by
  cases d with
  | lastVarDecl first mark =>
    rw [yield, List.append_assoc]
    exact ahead_group first _
  | moreVarDecls first mark others =>
    rw [yield, List.append_assoc]
    exact ahead_group first _

theorem startsExpr_factor (d : Derivation (.operand .factor)) (rest : List Token) :
    startsExpr (ahead (d.yield ++ rest)) = true := by
  cases d with
  | signed op inner => simp [yield, startsExpr, op.2]
  | number t => simp [yield, startsExpr, t.2]
  | parenthesized left inner right => simp [yield, startsExpr, left.2]
  | reference t => simp [yield, startsExpr, t.2]

theorem startsExpr_term (d : Derivation (.operand .term)) (rest : List Token) :
    startsExpr (ahead (d.yield ++ rest)) = true := by
  cases d with
  | term first more =>
    rw [yield, List.append_assoc]
    exact startsExpr_factor first _

theorem startsExpr_expr (d : Derivation (.item .expr)) (rest : List Token) :
    startsExpr (ahead (d.yield ++ rest)) = true := by
  cases d with
  | expr first more =>
    rw [yield, List.append_assoc]
    exact startsExpr_term first _

theorem startsExpr_sequence (d : Derivation (.sequence .expr)) (rest : List Token) :
    startsExpr (ahead (d.yield ++ rest)) = true := by
  cases d with
  | one first => exact startsExpr_expr first rest
  | more first mark others =>
    rw [yield, List.append_assoc]
    exact startsExpr_expr first _

theorem ahead_ne_closeParen (d : Derivation (.sequence .expr)) (rest : List Token) :
    ahead (d.yield ++ rest) ≠ .closeParen := by
  intro h
  have hs := startsExpr_sequence d rest
  rw [h] at hs
  exact absurd hs (by decide)

end Derivation

/-- A sign does not join factors. -/
theorem isProductOp_eq_false_of_isSign {k : Kind} (h : k.isSign = true) :
    k.isProductOp = false := by
  simp only [Kind.isSign, Bool.or_eq_true, beq_iff_eq] at h
  rcases h with rfl | rfl <;> rfl

theorem stops_item_separator {i : Item} (mark : Terminal i.separator) (rest : List Token) :
    Stops (.item i) (mark.1 :: rest) := by
  unfold Stops
  rw [ahead_cons, mark.2]
  cases i <;> rfl

theorem Stops.item_of_sequence {i : Item} {rest : List Token} (h : Stops (.sequence i) rest) :
    Stops (.item i) rest := by
  simp only [Stops, Nonterminal.continues, Bool.or_eq_false_iff] at h ⊢
  exact h.2

theorem Stops.ahead_ne_separator {i : Item} {rest : List Token} (h : Stops (.sequence i) rest) :
    ahead rest ≠ i.separator := by
  simp only [Stops, Nonterminal.continues, Bool.or_eq_false_iff, beq_eq_false_iff_ne] at h
  exact h.1

/-- An operand ends where the operators behind it start. -/
theorem Stops.operand_of_chain {o : Operand} {rest : List Token} (d : Derivation (.chain o))
    (h : Stops (.chain o) rest) : Stops (.operand o) (d.yield ++ rest) := by
  cases o with
  | factor => rfl
  | term =>
    cases d with
    | noLink =>
      simp only [Stops, Nonterminal.continues, Bool.or_eq_false_iff] at h
      exact h.2
    | link op right more => exact isProductOp_eq_false_of_isSign op.2

theorem Stops.ahead_joins {o : Operand} {rest : List Token} (h : Stops (.chain o) rest) :
    o.joins (ahead rest) = false := by
  cases o with
  | factor => exact h
  | term =>
    simp only [Stops, Nonterminal.continues, Bool.or_eq_false_iff] at h
    exact h.1

theorem Stops.varDecls_of_declarations {rest : List Token} (d : Derivation .declarations)
    (h : Stops .declarations rest) : Stops .varDecls (d.yield ++ rest) := by
  cases d with
  | noDeclarations =>
    simp only [Stops, Nonterminal.continues, Bool.or_eq_false_iff] at h
    exact h.2
  | varSection head first more =>
    simp [Stops, Derivation.yield, Nonterminal.continues, head.2]
  | procedure first more =>
    simp [Stops, Derivation.yield, Nonterminal.continues, Derivation.ahead_procedureDecl]

theorem stops_of_ahead {n : Nonterminal} {rest : List Token} {k : Kind} (h : ahead rest = k)
    (hk : n.continues k = false) : Stops n rest := by
  unfold Stops
  rw [h]
  exact hk

theorem Stops.sequence_of_actuals {rest : List Token} (h : Stops .actuals rest) :
    Stops (.sequence .expr) rest := by
  simp only [Stops, Nonterminal.continues, bne_eq_false_iff_eq] at h
  exact stops_of_ahead h rfl

theorem Stops.ahead_of_statement {rest : List Token} (h : Stops (.item .statement) rest) :
    ahead rest ≠ .beginWord ∧ ahead rest ≠ .identifier := by
  simp only [Stops, Nonterminal.continues, Item.continues, Bool.or_eq_false_iff,
    beq_eq_false_iff_ne] at h
  exact h.1.1

theorem Stops.assignment_of_statement {rest : List Token} (h : Stops (.item .statement) rest) :
    Stops .assignment rest := by
  simp only [Stops, Nonterminal.continues, Item.continues, Bool.or_eq_false_iff] at h ⊢
  exact ⟨h.1.2, h.2⟩

theorem leaf_cons_inj {P : Token → Prop} {t t' : Subtype P} {rest rest' : List Token}
    (h : t.1 :: rest = t'.1 :: rest') : t = t' ∧ rest = rest' :=
  ⟨Subtype.ext (List.cons.inj h).1, (List.cons.inj h).2⟩

namespace Derivation

/-- Wherever `d` fits at the start of some tokens, no other derivation does. -/
def Determined {n : Nonterminal} (d : Derivation n) : Prop :=
  ∀ (d' : Derivation n) {r r' : List Token}, d.yield ++ r = d'.yield ++ r' →
    Stops n r → Stops n r' → d = d' ∧ r = r'

theorem determined_program (head : Terminal .programWord) (ident : Terminal .identifier)
    (mark : Terminal .semicolon) {body : Derivation .block} (dot : Terminal .dot)
    (hb : body.Determined) : (program head ident mark body dot).Determined := by
  intro d' r r' h _ _
  cases d' with
  | program head' ident' mark' body' dot' =>
    simp only [yield, List.cons_append, List.append_assoc, List.nil_append] at h
    obtain ⟨rfl, h₁⟩ := leaf_cons_inj h
    obtain ⟨rfl, h₂⟩ := leaf_cons_inj h₁
    obtain ⟨rfl, h₃⟩ := leaf_cons_inj h₂
    obtain ⟨rfl, h₄⟩ := hb body' h₃ rfl rfl
    obtain ⟨rfl, h₅⟩ := leaf_cons_inj h₄
    exact ⟨rfl, h₅⟩

theorem determined_block {decls : Derivation .declarations} {body : Derivation .compound}
    (hd : decls.Determined) (hb : body.Determined) : (block decls body).Determined := by
  intro d' r r' h _ _
  cases d' with
  | block decls' body' =>
    simp only [yield, List.append_assoc] at h
    obtain ⟨rfl, h₁⟩ := hd decls' h (stops_of_ahead (ahead_compound body r) rfl)
      (stops_of_ahead (ahead_compound body' r') rfl)
    obtain ⟨rfl, h₂⟩ := hb body' h₁ rfl rfl
    exact ⟨rfl, h₂⟩

theorem determined_noDeclarations : noDeclarations.Determined := by
  intro d' r r' h hr _
  cases d' with
  | noDeclarations => exact ⟨rfl, h⟩
  | varSection head first rest =>
    simp only [yield, List.nil_append, List.cons_append] at h
    simp [Stops, h, head.2, Nonterminal.continues] at hr
  | procedure first rest =>
    simp only [yield, List.nil_append, List.append_assoc] at h
    simp [Stops, h, ahead_procedureDecl, Nonterminal.continues] at hr

theorem determined_varSection (head : Terminal .varWord) {first : Derivation .varDecls}
    {rest : Derivation .declarations} (hf : first.Determined) (hrest : rest.Determined) :
    (varSection head first rest).Determined := by
  intro d' r r' h hr hr'
  cases d' with
  | noDeclarations =>
    simp only [yield, List.nil_append, List.cons_append] at h
    simp [Stops, ← h, head.2, Nonterminal.continues] at hr'
  | varSection head' first' rest' =>
    simp only [yield, List.cons_append, List.append_assoc] at h
    obtain ⟨rfl, h₁⟩ := leaf_cons_inj h
    obtain ⟨rfl, h₂⟩ := hf first' h₁ (hr.varDecls_of_declarations rest)
      (hr'.varDecls_of_declarations rest')
    obtain ⟨rfl, h₃⟩ := hrest rest' h₂ hr hr'
    exact ⟨rfl, h₃⟩
  | procedure first' rest' =>
    simp only [yield, List.cons_append, List.append_assoc] at h
    have hk := congrArg ahead h
    simp [ahead_procedureDecl, head.2] at hk

theorem determined_procedure {first : Derivation .procedureDecl}
    {rest : Derivation .declarations} (hf : first.Determined) (hrest : rest.Determined) :
    (procedure first rest).Determined := by
  intro d' r r' h hr hr'
  cases d' with
  | noDeclarations =>
    simp only [yield, List.nil_append, List.append_assoc] at h
    simp [Stops, ← h, ahead_procedureDecl, Nonterminal.continues] at hr'
  | varSection head' first' rest' =>
    simp only [yield, List.cons_append, List.append_assoc] at h
    have hk := congrArg ahead h
    simp [ahead_procedureDecl, head'.2] at hk
  | procedure first' rest' =>
    simp only [yield, List.append_assoc] at h
    obtain ⟨rfl, h₁⟩ := hf first' h rfl rfl
    obtain ⟨rfl, h₂⟩ := hrest rest' h₁ hr hr'
    exact ⟨rfl, h₂⟩

theorem determined_lastVarDecl {first : Derivation (.item .group)} (mark : Terminal .semicolon)
    (hf : first.Determined) : (lastVarDecl first mark).Determined := by
  intro d' r r' h hr _
  cases d' with
  | lastVarDecl first' mark' =>
    simp only [yield, List.append_assoc, List.cons_append, List.nil_append] at h
    obtain ⟨rfl, h₁⟩ := hf first' h rfl rfl
    obtain ⟨rfl, h₂⟩ := leaf_cons_inj h₁
    exact ⟨rfl, h₂⟩
  | moreVarDecls first' mark' rest' =>
    simp only [yield, List.append_assoc, List.cons_append, List.nil_append] at h
    obtain ⟨rfl, h₁⟩ := hf first' h rfl rfl
    obtain ⟨rfl, h₂⟩ := leaf_cons_inj h₁
    simp [Stops, h₂, ahead_varDecls, Nonterminal.continues] at hr

theorem determined_moreVarDecls {first : Derivation (.item .group)} (mark : Terminal .semicolon)
    {rest : Derivation .varDecls} (hf : first.Determined) (hrest : rest.Determined) :
    (moreVarDecls first mark rest).Determined := by
  intro d' r r' h hr hr'
  cases d' with
  | lastVarDecl first' mark' =>
    simp only [yield, List.append_assoc, List.cons_append, List.nil_append] at h
    obtain ⟨rfl, h₁⟩ := hf first' h rfl rfl
    obtain ⟨rfl, h₂⟩ := leaf_cons_inj h₁
    simp [Stops, ← h₂, ahead_varDecls, Nonterminal.continues] at hr'
  | moreVarDecls first' mark' rest' =>
    simp only [yield, List.append_assoc, List.cons_append] at h
    obtain ⟨rfl, h₁⟩ := hf first' h rfl rfl
    obtain ⟨rfl, h₂⟩ := leaf_cons_inj h₁
    obtain ⟨rfl, h₃⟩ := hrest rest' h₂ hr hr'
    exact ⟨rfl, h₃⟩

theorem determined_group {names : Derivation (.sequence .name)} (colon : Terminal .colon)
    (type : TerminalIn Kind.isBasicType) (hn : names.Determined) :
    (group names colon type).Determined := by
  intro d' r r' h _ _
  cases d' with
  | group names' colon' type' =>
    simp only [yield, List.append_assoc, List.cons_append, List.nil_append] at h
    obtain ⟨rfl, h₁⟩ := hn names' h (stops_of_ahead colon.2 rfl) (stops_of_ahead colon'.2 rfl)
    obtain ⟨rfl, h₂⟩ := leaf_cons_inj h₁
    obtain ⟨rfl, h₃⟩ := leaf_cons_inj h₂
    exact ⟨rfl, h₃⟩

theorem determined_name (t : Terminal .identifier) : (name t).Determined := by
  intro d' r r' h _ _
  cases d' with
  | name t' =>
    obtain ⟨rfl, h₁⟩ := leaf_cons_inj h
    exact ⟨rfl, h₁⟩

theorem determined_procedureDecl (head : Terminal .procedureWord) (ident : Terminal .identifier)
    {params : Derivation .formals} (mark : Terminal .semicolon) {body : Derivation .block}
    (last : Terminal .semicolon) (hp : params.Determined) (hb : body.Determined) :
    (procedureDecl head ident params mark body last).Determined := by
  intro d' r r' h _ _
  cases d' with
  | procedureDecl head' ident' params' mark' body' last' =>
    simp only [yield, List.append_assoc, List.cons_append, List.nil_append] at h
    obtain ⟨rfl, h₁⟩ := leaf_cons_inj h
    obtain ⟨rfl, h₂⟩ := leaf_cons_inj h₁
    obtain ⟨rfl, h₃⟩ := hp params' h₂ (stops_of_ahead mark.2 rfl) (stops_of_ahead mark'.2 rfl)
    obtain ⟨rfl, h₄⟩ := leaf_cons_inj h₃
    obtain ⟨rfl, h₅⟩ := hb body' h₄ rfl rfl
    obtain ⟨rfl, h₆⟩ := leaf_cons_inj h₅
    exact ⟨rfl, h₆⟩

theorem determined_noFormals : noFormals.Determined := by
  intro d' r r' h hr _
  cases d' with
  | noFormals => exact ⟨rfl, h⟩
  | formals left groups right =>
    simp only [yield, List.nil_append, List.cons_append] at h
    simp [Stops, h, left.2, Nonterminal.continues] at hr

theorem determined_formals (left : Terminal .openParen) {groups : Derivation (.sequence .group)}
    (right : Terminal .closeParen) (hg : groups.Determined) :
    (formals left groups right).Determined := by
  intro d' r r' h _ hr'
  cases d' with
  | noFormals =>
    simp only [yield, List.nil_append, List.cons_append] at h
    simp [Stops, ← h, left.2, Nonterminal.continues] at hr'
  | formals left' groups' right' =>
    simp only [yield, List.append_assoc, List.cons_append, List.nil_append] at h
    obtain ⟨rfl, h₁⟩ := leaf_cons_inj h
    obtain ⟨rfl, h₂⟩ := hg groups' h₁ (stops_of_ahead right.2 rfl) (stops_of_ahead right'.2 rfl)
    obtain ⟨rfl, h₃⟩ := leaf_cons_inj h₂
    exact ⟨rfl, h₃⟩

theorem determined_compound (start : Terminal .beginWord)
    {children : Derivation (.sequence .statement)} (stop : Terminal .endWord)
    (hc : children.Determined) : (compound start children stop).Determined := by
  intro d' r r' h _ _
  cases d' with
  | compound start' children' stop' =>
    simp only [yield, List.append_assoc, List.cons_append, List.nil_append] at h
    obtain ⟨rfl, h₁⟩ := leaf_cons_inj h
    obtain ⟨rfl, h₂⟩ := hc children' h₁ (stops_of_ahead stop.2 rfl) (stops_of_ahead stop'.2 rfl)
    obtain ⟨rfl, h₃⟩ := leaf_cons_inj h₂
    exact ⟨rfl, h₃⟩

theorem determined_nested {c : Derivation .compound} (hc : c.Determined) :
    (nested c).Determined := by
  intro d' r r' h _ hr'
  have hk := ahead_compound c r
  rw [show c.yield ++ r = d'.yield ++ r' from h] at hk
  cases d' with
  | nested c' =>
    obtain ⟨rfl, h₁⟩ := hc c' h rfl rfl
    exact ⟨rfl, h₁⟩
  | assigning a' => exact absurd ((ahead_assignment a' r').1.symm.trans hk) (by decide)
  | calling c' => exact absurd ((ahead_procCall c' r').1.symm.trans hk) (by decide)
  | nothing => exact absurd hk hr'.ahead_of_statement.1

theorem determined_assigning {a : Derivation .assignment} (ha : a.Determined) :
    (assigning a).Determined := by
  intro d' r r' h hr hr'
  obtain ⟨hk, hk₂⟩ := ahead_assignment a r
  rw [show a.yield ++ r = d'.yield ++ r' from h] at hk hk₂
  cases d' with
  | nested c' => exact absurd ((ahead_compound c' r').symm.trans hk) (by decide)
  | assigning a' =>
    obtain ⟨rfl, h₁⟩ := ha a' h hr.assignment_of_statement hr'.assignment_of_statement
    exact ⟨rfl, h₁⟩
  | calling c' => exact absurd ((ahead_procCall c' r').2.symm.trans hk₂) (by decide)
  | nothing => exact absurd hk hr'.ahead_of_statement.2

theorem determined_calling {c : Derivation .procCall} (hc : c.Determined) :
    (calling c).Determined := by
  intro d' r r' h _ hr'
  obtain ⟨hk, hk₂⟩ := ahead_procCall c r
  rw [show c.yield ++ r = d'.yield ++ r' from h] at hk hk₂
  cases d' with
  | nested c' => exact absurd ((ahead_compound c' r').symm.trans hk) (by decide)
  | assigning a' => exact absurd ((ahead_assignment a' r').2.symm.trans hk₂) (by decide)
  | calling c' =>
    obtain ⟨rfl, h₁⟩ := hc c' h rfl rfl
    exact ⟨rfl, h₁⟩
  | nothing => exact absurd hk hr'.ahead_of_statement.2

theorem determined_nothing : nothing.Determined := by
  intro d' r r' h hr _
  have hk := hr.ahead_of_statement
  rw [show r = d'.yield ++ r' from h] at hk
  cases d' with
  | nested c' => exact absurd (ahead_compound c' r') hk.1
  | assigning a' => exact absurd (ahead_assignment a' r').1 hk.2
  | calling c' => exact absurd (ahead_procCall c' r').1 hk.2
  | nothing => exact ⟨rfl, h⟩

theorem determined_assignment (target : Terminal .identifier) (op : Terminal .assign)
    {value : Derivation (.item .expr)} (hv : value.Determined) :
    (assignment target op value).Determined := by
  intro d' r r' h hr hr'
  cases d' with
  | assignment target' op' value' =>
    simp only [yield, List.cons_append] at h
    obtain ⟨rfl, h₁⟩ := leaf_cons_inj h
    obtain ⟨rfl, h₂⟩ := leaf_cons_inj h₁
    obtain ⟨rfl, h₃⟩ := hv value' h₂ hr hr'
    exact ⟨rfl, h₃⟩

theorem determined_procCall (ident : Terminal .identifier) (left : Terminal .openParen)
    {args : Derivation .actuals} (right : Terminal .closeParen) (ha : args.Determined) :
    (procCall ident left args right).Determined := by
  intro d' r r' h _ _
  cases d' with
  | procCall ident' left' args' right' =>
    simp only [yield, List.append_assoc, List.cons_append, List.nil_append] at h
    obtain ⟨rfl, h₁⟩ := leaf_cons_inj h
    obtain ⟨rfl, h₂⟩ := leaf_cons_inj h₁
    obtain ⟨rfl, h₃⟩ := ha args' h₂ (stops_of_ahead right.2 rfl) (stops_of_ahead right'.2 rfl)
    obtain ⟨rfl, h₄⟩ := leaf_cons_inj h₃
    exact ⟨rfl, h₄⟩

theorem determined_noActuals : noActuals.Determined := by
  intro d' r r' h hr _
  cases d' with
  | noActuals => exact ⟨rfl, h⟩
  | actuals args =>
    simp only [yield, List.nil_append] at h
    simp [Stops, h, Nonterminal.continues, ahead_ne_closeParen] at hr

theorem determined_actuals {args : Derivation (.sequence .expr)} (ha : args.Determined) :
    (actuals args).Determined := by
  intro d' r r' h hr hr'
  cases d' with
  | noActuals =>
    simp only [yield, List.nil_append] at h
    simp [Stops, ← h, Nonterminal.continues, ahead_ne_closeParen] at hr'
  | actuals args' =>
    obtain ⟨rfl, h₁⟩ := ha args' h hr.sequence_of_actuals hr'.sequence_of_actuals
    exact ⟨rfl, h₁⟩

theorem determined_expr {first : Derivation (.operand .term)} {rest : Derivation (.chain .term)}
    (hf : first.Determined) (hrest : rest.Determined) : (expr first rest).Determined := by
  intro d' r r' h hr hr'
  cases d' with
  | expr first' rest' =>
    simp only [yield, List.append_assoc] at h
    obtain ⟨rfl, h₁⟩ := hf first' h (Stops.operand_of_chain rest hr)
      (Stops.operand_of_chain rest' hr')
    obtain ⟨rfl, h₂⟩ := hrest rest' h₁ hr hr'
    exact ⟨rfl, h₂⟩

theorem determined_term {first : Derivation (.operand .factor)}
    {rest : Derivation (.chain .factor)} (hf : first.Determined) (hrest : rest.Determined) :
    (term first rest).Determined := by
  intro d' r r' h hr hr'
  cases d' with
  | term first' rest' =>
    simp only [yield, List.append_assoc] at h
    obtain ⟨rfl, h₁⟩ := hf first' h rfl rfl
    obtain ⟨rfl, h₂⟩ := hrest rest' h₁ hr hr'
    exact ⟨rfl, h₂⟩

theorem determined_noLink {o : Operand} : (noLink (o := o)).Determined := by
  intro d' r r' h hr _
  cases d' with
  | noLink => exact ⟨rfl, h⟩
  | link op right rest =>
    have hj := hr.ahead_joins
    rw [show r = op.1 :: (right.yield ++ rest.yield) ++ r' from h] at hj
    exact absurd (op.2.symm.trans hj) (by decide)

theorem determined_link {o : Operand} (op : TerminalIn o.joins) {right : Derivation (.operand o)}
    {rest : Derivation (.chain o)} (ho : right.Determined) (hrest : rest.Determined) :
    (link op right rest).Determined := by
  intro d' r r' h hr hr'
  cases d' with
  | noLink =>
    have hj := hr'.ahead_joins
    rw [show r' = op.1 :: (right.yield ++ rest.yield) ++ r from h.symm] at hj
    exact absurd (op.2.symm.trans hj) (by decide)
  | link op' right' rest' =>
    simp only [yield, List.cons_append, List.append_assoc] at h
    obtain ⟨rfl, h₁⟩ := leaf_cons_inj h
    obtain ⟨rfl, h₂⟩ := ho right' h₁ (Stops.operand_of_chain rest hr)
      (Stops.operand_of_chain rest' hr')
    obtain ⟨rfl, h₃⟩ := hrest rest' h₂ hr hr'
    exact ⟨rfl, h₃⟩

def factorForm (k : Kind) : Nat :=
  if k.isSign then 0 else if k.isLiteral then 1 else if k = .openParen then 2 else 3

theorem factorForm_of_isSign {k : Kind} (h : k.isSign = true) : factorForm k = 0 :=
  if_pos h

theorem factorForm_of_isLiteral {k : Kind} (h : k.isLiteral = true) : factorForm k = 1 := by
  simp only [Kind.isLiteral, Bool.or_eq_true, beq_iff_eq] at h
  rcases h with rfl | rfl <;> rfl

theorem factorForm_of_openParen {k : Kind} (h : k = .openParen) : factorForm k = 2 := by
  rw [h]
  rfl

theorem factorForm_of_identifier {k : Kind} (h : k = .identifier) : factorForm k = 3 := by
  rw [h]
  rfl

theorem determined_signed (op : TerminalIn Kind.isSign) {inner : Derivation (.operand .factor)}
    (hi : inner.Determined) : (signed op inner).Determined := by
  intro d' r r' h _ _
  have hk := congrArg (fun tokens => factorForm (ahead tokens)) h
  simp only [yield, List.cons_append, ahead_cons, factorForm_of_isSign op.2] at hk
  cases d' with
  | signed op' inner' =>
    simp only [yield, List.cons_append] at h
    obtain ⟨rfl, h₁⟩ := leaf_cons_inj h
    obtain ⟨rfl, h₂⟩ := hi inner' h₁ rfl rfl
    exact ⟨rfl, h₂⟩
  | number t' => exact absurd (hk.trans (factorForm_of_isLiteral t'.2)) (by decide)
  | parenthesized left' inner' right' =>
    exact absurd (hk.trans (factorForm_of_openParen left'.2)) (by decide)
  | reference t' => exact absurd (hk.trans (factorForm_of_identifier t'.2)) (by decide)

theorem determined_number (t : TerminalIn Kind.isLiteral) : (number t).Determined := by
  intro d' r r' h _ _
  have hk := congrArg (fun tokens => factorForm (ahead tokens)) h
  simp only [yield, List.cons_append, ahead_cons, factorForm_of_isLiteral t.2] at hk
  cases d' with
  | signed op' inner' => exact absurd (hk.trans (factorForm_of_isSign op'.2)) (by decide)
  | number t' =>
    obtain ⟨rfl, h₁⟩ := leaf_cons_inj h
    exact ⟨rfl, h₁⟩
  | parenthesized left' inner' right' =>
    exact absurd (hk.trans (factorForm_of_openParen left'.2)) (by decide)
  | reference t' => exact absurd (hk.trans (factorForm_of_identifier t'.2)) (by decide)

theorem determined_parenthesized (left : Terminal .openParen) {inner : Derivation (.item .expr)}
    (right : Terminal .closeParen) (hi : inner.Determined) :
    (parenthesized left inner right).Determined := by
  intro d' r r' h _ _
  have hk := congrArg (fun tokens => factorForm (ahead tokens)) h
  simp only [yield, List.cons_append, ahead_cons, factorForm_of_openParen left.2] at hk
  cases d' with
  | signed op' inner' => exact absurd (hk.trans (factorForm_of_isSign op'.2)) (by decide)
  | number t' => exact absurd (hk.trans (factorForm_of_isLiteral t'.2)) (by decide)
  | parenthesized left' inner' right' =>
    simp only [yield, List.append_assoc, List.cons_append, List.nil_append] at h
    obtain ⟨rfl, h₁⟩ := leaf_cons_inj h
    obtain ⟨rfl, h₂⟩ := hi inner' h₁ (stops_of_ahead right.2 rfl) (stops_of_ahead right'.2 rfl)
    obtain ⟨rfl, h₃⟩ := leaf_cons_inj h₂
    exact ⟨rfl, h₃⟩
  | reference t' => exact absurd (hk.trans (factorForm_of_identifier t'.2)) (by decide)

theorem determined_reference (t : Terminal .identifier) : (reference t).Determined := by
  intro d' r r' h _ _
  have hk := congrArg (fun tokens => factorForm (ahead tokens)) h
  simp only [yield, List.cons_append, ahead_cons, factorForm_of_identifier t.2] at hk
  cases d' with
  | signed op' inner' => exact absurd (hk.trans (factorForm_of_isSign op'.2)) (by decide)
  | number t' => exact absurd (hk.trans (factorForm_of_isLiteral t'.2)) (by decide)
  | parenthesized left' inner' right' =>
    exact absurd (hk.trans (factorForm_of_openParen left'.2)) (by decide)
  | reference t' =>
    obtain ⟨rfl, h₁⟩ := leaf_cons_inj h
    exact ⟨rfl, h₁⟩

theorem determined_one {i : Item} {first : Derivation (.item i)} (hf : first.Determined) :
    (one first).Determined := by
  intro d' r r' h hr hr'
  cases d' with
  | one first' =>
    obtain ⟨rfl, h₁⟩ := hf first' h hr.item_of_sequence hr'.item_of_sequence
    exact ⟨rfl, h₁⟩
  | more first' mark' rest' =>
    simp only [yield, List.append_assoc, List.cons_append] at h
    obtain ⟨rfl, h₁⟩ := hf first' h hr.item_of_sequence (stops_item_separator mark' _)
    exact absurd ((congrArg ahead h₁).trans mark'.2) hr.ahead_ne_separator

theorem determined_more {i : Item} {first : Derivation (.item i)} (mark : Terminal i.separator)
    {rest : Derivation (.sequence i)} (hf : first.Determined) (hrest : rest.Determined) :
    (more first mark rest).Determined := by
  intro d' r r' h hr hr'
  cases d' with
  | one first' =>
    simp only [yield, List.append_assoc, List.cons_append] at h
    obtain ⟨rfl, h₁⟩ := hf first' h (stops_item_separator mark _) hr'.item_of_sequence
    exact absurd ((congrArg ahead h₁.symm).trans mark.2) hr'.ahead_ne_separator
  | more first' mark' rest' =>
    simp only [yield, List.append_assoc, List.cons_append] at h
    obtain ⟨rfl, h₁⟩ := hf first' h (stops_item_separator mark _) (stops_item_separator mark' _)
    obtain ⟨rfl, h₂⟩ := leaf_cons_inj h₁
    obtain ⟨rfl, h₃⟩ := hrest rest' h₂ hr hr'
    exact ⟨rfl, h₃⟩

theorem determined {n : Nonterminal} (d : Derivation n) : d.Determined := by
  induction d with
  | program head ident mark body dot ih => exact determined_program head ident mark dot ih
  | block decls body ihd ihb => exact determined_block ihd ihb
  | noDeclarations => exact determined_noDeclarations
  | varSection head first rest ihf ihr => exact determined_varSection head ihf ihr
  | procedure first rest ihf ihr => exact determined_procedure ihf ihr
  | lastVarDecl first mark ih => exact determined_lastVarDecl mark ih
  | moreVarDecls first mark rest ihf ihr => exact determined_moreVarDecls mark ihf ihr
  | group names colon type ih => exact determined_group colon type ih
  | name t => exact determined_name t
  | procedureDecl head ident params mark body last ihp ihb =>
    exact determined_procedureDecl head ident mark last ihp ihb
  | noFormals => exact determined_noFormals
  | formals left groups right ih => exact determined_formals left right ih
  | compound start children stop ih => exact determined_compound start stop ih
  | nested c ih => exact determined_nested ih
  | assigning a ih => exact determined_assigning ih
  | calling c ih => exact determined_calling ih
  | nothing => exact determined_nothing
  | assignment target op value ih => exact determined_assignment target op ih
  | procCall ident left args right ih => exact determined_procCall ident left right ih
  | noActuals => exact determined_noActuals
  | actuals args ih => exact determined_actuals ih
  | expr first rest ihf ihr => exact determined_expr ihf ihr
  | term first rest ihf ihr => exact determined_term ihf ihr
  | noLink => exact determined_noLink
  | link op right rest iho ihr => exact determined_link op iho ihr
  | signed op inner ih => exact determined_signed op ih
  | number t => exact determined_number t
  | parenthesized left inner right ih => exact determined_parenthesized left right ih
  | reference t => exact determined_reference t
  | one first ih => exact determined_one ih
  | more first mark rest ihf ihr => exact determined_more mark ihf ihr

/-- The grammar is unambiguous: a phrase up to the end of the tokens has one derivation. -/
theorem yield_injective {n : Nonterminal} (hn : n.continues .endOfFile = false)
    {d d' : Derivation n} (h : d.yield = d'.yield) : d = d' := by
  have hn' : Stops n [] := hn
  have ha : d.yield ++ [] = d'.yield ++ [] := by rw [h]
  exact (determined d d' ha hn' hn').1

end Derivation

end MiniPascal.Grammar
