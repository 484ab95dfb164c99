import MiniPascal.Proofs.Grammar.Unambiguous
import MiniPascal.Syntax.Parser

/-!
# What the grammar derives is read by the parser

A parser reads a derivation if, given its yield and then tokens that cannot continue it, the parser
takes the yield and returns the tree. Each function of the parser reads every derivation from its
nonterminal whose yield is no longer than the bound that the function was given.
-/
namespace MiniPascal.Parser

open Grammar

variable {α β : Type}

theorem bind_of_ok {p : Parser α} {f : α → Parser β} {s s₁ : TokenStream} {a : α}
    (h : p s = .ok (a, s₁)) : (p >>= f) s = f a s₁ := by
  change (p s >>= fun x => f x.1 x.2) = _
  rw [h]
  rfl

theorem peek_cons (t : Token) (rest : List Token) (stop : Stop) :
    peek ⟨t :: rest, stop⟩ = .ok (t, ⟨t :: rest, stop⟩) := rfl

theorem advance_cons (t : Token) (rest : List Token) (stop : Stop) :
    advance ⟨t :: rest, stop⟩ = .ok ((), ⟨rest, stop⟩) := rfl

theorem eat_cons {k : Kind} {t : Token} (h : t.kind = k) (rest : List Token) (stop : Stop) :
    eat k ⟨t :: rest, stop⟩ = .ok (t, ⟨rest, stop⟩) := by
  unfold eat
  rw [bind_of_ok (peek_cons t rest stop), if_pos h]
  rfl

section

variable {eof : Token} (heof : eof.kind = .endOfFile)
include heof

theorem peek_of_ahead (tokens : List Token) :
    ∃ t, peek ⟨tokens, .endOfFile eof⟩ = .ok (t, ⟨tokens, .endOfFile eof⟩) ∧
      t.kind = ahead tokens := by
  cases tokens with
  | nil => exact ⟨eof, rfl, heof⟩
  | cons t rest => exact ⟨t, rfl, rfl⟩

theorem nextIs_of_ahead (k : Kind) (tokens : List Token) :
    nextIs k ⟨tokens, .endOfFile eof⟩ = .ok (ahead tokens == k, ⟨tokens, .endOfFile eof⟩) := by
  obtain ⟨t, ht, hk⟩ := peek_of_ahead heof tokens
  unfold nextIs
  rw [bind_of_ok ht, hk]
  rfl

end

theorem number_reads (t : TerminalIn Kind.isLiteral) (hr : (constant t.1).isSome = true)
    (rest : List Token) (stop : Stop) :
    number t.1 ⟨t.1 :: rest, stop⟩ = .ok ((Derivation.number t).tree, ⟨rest, stop⟩) := by
  obtain ⟨v, hv⟩ := Option.isSome_iff_exists.mp hr
  have hl : Value.ofLexeme? t.1.kind t.1.lexemeText = some v := hv
  unfold number
  rw [Derivation.tree, hv, hl]
  rfl

/-- The parser takes the yield of `d` off any tokens behind which `d` cannot go on. -/
def Reads (eof : Token) (n : Nonterminal) (p : Parser n.Tree) (d : Derivation n) : Prop :=
  InRange d.yield → ∀ rest, Stops n rest →
    p ⟨d.yield ++ rest, .endOfFile eof⟩ = .ok (d.tree, ⟨rest, .endOfFile eof⟩)

def ReadsWithin (eof : Token) (bound : Nat) (n : Nonterminal) (p : Parser n.Tree) : Prop :=
  ∀ d : Derivation n, d.yield.length ≤ bound → Reads eof n p d

section

variable {eof : Token} (heof : eof.kind = .endOfFile) {bound : Nat}
include heof

theorem sepBy_reads {i : Item} {item : Parser i.Tree} (hi : ReadsWithin eof bound (.item i) item)
    (k : Nat) {d : Derivation (.sequence i)} (hk : d.yield.length ≤ k)
    (hb : d.yield.length ≤ bound) : Reads eof (.sequence i) (sepBy i.separator item k) d := by
  induction k generalizing d with
  | zero =>
    intro hr rest hstop
    cases d with
    | one first =>
      simp only [Derivation.yield] at hb hr ⊢
      rw [sepBy, bind_of_ok (hi first hb hr rest hstop.item_of_sequence)]
      rfl
    | more first mark others =>
      simp only [Derivation.yield, List.length_append, List.length_cons] at hk
      omega
  | succ k ih =>
    intro hr rest hstop
    cases d with
    | one first =>
      simp only [Derivation.yield] at hb hr ⊢
      have hn : (ahead rest == i.separator) = false :=
        beq_eq_false_iff_ne.mpr hstop.ahead_ne_separator
      rw [sepBy, bind_of_ok (hi first hb hr rest hstop.item_of_sequence),
        bind_of_ok (nextIs_of_ahead heof _ rest), hn]
      rfl
    | more first mark others =>
      simp only [Derivation.yield, List.length_append, List.length_cons] at hk hb hr ⊢
      obtain ⟨hr₁, hr₂⟩ := inRange_append.mp hr
      have hfirst := hi first (by omega) hr₁ (mark.1 :: (others.yield ++ rest))
        (stops_item_separator mark _)
      have hothers := ih (by omega) (by omega) (inRange_cons.mp hr₂).2 rest hstop
      have hn : (ahead (mark.1 :: (others.yield ++ rest)) == i.separator) = true :=
        beq_iff_eq.mpr mark.2
      rw [List.append_assoc, sepBy, List.cons_append, bind_of_ok hfirst,
        bind_of_ok (nextIs_of_ahead heof _ _), hn, if_pos rfl, bind_of_ok (eat_cons mark.2 _ _),
        bind_of_ok hothers]
      rfl

theorem chain_reads {o : Operand} {operand : Parser Expr}
    (ho : ReadsWithin eof bound (.operand o) operand) (k : Nat) {d : Derivation (.chain o)}
    (hk : d.yield.length ≤ k) (hb : d.yield.length ≤ bound) (hr : InRange d.yield) (left : Expr)
    {rest : List Token} (hstop : Stops (.chain o) rest) :
    chain o.joins operand k left ⟨d.yield ++ rest, .endOfFile eof⟩ =
      .ok (joined left d.tree, ⟨rest, .endOfFile eof⟩) := by
  induction k generalizing d left with
  | zero =>
    cases d with
    | noLink => rfl
    | link op right others =>
      simp only [Derivation.yield, List.length_cons] at hk
      omega
  | succ k ih =>
    cases d with
    | noLink =>
      obtain ⟨t, ht, hkind⟩ := peek_of_ahead heof rest
      have hj : o.joins t.kind = false := hkind ▸ hstop.ahead_joins
      change chain o.joins operand (k + 1) left ⟨rest, .endOfFile eof⟩ = _
      rw [chain, bind_of_ok ht, hj]
      rfl
    | link op right others =>
      simp only [Derivation.yield, List.length_append, List.length_cons] at hk hb hr ⊢
      obtain ⟨hr₁, hr₂⟩ := inRange_append.mp (inRange_cons.mp hr).2
      have hright := ho right (by omega) hr₁ (others.yield ++ rest)
        (Stops.operand_of_chain others hstop)
      have hothers := ih (by omega) (by omega) hr₂ (.binary left op.1 right.tree)
      rw [List.cons_append, List.append_assoc, chain, bind_of_ok (peek_cons _ _ _),
        if_pos op.2, bind_of_ok (advance_cons _ _ _), bind_of_ok hright, hothers]
      rfl

theorem term_reads {factor : Parser Expr}
    (hf : ReadsWithin eof bound (.operand .factor) factor) {k : Nat} (hk : bound ≤ k) :
    ReadsWithin eof bound (.operand .term) (term factor k) := by
  intro d hb hr rest hstop
  cases d with
  | term first others =>
    simp only [Derivation.yield, List.length_append] at hb hr ⊢
    obtain ⟨hr₁, hr₂⟩ := inRange_append.mp hr
    have hfirst := hf first (by omega) hr₁ (others.yield ++ rest) rfl
    rw [List.append_assoc, term, bind_of_ok hfirst]
    exact chain_reads heof (o := .factor) hf k (by omega) (by omega) hr₂ first.tree hstop

theorem sum_reads {factor : Parser Expr}
    (hf : ReadsWithin eof bound (.operand .factor) factor) {k : Nat} (hk : bound ≤ k) :
    ReadsWithin eof bound (.item .expr) (sum factor k) := by
  have ht := term_reads heof hf hk
  intro d hb hr rest hstop
  cases d with
  | expr first others =>
    simp only [Derivation.yield, List.length_append] at hb hr ⊢
    obtain ⟨hr₁, hr₂⟩ := inRange_append.mp hr
    have hfirst := ht first (by omega) hr₁ (others.yield ++ rest)
      (Stops.operand_of_chain others hstop)
    rw [List.append_assoc, sum, bind_of_ok hfirst]
    exact chain_reads heof (o := .term) ht k (by omega) (by omega) hr₂ first.tree hstop

theorem factor_reads (n : Nat) : ReadsWithin eof n (.operand .factor) (factor n) := by
  induction n with
  | zero =>
    intro d hb
    cases d <;> simp [Derivation.yield] at hb
  | succ n ih =>
    intro d hb hr rest _
    cases d with
    | signed op inner =>
      simp only [Derivation.yield, List.length_cons] at hb hr ⊢
      have hinner := ih inner (by omega) (inRange_cons.mp hr).2 rest rfl
      have hop := op.2
      simp only [Kind.isSign, Bool.or_eq_true, beq_iff_eq] at hop
      rw [List.cons_append, factor, bind_of_ok (peek_cons _ _ _)]
      rcases hop with hop | hop
      · simp only [hop]
        rw [bind_of_ok (advance_cons _ _ _), bind_of_ok hinner]
        rfl
      · simp only [hop]
        rw [bind_of_ok (advance_cons _ _ _), bind_of_ok hinner]
        rfl
    | number t =>
      have hnum := number_reads t ((inRange_cons.mp hr).1 t.2) rest (.endOfFile eof)
      have ht := t.2
      simp only [Kind.isLiteral, Bool.or_eq_true, beq_iff_eq] at ht
      simp only [Derivation.yield]
      rw [List.cons_append, List.nil_append, factor, bind_of_ok (peek_cons _ _ _)]
      rcases ht with ht | ht
      · simp only [ht]
        exact hnum
      · simp only [ht]
        exact hnum
    | parenthesized left inner right =>
      simp only [Derivation.yield, List.length_cons, List.length_append, List.length_nil] at hb hr ⊢
      have hr₁ := (inRange_append.mp (inRange_cons.mp hr).2).1
      have hinner := sum_reads heof ih (Nat.le_refl n) inner (by omega) hr₁ (right.1 :: rest)
        (stops_of_ahead right.2 rfl)
      rw [List.cons_append, List.append_assoc, List.cons_append, List.nil_append, factor,
        bind_of_ok (peek_cons _ _ _)]
      simp only [left.2]
      rw [bind_of_ok (advance_cons _ _ _), bind_of_ok hinner,
        bind_of_ok (eat_cons right.2 _ _)]
      rfl
    | reference t =>
      simp only [Derivation.yield]
      rw [List.cons_append, List.nil_append, factor, bind_of_ok (peek_cons _ _ _)]
      simp only [t.2]
      rfl

theorem expression_reads (n : Nat) : ReadsWithin eof n (.item .expr) (expression n) :=
  sum_reads heof (factor_reads heof n) (Nat.le_refl n)

theorem assignment_reads (n : Nat) (target : Terminal .identifier) (op : Terminal .assign)
    {value : Derivation (.item .expr)} (hb : value.yield.length ≤ n) (hr : InRange value.yield)
    {rest : List Token} (hstop : Stops (.item .expr) rest) :
    assignment n target.1 ⟨op.1 :: (value.yield ++ rest), .endOfFile eof⟩ =
      .ok ((Derivation.assignment target op value).tree, ⟨rest, .endOfFile eof⟩) := by
  rw [assignment, bind_of_ok (eat_cons op.2 _ _),
    bind_of_ok (expression_reads heof n value hb hr rest hstop)]
  rfl

theorem call_reads (n : Nat) (name : Terminal .identifier) (left : Terminal .openParen)
    {args : Derivation .actuals} (right : Terminal .closeParen) (hb : args.yield.length ≤ n)
    (hr : InRange args.yield) (rest : List Token) :
    call n name.1 ⟨left.1 :: (args.yield ++ right.1 :: rest), .endOfFile eof⟩ =
      .ok ((Derivation.procCall name left args right).tree, ⟨rest, .endOfFile eof⟩) := by
  rw [call, bind_of_ok (eat_cons left.2 _ _), bind_of_ok (nextIs_of_ahead heof _ _)]
  cases args with
  | noActuals =>
    have hn : (ahead (right.1 :: rest) == .closeParen) = true := beq_iff_eq.mpr right.2
    have hnone : (pure [] : Parser (List Expr)) ⟨right.1 :: rest, .endOfFile eof⟩ =
        .ok ([], ⟨right.1 :: rest, .endOfFile eof⟩) := rfl
    simp only [Derivation.yield, List.nil_append, hn, if_true]
    rw [bind_of_ok hnone, bind_of_ok (eat_cons right.2 _ _)]
    rfl
  | actuals args =>
    have hn : (ahead (args.yield ++ right.1 :: rest) == .closeParen) = false :=
      beq_eq_false_iff_ne.mpr (Derivation.ahead_ne_closeParen args _)
    have hargs : sepBy .comma (expression n) n ⟨args.yield ++ right.1 :: rest, .endOfFile eof⟩ =
        .ok (args.tree, ⟨right.1 :: rest, .endOfFile eof⟩) :=
      sepBy_reads heof (expression_reads heof n) n hb hb hr _ (stops_of_ahead right.2 rfl)
    simp only [Derivation.yield, hn]
    rw [if_neg Bool.false_ne_true, bind_of_ok hargs, bind_of_ok (eat_cons right.2 _ _)]
    rfl

theorem compound_reads {statement : Parser Stmt}
    (hst : ReadsWithin eof bound (.item .statement) statement) {k : Nat} (hk : bound ≤ k) :
    ReadsWithin eof (bound + 1) .compound (compound statement k) := by
  intro d hb hr rest _
  cases d with
  | compound start children stop =>
    simp only [Derivation.yield, List.length_cons, List.length_append, List.length_nil] at hb hr ⊢
    have hr₁ := (inRange_append.mp (inRange_cons.mp hr).2).1
    have hchildren : sepBy .semicolon statement k
        ⟨children.yield ++ stop.1 :: rest, .endOfFile eof⟩ =
          .ok (children.tree, ⟨stop.1 :: rest, .endOfFile eof⟩) :=
      sepBy_reads heof hst k (by omega) (by omega) hr₁ _ (stops_of_ahead stop.2 rfl)
    rw [List.cons_append, List.append_assoc, List.cons_append, List.nil_append, compound,
      bind_of_ok (eat_cons start.2 _ _), bind_of_ok hchildren, bind_of_ok (eat_cons stop.2 _ _)]
    rfl

theorem statement_nothing (n : Nat) {rest : List Token} (hstop : Stops (.item .statement) rest) :
    statement n ⟨rest, .endOfFile eof⟩ = .ok (.empty, ⟨rest, .endOfFile eof⟩) := by
  obtain ⟨t, ht, hk⟩ := peek_of_ahead heof rest
  obtain ⟨hbegin, hident⟩ := hstop.ahead_of_statement
  rw [← hk] at hbegin hident
  cases n with
  | zero =>
    rw [statement, bind_of_ok ht]
    rfl
  | succ n =>
    rw [statement, bind_of_ok ht]
    cases hkind : t.kind
    case beginWord => exact absurd hkind hbegin
    case identifier => exact absurd hkind hident
    all_goals rfl

theorem statement_reads (n : Nat) : ReadsWithin eof n (.item .statement) (statement n) := by
  induction n with
  | zero =>
    intro d hb hr rest hstop
    cases d with
    | nested c => cases c; simp [Derivation.yield] at hb
    | assigning a => cases a; simp [Derivation.yield] at hb
    | calling c => cases c; simp [Derivation.yield] at hb
    | nothing => exact statement_nothing heof 0 hstop
  | succ n ih =>
    intro d hb hr rest hstop
    cases d with
    | nested c =>
      have hc := compound_reads heof ih (Nat.le_refl n) c hb hr rest rfl
      simp only [Derivation.yield]
      obtain ⟨t, ht, hk⟩ := peek_of_ahead heof (c.yield ++ rest)
      rw [statement, bind_of_ok ht]
      simp only [hk.trans (Derivation.ahead_compound c rest)]
      rw [bind_of_ok hc]
      rfl
    | assigning a =>
      cases a with
      | assignment target op value =>
        simp only [Derivation.yield, List.length_cons] at hb hr ⊢
        have hr₁ := (inRange_cons.mp (inRange_cons.mp hr).2).2
        have hn : (ahead (op.1 :: (value.yield ++ rest)) == .openParen) = false := by
          rw [ahead_cons, op.2]
          rfl
        have ha := assignment_reads heof n target op (by omega) hr₁
          (show Stops (.item .expr) rest from hstop.assignment_of_statement)
        rw [List.cons_append, List.cons_append, statement, bind_of_ok (peek_cons _ _ _)]
        simp only [target.2]
        rw [bind_of_ok (eat_cons target.2 _ _), bind_of_ok (nextIs_of_ahead heof _ _), hn,
          if_neg Bool.false_ne_true, ha]
        rfl
    | calling c =>
      cases c with
      | procCall name left args right =>
        simp only [Derivation.yield, List.length_cons, List.length_append, List.length_nil]
          at hb hr ⊢
        have hr₁ := (inRange_append.mp (inRange_cons.mp (inRange_cons.mp hr).2).2).1
        have hn : (ahead (left.1 :: (args.yield ++ right.1 :: rest)) == .openParen) = true :=
          beq_iff_eq.mpr left.2
        have hc := call_reads heof n name left right (by omega) hr₁ rest
        rw [List.cons_append, List.cons_append, List.append_assoc, List.cons_append,
          List.nil_append, statement, bind_of_ok (peek_cons _ _ _)]
        simp only [name.2]
        rw [bind_of_ok (eat_cons name.2 _ _), bind_of_ok (nextIs_of_ahead heof _ _), hn,
          if_pos rfl, hc]
        rfl
    | nothing => exact statement_nothing heof (n + 1) hstop

theorem group_reads (n : Nat) : ReadsWithin eof n (.item .group) (group n) := by
  intro d hb hr rest _
  cases d with
  | group names colon type =>
    simp only [Derivation.yield, List.length_cons, List.length_append, List.length_nil] at hb hr ⊢
    have hname : ReadsWithin eof n (.item .name) (eat .identifier) := by
      intro d _ _ rest _
      cases d with
      | name t => exact eat_cons t.2 rest _
    have hnames : sepBy .comma (eat .identifier) n
        ⟨names.yield ++ colon.1 :: type.1 :: rest, .endOfFile eof⟩ =
          .ok (names.tree, ⟨colon.1 :: type.1 :: rest, .endOfFile eof⟩) :=
      sepBy_reads heof hname n (by omega) (by omega) (inRange_append.mp hr).1 _
        (stops_of_ahead colon.2 rfl)
    have htype : Parser.type ⟨type.1 :: rest, .endOfFile eof⟩ =
        .ok (type.1, ⟨rest, .endOfFile eof⟩) := by
      rw [Parser.type, bind_of_ok (peek_cons _ _ _), if_pos type.2]
      rfl
    rw [List.append_assoc, List.cons_append, List.cons_append, List.nil_append, group,
      bind_of_ok hnames, bind_of_ok (eat_cons colon.2 _ _), bind_of_ok htype]
    rfl

theorem variableGroup_reads (n : Nat) {d : Derivation (.item .group)} (mark : Terminal .semicolon)
    (hb : d.yield.length ≤ n) (hr : InRange d.yield) (rest : List Token) :
    variableGroup n ⟨d.yield ++ mark.1 :: rest, .endOfFile eof⟩ =
      .ok ((Derivation.lastVarDecl d mark).tree, ⟨rest, .endOfFile eof⟩) := by
  rw [variableGroup, bind_of_ok (group_reads heof n d hb hr (mark.1 :: rest) rfl),
    bind_of_ok (eat_cons mark.2 _ _)]
  rfl

theorem variableSection_reads (n m : Nat) {d : Derivation .varDecls} (hn : d.yield.length ≤ n)
    (hm : d.yield.length ≤ m) : Reads eof .varDecls (variableSection n m) d := by
  induction m generalizing d with
  | zero =>
    cases d <;> simp [Derivation.yield] at hm
  | succ m ih =>
    intro hr rest hstop
    cases d with
    | lastVarDecl first mark =>
      simp only [Derivation.yield, List.length_append] at hn hr ⊢
      have hfirst := variableGroup_reads heof n mark (by omega) (inRange_append.mp hr).1 rest
      have hi : (ahead rest == .identifier) = false := hstop
      rw [List.append_assoc, List.cons_append, List.nil_append, variableSection,
        bind_of_ok hfirst, bind_of_ok (nextIs_of_ahead heof _ _), hi,
        if_neg Bool.false_ne_true]
      rfl
    | moreVarDecls first mark others =>
      simp only [Derivation.yield, List.length_append, List.length_cons] at hn hm hr ⊢
      obtain ⟨hr₁, hr₂⟩ := inRange_append.mp hr
      have hfirst := variableGroup_reads heof n mark (by omega) hr₁ (others.yield ++ rest)
      have hothers := ih (by omega) (by omega) (inRange_cons.mp hr₂).2 rest hstop
      have hi : (ahead (others.yield ++ rest) == .identifier) = true :=
        beq_iff_eq.mpr (Derivation.ahead_varDecls others rest)
      rw [List.append_assoc, List.cons_append, variableSection, bind_of_ok hfirst,
        bind_of_ok (nextIs_of_ahead heof _ _), hi, if_pos rfl, bind_of_ok hothers]
      rfl

theorem params_reads (n : Nat) : ReadsWithin eof n .formals (params n) := by
  intro d hb hr rest hstop
  cases d with
  | noFormals =>
    have hp : (ahead rest == .openParen) = false := hstop
    simp only [Derivation.yield, List.nil_append]
    rw [params, bind_of_ok (nextIs_of_ahead heof _ _), hp, if_neg Bool.false_ne_true]
    rfl
  | formals left groups right =>
    simp only [Derivation.yield, List.length_cons, List.length_append, List.length_nil] at hb hr ⊢
    have hr₁ := (inRange_append.mp (inRange_cons.mp hr).2).1
    have hgroups : sepBy .semicolon (group n) n
        ⟨groups.yield ++ right.1 :: rest, .endOfFile eof⟩ =
          .ok (groups.tree, ⟨right.1 :: rest, .endOfFile eof⟩) :=
      sepBy_reads heof (group_reads heof n) n (by omega) (by omega) hr₁ _
        (stops_of_ahead right.2 rfl)
    have hp : (ahead (left.1 :: (groups.yield ++ right.1 :: rest)) == .openParen) = true :=
      beq_iff_eq.mpr left.2
    rw [List.cons_append, List.append_assoc, List.cons_append, List.nil_append, params,
      bind_of_ok (nextIs_of_ahead heof _ _), hp, if_pos rfl, bind_of_ok (eat_cons left.2 _ _),
      bind_of_ok hgroups, bind_of_ok (eat_cons right.2 _ _)]
    rfl

theorem procedure_reads {block : Parser Block} (hblock : ReadsWithin eof bound .block block)
    {n : Nat} (hn : bound ≤ n) :
    ReadsWithin eof (bound + 1) .procedureDecl (procedure block n) := by
  intro d hb hr rest _
  cases d with
  | procedureDecl head name formals mark body last =>
    simp only [Derivation.yield, List.length_cons, List.length_append, List.length_nil] at hb hr ⊢
    obtain ⟨hr₁, hr₂⟩ := inRange_append.mp (inRange_cons.mp (inRange_cons.mp hr).2).2
    have hr₃ := (inRange_append.mp (inRange_cons.mp hr₂).2).1
    have hparams := params_reads heof n formals (by omega) hr₁
      (mark.1 :: (body.yield ++ last.1 :: rest)) (stops_of_ahead mark.2 rfl)
    have hbody := hblock body (by omega) hr₃ (last.1 :: rest) rfl
    simp only [List.cons_append, List.append_assoc, List.nil_append]
    rw [procedure, bind_of_ok (eat_cons head.2 _ _), bind_of_ok (eat_cons name.2 _ _),
      bind_of_ok hparams, bind_of_ok (eat_cons mark.2 _ _), bind_of_ok hbody,
      bind_of_ok (eat_cons last.2 _ _)]
    rfl

theorem declarations_nothing {block : Parser Block} (n m : Nat) {rest : List Token}
    (hstop : Stops .declarations rest) :
    declarations block n m ⟨rest, .endOfFile eof⟩ = .ok ([], ⟨rest, .endOfFile eof⟩) := by
  obtain ⟨t, ht, hk⟩ := peek_of_ahead heof rest
  simp only [Stops, Nonterminal.continues, Bool.or_eq_false_iff, beq_eq_false_iff_ne, ← hk]
    at hstop
  cases m with
  | zero =>
    rw [declarations, bind_of_ok ht]
    rfl
  | succ m =>
    rw [declarations, bind_of_ok ht]
    cases hkind : t.kind
    case varWord => exact absurd hkind hstop.1.1
    case procedureWord => exact absurd hkind hstop.1.2
    all_goals rfl

theorem declarations_reads {block : Parser Block} (hblock : ReadsWithin eof bound .block block)
    {n : Nat} (hn : bound ≤ n) (m : Nat) {d : Derivation .declarations}
    (hm : d.yield.length ≤ m) (hb : d.yield.length ≤ bound + 1) :
    Reads eof .declarations (declarations block n m) d := by
  induction m generalizing d with
  | zero =>
    intro hr rest hstop
    cases d with
    | noDeclarations => exact declarations_nothing heof n 0 hstop
    | varSection head first others => simp [Derivation.yield] at hm
    | procedure first others => cases first; simp [Derivation.yield] at hm
  | succ m ih =>
    intro hr rest hstop
    cases d with
    | noDeclarations => exact declarations_nothing heof n (m + 1) hstop
    | varSection head first others =>
      simp only [Derivation.yield, List.length_cons, List.length_append] at hm hb hr ⊢
      obtain ⟨hr₁, hr₂⟩ := inRange_append.mp (inRange_cons.mp hr).2
      have hfirst := variableSection_reads heof n n (d := first) (by omega) (by omega) hr₁
        (others.yield ++ rest) (hstop.varDecls_of_declarations others)
      have hothers := ih (by omega) (by omega) hr₂ rest hstop
      rw [List.cons_append, List.append_assoc, declarations, bind_of_ok (peek_cons _ _ _)]
      simp only [head.2]
      rw [bind_of_ok (eat_cons head.2 _ _), bind_of_ok hfirst, bind_of_ok hothers]
      rfl
    | procedure first others =>
      simp only [Derivation.yield, List.length_append] at hm hb hr ⊢
      have hpos : 0 < first.yield.length := by
        cases first
        simp [Derivation.yield]
      obtain ⟨hr₁, hr₂⟩ := inRange_append.mp hr
      have hfirst := procedure_reads heof hblock hn first (by omega) hr₁ (others.yield ++ rest) rfl
      have hothers := ih (by omega) (by omega) hr₂ rest hstop
      obtain ⟨t, ht, hk⟩ := peek_of_ahead heof (first.yield ++ (others.yield ++ rest))
      rw [List.append_assoc, declarations, bind_of_ok ht]
      simp only [hk.trans (Derivation.ahead_procedureDecl first _)]
      rw [bind_of_ok hfirst, bind_of_ok hothers]
      rfl

theorem block_reads (n : Nat) : ReadsWithin eof n .block (block n) := by
  induction n with
  | zero =>
    intro d hb
    cases d with
    | block decls body => cases body; simp [Derivation.yield] at hb
  | succ n ih =>
    intro d hb hr rest _
    cases d with
    | block decls body =>
      simp only [Derivation.yield, List.length_append] at hb hr ⊢
      obtain ⟨hr₁, hr₂⟩ := inRange_append.mp hr
      have hdecls := declarations_reads heof ih (Nat.le_refl n) (n + 1) (d := decls) (by omega)
        (by omega) hr₁ (body.yield ++ rest)
        (stops_of_ahead (Derivation.ahead_compound body rest) rfl)
      have hbody := compound_reads heof (statement_reads heof (n + 1)) (Nat.le_refl (n + 1)) body
        (by omega) hr₂ rest rfl
      rw [List.append_assoc, block, bind_of_ok hdecls, bind_of_ok hbody]
      rfl

theorem program_reads {n : Nat} {d : Derivation .program} (hn : d.yield.length ≤ n)
    (hr : InRange d.yield) :
    program n ⟨d.yield, .endOfFile eof⟩ = .ok (d.tree, ⟨[], .endOfFile eof⟩) := by
  cases d with
  | program head name mark body dot =>
    simp only [Derivation.yield, List.length_cons, List.length_append, List.length_nil] at hn hr ⊢
    have hr₁ := (inRange_append.mp (inRange_cons.mp (inRange_cons.mp (inRange_cons.mp hr).2).2).2).1
    have hbody := block_reads heof n body (by omega) hr₁ [dot.1] rfl
    have heof' : peek ⟨[], .endOfFile eof⟩ = .ok (eof, ⟨[], .endOfFile eof⟩) := rfl
    rw [program, bind_of_ok (eat_cons head.2 _ _), bind_of_ok (eat_cons name.2 _ _),
      bind_of_ok (eat_cons mark.2 _ _), bind_of_ok hbody, bind_of_ok (eat_cons dot.2 _ _),
      bind_of_ok heof', if_pos heof]
    rfl

theorem whole_reads {n : Nonterminal} {p : Parser n.Tree} {d : Derivation n}
    (hp : Reads eof n p d) (hr : InRange d.yield) (hn : n.continues .endOfFile = false) :
    whole p ⟨d.yield, .endOfFile eof⟩ = .ok (d.tree, ⟨[], .endOfFile eof⟩) := by
  have hd := hp hr [] hn
  have heat : eat .endOfFile ⟨[], .endOfFile eof⟩ = .ok (eof, ⟨[], .endOfFile eof⟩) := by
    have hpeek : peek ⟨[], .endOfFile eof⟩ = .ok (eof, ⟨[], .endOfFile eof⟩) := rfl
    rw [eat, bind_of_ok hpeek, if_pos heof]
    rfl
  rw [List.append_nil] at hd
  rw [whole, bind_of_ok hd, bind_of_ok heat]
  rfl

end

end MiniPascal.Parser
