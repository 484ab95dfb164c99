import MiniPascal.Proofs.Grammar
import MiniPascal.Proofs.Token.Stream
import MiniPascal.Syntax.Parser

/-!
# What the parser reads is derived by the grammar

A parser is sound for a nonterminal if each of its successes takes the yield of a derivation off
the tokens ahead and returns the tree of that derivation. Soundness is proved function by function,
along the recursion of each. The bound on the depth plays a part for blocks only: with no bound
left a block would be cut off, but then no token is left either.
-/
namespace MiniPascal.Parser

open Grammar

variable {α β : Type} {s s' : TokenStream}

theorem bind_eq_ok {p : Parser α} {f : α → Parser β} {b : β} :
    (p >>= f) s = .ok (b, s') ↔ ∃ a s₁, p s = .ok (a, s₁) ∧ f a s₁ = .ok (b, s') := by
  change (p s >>= fun x => f x.1 x.2) = _ ↔ _
  cases h : p s with
  | error d =>
    constructor
    · intro hb
      cases hb
    · rintro ⟨a, s₁, ha, _⟩
      cases ha
  | ok x =>
    constructor
    · intro hb
      exact ⟨x.1, x.2, rfl, hb⟩
    · rintro ⟨a, s₁, ha, hb⟩
      cases ha
      exact hb

theorem pure_eq_ok {a b : α} : (pure a : Parser α) s = .ok (b, s') ↔ a = b ∧ s = s' := by
  change Except.ok (a, s) = _ ↔ _
  simp only [Except.ok.injEq, Prod.mk.injEq]

theorem fail_ne_ok {t : Token} {c : Cause} {b : α} : (fail t c : Parser α) s ≠ .ok (b, s') := by
  intro h
  cases h

theorem peek_eq_ok {t : Token} : peek s = .ok (t, s') ↔ s.head = .ok t ∧ s = s' := by
  unfold peek
  cases s.head <;> simp [bind, Except.bind, pure, Except.pure]

theorem advance_eq_ok {u : Unit} : advance s = .ok (u, s') ↔ s.tail = s' := by
  change Except.ok ((), s.tail) = _ ↔ _
  simp only [Except.ok.injEq, Prod.mk.injEq, true_and]

theorem eat_eq_ok {k : Kind} {t : Token} :
    eat k s = .ok (t, s') ↔ s.head = .ok t ∧ t.kind = k ∧ s.tail = s' := by
  unfold eat
  simp only [bind_eq_ok, peek_eq_ok]
  constructor
  · rintro ⟨u, s₁, ⟨hu, rfl⟩, h⟩
    split at h
    · next hk =>
      simp only [bind_eq_ok, advance_eq_ok, pure_eq_ok] at h
      obtain ⟨_, _, rfl, rfl, rfl⟩ := h
      exact ⟨hu, hk, rfl⟩
    · exact absurd h fail_ne_ok
  · rintro ⟨hu, hk, rfl⟩
    refine ⟨t, s, ⟨hu, rfl⟩, ?_⟩
    rw [if_pos hk]
    simp only [bind_eq_ok, advance_eq_ok, pure_eq_ok]
    exact ⟨(), s.tail, rfl, trivial, rfl⟩

theorem nextIs_eq_ok {k : Kind} {b : Bool} :
    nextIs k s = .ok (b, s') ↔ ∃ t, s.head = .ok t ∧ (t.kind == k) = b ∧ s = s' := by
  unfold nextIs
  simp only [bind_eq_ok, peek_eq_ok, pure_eq_ok]
  constructor
  · rintro ⟨t, s₁, ⟨ht, rfl⟩, hb, rfl⟩
    exact ⟨t, ht, hb, rfl⟩
  · rintro ⟨t, ht, hb, rfl⟩
    exact ⟨t, s, ⟨ht, rfl⟩, hb, rfl⟩

variable {stop : Stop} {tokens : List Token}

theorem head_eq_ok_cons (hs : stop.Proper) {t : Token} (ht : t.kind ≠ .endOfFile)
    (h : TokenStream.head ⟨tokens, stop⟩ = .ok t) : ∃ rest, tokens = t :: rest := by
  cases tokens with
  | nil =>
    cases stop with
    | failed d => cases h
    | endOfFile eof =>
      cases h
      exact absurd (hs t rfl) ht
  | cons u rest =>
    cases h
    exact ⟨rest, rfl⟩

theorem eat_sound (hs : stop.Proper) {k : Kind} {t : Token} (hk : k ≠ .endOfFile)
    (h : eat k ⟨tokens, stop⟩ = .ok (t, s')) :
    ∃ rest, tokens = t :: rest ∧ s' = ⟨rest, stop⟩ ∧ t.kind = k := by
  obtain ⟨ht, hkind, rfl⟩ := eat_eq_ok.mp h
  obtain ⟨rest, rfl⟩ := head_eq_ok_cons hs (hkind ▸ hk) ht
  exact ⟨rest, rfl, rfl, hkind⟩

/-- Each success takes a phrase of `n` off the tokens and returns its tree. -/
def Sound (stop : Stop) (n : Nonterminal) (p : Parser n.Tree) : Prop :=
  ∀ ⦃tokens : List Token⦄ ⦃a : n.Tree⦄ ⦃s' : TokenStream⦄, p ⟨tokens, stop⟩ = .ok (a, s') →
    ∃ (d : Derivation n) (rest : List Token),
      tokens = d.yield ++ rest ∧ s' = ⟨rest, stop⟩ ∧ InRange d.yield ∧ d.tree = a

def SoundWithin (stop : Stop) (bound : Nat) (n : Nonterminal) (p : Parser n.Tree) : Prop :=
  ∀ ⦃tokens : List Token⦄ ⦃a : n.Tree⦄ ⦃s' : TokenStream⦄, tokens.length ≤ bound →
    p ⟨tokens, stop⟩ = .ok (a, s') → ∃ (d : Derivation n) (rest : List Token),
      tokens = d.yield ++ rest ∧ s' = ⟨rest, stop⟩ ∧ InRange d.yield ∧ d.tree = a

theorem number_sound {t : Token} {rest : List Token} {e : Expr} (ht : t.kind.isLiteral = true)
    (h : number t ⟨t :: rest, stop⟩ = .ok (e, s')) :
    ∃ d : Derivation (.operand .factor),
      d.yield = [t] ∧ s' = ⟨rest, stop⟩ ∧ InRange d.yield ∧ d.tree = e := by
  unfold number at h
  cases hv : Value.ofLexeme? t.kind t.lexemeText with
  | none =>
    rw [hv] at h
    exact absurd h fail_ne_ok
  | some v =>
    simp only [hv, bind_eq_ok, advance_eq_ok, pure_eq_ok] at h
    obtain ⟨_, _, rfl, rfl, rfl⟩ := h
    have hc : constant t = some v := hv
    refine ⟨.number ⟨t, ht⟩, rfl, rfl, ?_, ?_⟩
    · exact inRange_cons.mpr ⟨fun _ => by rw [hc]; rfl, inRange_nil⟩
    · simp only [Derivation.tree, hc, Option.getD_some]

section

variable (hs : stop.Proper)
include hs

/-- Taking one token is reading a leaf. -/
theorem eat_leaf {k : Kind} {t : Token} (hk : k ≠ .endOfFile) (hl : k.isLiteral = false)
    (h : eat k ⟨tokens, stop⟩ = .ok (t, s')) :
    ∃ (leaf : Terminal k) (rest : List Token),
      leaf.1 = t ∧ tokens = leaf.1 :: rest ∧ s' = ⟨rest, stop⟩ ∧ leaf.1.kind.isLiteral = false := by
  obtain ⟨rest, rfl, rfl, hkind⟩ := eat_sound hs hk h
  exact ⟨⟨t, hkind⟩, rest, rfl, rfl, rfl, hkind ▸ hl⟩

theorem sepBy_sound {i : Item} {item : Parser i.Tree} (hi : Sound stop (.item i) item) (n : Nat) :
    Sound stop (.sequence i) (sepBy i.separator item n) := by
  induction n with
  | zero =>
    intro tokens a s' h
    simp only [sepBy, bind_eq_ok, pure_eq_ok] at h
    obtain ⟨first, s₁, h₁, rfl, rfl⟩ := h
    obtain ⟨d, rest, rfl, rfl, hd, rfl⟩ := hi h₁
    exact ⟨.one d, rest, rfl, rfl, hd, rfl⟩
  | succ n ih =>
    intro tokens a s' h
    simp only [sepBy, bind_eq_ok] at h
    obtain ⟨first, s₁, h₁, b, s₂, h₂, h₃⟩ := h
    obtain ⟨d, rest, rfl, rfl, hd, rfl⟩ := hi h₁
    obtain ⟨t, _, _, rfl⟩ := nextIs_eq_ok.mp h₂
    split at h₃
    · simp only [bind_eq_ok, pure_eq_ok] at h₃
      obtain ⟨mark, s₃, h₄, others, s₄, h₅, rfl, rfl⟩ := h₃
      have hsep : i.separator ≠ .endOfFile ∧ i.separator.isLiteral = false := by
        cases i <;> decide
      obtain ⟨leaf, rest', _, rfl, rfl, hl⟩ := eat_leaf hs hsep.1 hsep.2 h₄
      obtain ⟨d', rest'', rfl, rfl, hd', rfl⟩ := ih h₅
      refine ⟨.more d leaf d', rest'', ?_, rfl, ?_, rfl⟩
      · simp only [Derivation.yield, List.append_assoc, List.cons_append]
      · exact inRange_append.mpr ⟨hd, hd'.cons hl⟩
    · obtain ⟨rfl, rfl⟩ := pure_eq_ok.mp h₃
      exact ⟨.one d, rest, rfl, rfl, hd, rfl⟩

theorem chain_sound {o : Operand} {operand : Parser Expr} (ho : Sound stop (.operand o) operand)
    (n : Nat) {left e : Expr} (h : chain o.joins operand n left ⟨tokens, stop⟩ = .ok (e, s')) :
    ∃ (d : Derivation (.chain o)) (rest : List Token),
      tokens = d.yield ++ rest ∧ s' = ⟨rest, stop⟩ ∧ InRange d.yield ∧ joined left d.tree = e := by
  induction n generalizing left tokens with
  | zero =>
    obtain ⟨rfl, rfl⟩ := pure_eq_ok.mp h
    exact ⟨.noLink, tokens, rfl, rfl, inRange_nil, rfl⟩
  | succ n ih =>
    simp only [chain, bind_eq_ok, peek_eq_ok] at h
    obtain ⟨op, s₁, ⟨hop, rfl⟩, h⟩ := h
    split at h
    · next hj =>
      simp only [bind_eq_ok, advance_eq_ok] at h
      obtain ⟨_, s₂, rfl, right, s₃, h₁, h₂⟩ := h
      have hkind := Operand.of_joins hj
      obtain ⟨rest, rfl⟩ := head_eq_ok_cons hs hkind.1 hop
      obtain ⟨d, rest', hrest, rfl, hd, rfl⟩ := ho h₁
      obtain ⟨d', rest'', rfl, rfl, hd', rfl⟩ := ih h₂
      refine ⟨.link ⟨op, hj⟩ d d', rest'', ?_, rfl, ?_, rfl⟩
      · rw [show rest = d.yield ++ _ from hrest]
        simp only [Derivation.yield, List.append_assoc, List.cons_append]
      · exact (inRange_append.mpr ⟨hd, hd'⟩).cons hkind.2
    · obtain ⟨rfl, rfl⟩ := pure_eq_ok.mp h
      exact ⟨.noLink, tokens, rfl, rfl, inRange_nil, rfl⟩

theorem term_sound {factor : Parser Expr} (hf : Sound stop (.operand .factor) factor) (n : Nat) :
    Sound stop (.operand .term) (term factor n) := by
  intro tokens a s' h
  obtain ⟨first, s₁, h₁, h₂⟩ := bind_eq_ok.mp h
  obtain ⟨d, rest, rfl, rfl, hd, rfl⟩ := hf h₁
  obtain ⟨d', rest', rfl, rfl, hd', rfl⟩ := chain_sound hs (o := .factor) hf n h₂
  refine ⟨.term d d', rest', ?_, rfl, inRange_append.mpr ⟨hd, hd'⟩, rfl⟩
  simp only [Derivation.yield, List.append_assoc]

theorem sum_sound {factor : Parser Expr} (hf : Sound stop (.operand .factor) factor) (n : Nat) :
    Sound stop (.item .expr) (sum factor n) := by
  intro tokens a s' h
  obtain ⟨first, s₁, h₁, h₂⟩ := bind_eq_ok.mp h
  have ht := term_sound hs hf n
  obtain ⟨d, rest, rfl, rfl, hd, rfl⟩ := ht h₁
  obtain ⟨d', rest', rfl, rfl, hd', rfl⟩ := chain_sound hs (o := .term) ht n h₂
  refine ⟨.expr d d', rest', ?_, rfl, inRange_append.mpr ⟨hd, hd'⟩, rfl⟩
  simp only [Derivation.yield, List.append_assoc]

theorem factor_sound (n : Nat) : Sound stop (.operand .factor) (factor n) := by
  induction n with
  | zero =>
    intro tokens a s' h
    obtain ⟨t, s₁, _, h₂⟩ := bind_eq_ok.mp h
    exact absurd h₂ fail_ne_ok
  | succ n ih =>
    intro tokens a s' h
    simp only [factor, bind_eq_ok, peek_eq_ok] at h
    obtain ⟨t, s₁, ⟨ht, rfl⟩, h⟩ := h
    have hcons : t.kind ≠ .endOfFile → ∃ rest, tokens = t :: rest :=
      fun hk => head_eq_ok_cons hs hk ht
    cases hk : t.kind
    case plus | minus =>
      obtain ⟨rest, rfl⟩ := hcons (by simp [hk])
      simp only [hk, bind_eq_ok, advance_eq_ok, pure_eq_ok] at h
      obtain ⟨_, _, rfl, inner, s₂, h₁, rfl, rfl⟩ := h
      obtain ⟨d, rest', hrest, rfl, hd, rfl⟩ := ih h₁
      refine ⟨.signed ⟨t, by simp [hk, Kind.isSign]⟩ d, rest', ?_, rfl, ?_, rfl⟩
      · exact congrArg (t :: ·) hrest
      · exact hd.cons (by simp [hk, Kind.isLiteral])
    case integerConst | realConst =>
      obtain ⟨rest, rfl⟩ := hcons (by simp [hk])
      simp only [hk] at h
      obtain ⟨d, hy, rfl, hd, rfl⟩ := number_sound (by simp [hk, Kind.isLiteral]) h
      exact ⟨d, rest, by rw [hy]; rfl, rfl, hd, rfl⟩
    case openParen =>
      obtain ⟨rest, rfl⟩ := hcons (by simp [hk])
      simp only [hk, bind_eq_ok, advance_eq_ok, pure_eq_ok] at h
      obtain ⟨_, _, rfl, inner, s₂, h₁, right, s₃, h₂, rfl, rfl⟩ := h
      obtain ⟨d, rest', hrest, rfl, hd, rfl⟩ := sum_sound hs ih n h₁
      obtain ⟨leaf, rest'', rfl, rfl, rfl, hl⟩ := eat_leaf hs (by decide) (by decide) h₂
      refine ⟨.parenthesized ⟨t, hk⟩ d leaf, rest'', ?_, rfl, ?_, rfl⟩
      · rw [show rest = d.yield ++ leaf.1 :: rest'' from hrest]
        simp only [Derivation.yield, List.append_assoc, List.cons_append, List.nil_append]
      · exact (inRange_append.mpr ⟨hd, inRange_nil.cons hl⟩).cons (by simp [hk, Kind.isLiteral])
    case identifier =>
      obtain ⟨rest, rfl⟩ := hcons (by simp [hk])
      simp only [hk, bind_eq_ok, advance_eq_ok, pure_eq_ok] at h
      obtain ⟨_, _, rfl, rfl, rfl⟩ := h
      exact ⟨.reference ⟨t, hk⟩, rest, rfl, rfl, inRange_nil.cons (by simp [hk, Kind.isLiteral]),
        rfl⟩
    all_goals
      simp only [hk] at h
      exact absurd h fail_ne_ok

theorem expression_sound (n : Nat) : Sound stop (.item .expr) (expression n) :=
  sum_sound hs (factor_sound hs n) n

theorem call_sound (n : Nat) {name : Token} {a : Stmt}
    (h : call n name ⟨tokens, stop⟩ = .ok (a, s')) :
    ∃ (left : Terminal .openParen) (d : Derivation .actuals) (right : Terminal .closeParen)
      (rest : List Token), tokens = left.1 :: (d.yield ++ right.1 :: rest) ∧ s' = ⟨rest, stop⟩ ∧
        InRange (left.1 :: (d.yield ++ [right.1])) ∧ a = .call name d.tree := by
  simp only [call, bind_eq_ok] at h
  obtain ⟨_, s₁, h₁, b, s₂, h₂, h₃⟩ := h
  obtain ⟨left, rest₁, _, rfl, rfl, hleft⟩ := eat_leaf hs (by decide) (by decide) h₁
  obtain ⟨t, _, _, rfl⟩ := nextIs_eq_ok.mp h₂
  have hargs : ∃ (d : Derivation .actuals) (rest : List Token), rest₁ = d.yield ++ rest ∧
      InRange d.yield ∧ (eat .closeParen >>= fun _ => pure (.call name d.tree)) ⟨rest, stop⟩ =
        .ok (a, s') := by
    split at h₃
    · exact ⟨.noActuals, rest₁, rfl, inRange_nil, h₃⟩
    · obtain ⟨args, s₃, h₄, h₅⟩ := bind_eq_ok.mp h₃
      obtain ⟨d, rest, rfl, rfl, hd, rfl⟩ :=
        sepBy_sound hs (i := .expr) (expression_sound hs n) n h₄
      exact ⟨.actuals d, rest, rfl, hd, h₅⟩
  obtain ⟨d, rest, rfl, hd, h₄⟩ := hargs
  simp only [bind_eq_ok, pure_eq_ok] at h₄
  obtain ⟨_, s₃, h₅, rfl, rfl⟩ := h₄
  obtain ⟨right, rest', _, rfl, rfl, hright⟩ := eat_leaf hs (by decide) (by decide) h₅
  exact ⟨left, d, right, rest', rfl, rfl,
    (inRange_append.mpr ⟨hd, inRange_nil.cons hright⟩).cons hleft, rfl⟩

theorem assignment_sound (n : Nat) {target : Token} {a : Stmt}
    (h : assignment n target ⟨tokens, stop⟩ = .ok (a, s')) :
    ∃ (op : Terminal .assign) (d : Derivation (.item .expr)) (rest : List Token),
      tokens = op.1 :: (d.yield ++ rest) ∧ s' = ⟨rest, stop⟩ ∧ InRange (op.1 :: d.yield) ∧
        a = .assign target op.1 d.tree := by
  simp only [assignment, bind_eq_ok, pure_eq_ok] at h
  obtain ⟨_, s₁, h₁, value, s₂, h₂, rfl, rfl⟩ := h
  obtain ⟨op, rest₁, rfl, rfl, rfl, hop⟩ := eat_leaf hs (by decide) (by decide) h₁
  obtain ⟨d, rest, rfl, rfl, hd, rfl⟩ := expression_sound hs n h₂
  exact ⟨op, d, rest, rfl, rfl, hd.cons hop, rfl⟩

theorem compound_sound {statement : Parser Stmt} (hst : Sound stop (.item .statement) statement)
    (n : Nat) : Sound stop .compound (compound statement n) := by
  intro tokens a s' h
  simp only [compound, bind_eq_ok, pure_eq_ok] at h
  obtain ⟨_, s₁, h₁, children, s₂, h₂, _, s₃, h₃, rfl, rfl⟩ := h
  obtain ⟨start, rest₁, rfl, rfl, rfl, hstart⟩ := eat_leaf hs (by decide) (by decide) h₁
  obtain ⟨d, rest₂, rfl, rfl, hd, rfl⟩ := sepBy_sound hs (i := .statement) hst n h₂
  obtain ⟨last, rest, _, rfl, rfl, hlast⟩ := eat_leaf hs (by decide) (by decide) h₃
  refine ⟨.compound start d last, rest, ?_, rfl, ?_, rfl⟩
  · simp only [Derivation.yield, List.append_assoc, List.cons_append, List.nil_append]
  · exact (inRange_append.mpr ⟨hd, inRange_nil.cons hlast⟩).cons hstart

theorem statement_sound (n : Nat) : Sound stop (.item .statement) (statement n) := by
  induction n with
  | zero =>
    intro tokens a s' h
    simp only [statement, bind_eq_ok, peek_eq_ok, pure_eq_ok] at h
    obtain ⟨_, _, ⟨_, rfl⟩, rfl, rfl⟩ := h
    exact ⟨.nothing, tokens, rfl, rfl, inRange_nil, rfl⟩
  | succ n ih =>
    intro tokens a s' h
    simp only [statement, bind_eq_ok, peek_eq_ok] at h
    obtain ⟨t, s₁, ⟨ht, rfl⟩, h⟩ := h
    cases hk : t.kind
    case beginWord =>
      simp only [hk, bind_eq_ok, pure_eq_ok] at h
      obtain ⟨⟨start, children⟩, s₂, h₁, rfl, rfl⟩ := h
      obtain ⟨d, rest, rfl, rfl, hd, htree⟩ := compound_sound hs ih n h₁
      refine ⟨.nested d, rest, rfl, rfl, hd, ?_⟩
      simp only [Derivation.tree, htree]
    case identifier =>
      simp only [hk, bind_eq_ok] at h
      obtain ⟨name, s₂, h₁, b, s₃, h₂, h₃⟩ := h
      obtain ⟨leaf, rest, rfl, rfl, rfl, hleaf⟩ := eat_leaf hs (by decide) (by decide) h₁
      obtain ⟨_, _, _, rfl⟩ := nextIs_eq_ok.mp h₂
      split at h₃
      · obtain ⟨left, d, right, rest', rfl, rfl, hd, rfl⟩ := call_sound hs n h₃
        refine ⟨.calling (.procCall leaf left d right), rest', ?_, rfl, hd.cons hleaf, rfl⟩
        simp only [Derivation.yield, List.append_assoc, List.cons_append, List.nil_append]
      · obtain ⟨op, d, rest', rfl, rfl, hd, rfl⟩ := assignment_sound hs n h₃
        exact ⟨.assigning (.assignment leaf op d), rest', rfl, rfl, hd.cons hleaf, rfl⟩
    all_goals
      simp only [hk] at h
      obtain ⟨rfl, rfl⟩ := pure_eq_ok.mp h
      exact ⟨.nothing, tokens, rfl, rfl, inRange_nil, rfl⟩

theorem type_sound {t : Token} (h : type ⟨tokens, stop⟩ = .ok (t, s')) :
    ∃ (leaf : TerminalIn Kind.isBasicType) (rest : List Token),
      leaf.1 = t ∧ tokens = leaf.1 :: rest ∧ s' = ⟨rest, stop⟩ ∧
        leaf.1.kind.isLiteral = false := by
  simp only [type, bind_eq_ok, peek_eq_ok] at h
  obtain ⟨u, s₁, ⟨hu, rfl⟩, h⟩ := h
  split at h
  · next hk =>
    simp only [bind_eq_ok, advance_eq_ok, pure_eq_ok] at h
    obtain ⟨_, _, rfl, rfl, rfl⟩ := h
    have hkind : u.kind ≠ .endOfFile ∧ u.kind.isLiteral = false := by
      simp only [Kind.isBasicType, Bool.or_eq_true, beq_iff_eq] at hk
      rcases hk with hk | hk <;> rw [hk] <;> decide
    obtain ⟨rest, rfl⟩ := head_eq_ok_cons hs hkind.1 hu
    exact ⟨⟨u, hk⟩, rest, rfl, rfl, rfl, hkind.2⟩
  · exact absurd h fail_ne_ok

theorem name_sound : Sound stop (.item .name) (eat .identifier) := by
  intro tokens a s' h
  obtain ⟨leaf, rest, rfl, rfl, rfl, hl⟩ := eat_leaf hs (by decide) (by decide) h
  exact ⟨.name leaf, rest, rfl, rfl, inRange_nil.cons hl, rfl⟩

theorem group_sound (n : Nat) : Sound stop (.item .group) (group n) := by
  intro tokens a s' h
  simp only [group, bind_eq_ok, pure_eq_ok] at h
  obtain ⟨names, s₁, h₁, _, s₂, h₂, ty, s₃, h₃, rfl, rfl⟩ := h
  obtain ⟨d, rest₁, rfl, rfl, hd, rfl⟩ := sepBy_sound hs (i := .name) (name_sound hs) n h₁
  obtain ⟨colon, rest₂, _, rfl, rfl, hcolon⟩ := eat_leaf hs (by decide) (by decide) h₂
  obtain ⟨leaf, rest, rfl, rfl, rfl, hleaf⟩ := type_sound hs h₃
  refine ⟨.group d colon leaf, rest, ?_, rfl, ?_, rfl⟩
  · simp only [Derivation.yield, List.append_assoc, List.cons_append, List.nil_append]
  · exact inRange_append.mpr ⟨hd, (inRange_nil.cons hleaf).cons hcolon⟩

theorem variableGroup_sound (n : Nat) {a : List Decl}
    (h : variableGroup n ⟨tokens, stop⟩ = .ok (a, s')) :
    ∃ (d : Derivation (.item .group)) (mark : Terminal .semicolon) (rest : List Token),
      tokens = d.yield ++ mark.1 :: rest ∧ s' = ⟨rest, stop⟩ ∧ InRange d.yield ∧
        mark.1.kind.isLiteral = false ∧ a = d.tree.map fun p => .variable p.name p.type := by
  simp only [variableGroup, bind_eq_ok, pure_eq_ok] at h
  obtain ⟨declared, s₁, h₁, _, s₂, h₂, rfl, rfl⟩ := h
  obtain ⟨d, rest₁, rfl, rfl, hd, rfl⟩ := group_sound hs n h₁
  obtain ⟨mark, rest, _, rfl, rfl, hmark⟩ := eat_leaf hs (by decide) (by decide) h₂
  exact ⟨d, mark, rest, rfl, rfl, hd, hmark, rfl⟩

theorem variableSection_sound (n m : Nat) : Sound stop .varDecls (variableSection n m) := by
  induction m with
  | zero =>
    intro tokens a s' h
    obtain ⟨d, mark, rest, rfl, rfl, hd, hmark, rfl⟩ := variableGroup_sound hs n h
    refine ⟨.lastVarDecl d mark, rest, ?_, rfl, ?_, rfl⟩
    · simp only [Derivation.yield, List.append_assoc, List.cons_append, List.nil_append]
    · exact inRange_append.mpr ⟨hd, inRange_nil.cons hmark⟩
  | succ m ih =>
    intro tokens a s' h
    simp only [variableSection, bind_eq_ok] at h
    obtain ⟨first, s₁, h₁, b, s₂, h₂, h₃⟩ := h
    obtain ⟨d, mark, rest, rfl, rfl, hd, hmark, rfl⟩ := variableGroup_sound hs n h₁
    obtain ⟨_, _, _, rfl⟩ := nextIs_eq_ok.mp h₂
    split at h₃
    · simp only [bind_eq_ok, pure_eq_ok] at h₃
      obtain ⟨others, s₃, h₄, rfl, rfl⟩ := h₃
      obtain ⟨d', rest', rfl, rfl, hd', rfl⟩ := ih h₄
      refine ⟨.moreVarDecls d mark d', rest', ?_, rfl, ?_, rfl⟩
      · simp only [Derivation.yield, List.append_assoc, List.cons_append]
      · exact inRange_append.mpr ⟨hd, hd'.cons hmark⟩
    · obtain ⟨rfl, rfl⟩ := pure_eq_ok.mp h₃
      refine ⟨.lastVarDecl d mark, rest, ?_, rfl, ?_, rfl⟩
      · simp only [Derivation.yield, List.append_assoc, List.cons_append, List.nil_append]
      · exact inRange_append.mpr ⟨hd, inRange_nil.cons hmark⟩

theorem params_sound (n : Nat) : Sound stop .formals (params n) := by
  intro tokens a s' h
  simp only [params, bind_eq_ok] at h
  obtain ⟨b, s₁, h₁, h⟩ := h
  obtain ⟨_, _, _, rfl⟩ := nextIs_eq_ok.mp h₁
  split at h
  · simp only [bind_eq_ok, pure_eq_ok] at h
    obtain ⟨_, s₂, h₂, groups, s₃, h₃, _, s₄, h₄, rfl, rfl⟩ := h
    obtain ⟨left, rest₁, _, rfl, rfl, hleft⟩ := eat_leaf hs (by decide) (by decide) h₂
    obtain ⟨d, rest₂, rfl, rfl, hd, rfl⟩ := sepBy_sound hs (i := .group) (group_sound hs n) n h₃
    obtain ⟨right, rest, _, rfl, rfl, hright⟩ := eat_leaf hs (by decide) (by decide) h₄
    refine ⟨.formals left d right, rest, ?_, rfl, ?_, rfl⟩
    · simp only [Derivation.yield, List.append_assoc, List.cons_append, List.nil_append]
    · exact (inRange_append.mpr ⟨hd, inRange_nil.cons hright⟩).cons hleft
  · obtain ⟨rfl, rfl⟩ := pure_eq_ok.mp h
    exact ⟨.noFormals, tokens, rfl, rfl, inRange_nil, rfl⟩

theorem procedure_sound {block : Parser Block} {bound : Nat}
    (hb : SoundWithin stop bound .block block) (n : Nat) :
    SoundWithin stop (bound + 1) .procedureDecl (procedure block n) := by
  intro tokens a s' hlen h
  simp only [procedure, bind_eq_ok, pure_eq_ok] at h
  obtain ⟨_, s₁, h₁, _, s₂, h₂, ps, s₃, h₃, _, s₄, h₄, body, s₅, h₅, _, s₆, h₆, rfl, rfl⟩ := h
  obtain ⟨head, rest₁, _, rfl, rfl, hhead⟩ := eat_leaf hs (by decide) (by decide) h₁
  obtain ⟨name, rest₂, rfl, rfl, rfl, hname⟩ := eat_leaf hs (by decide) (by decide) h₂
  obtain ⟨dp, rest₃, rfl, rfl, hdp, rfl⟩ := params_sound hs n h₃
  obtain ⟨mark, rest₄, _, rfl, rfl, hmark⟩ := eat_leaf hs (by decide) (by decide) h₄
  have hlen₄ : rest₄.length ≤ bound := by
    simp only [List.length_cons, List.length_append] at hlen
    omega
  obtain ⟨db, rest₅, rfl, rfl, hdb, rfl⟩ := hb hlen₄ h₅
  obtain ⟨last, rest, _, rfl, rfl, hlast⟩ := eat_leaf hs (by decide) (by decide) h₆
  refine ⟨.procedureDecl head name dp mark db last, rest, ?_, rfl, ?_, rfl⟩
  · simp only [Derivation.yield, List.append_assoc, List.cons_append, List.nil_append]
  · have hbody : InRange (mark.1 :: (db.yield ++ [last.1])) :=
      (inRange_append.mpr ⟨hdb, inRange_nil.cons hlast⟩).cons hmark
    exact ((inRange_append.mpr ⟨hdp, hbody⟩).cons hname).cons hhead

theorem declarations_sound {block : Parser Block} {bound : Nat}
    (hb : SoundWithin stop bound .block block) (n m : Nat) :
    SoundWithin stop (bound + 1) .declarations (declarations block n m) := by
  induction m with
  | zero =>
    intro tokens a s' hlen h
    simp only [declarations, bind_eq_ok, peek_eq_ok, pure_eq_ok] at h
    obtain ⟨_, _, ⟨_, rfl⟩, rfl, rfl⟩ := h
    exact ⟨.noDeclarations, tokens, rfl, rfl, inRange_nil, rfl⟩
  | succ m ih =>
    intro tokens a s' hlen h
    simp only [declarations, bind_eq_ok, peek_eq_ok] at h
    obtain ⟨t, s₁, ⟨ht, rfl⟩, h⟩ := h
    cases hk : t.kind
    case varWord =>
      simp only [hk, bind_eq_ok, pure_eq_ok] at h
      obtain ⟨_, s₂, h₁, decls, s₃, h₂, others, s₄, h₃, rfl, rfl⟩ := h
      obtain ⟨head, rest₁, _, rfl, rfl, hhead⟩ := eat_leaf hs (by decide) (by decide) h₁
      obtain ⟨d, rest₂, rfl, rfl, hd, rfl⟩ := variableSection_sound hs n n h₂
      have hlen₂ : rest₂.length ≤ bound + 1 := by
        simp only [List.length_cons, List.length_append] at hlen
        omega
      obtain ⟨d', rest, rfl, rfl, hd', rfl⟩ := ih hlen₂ h₃
      refine ⟨.varSection head d d', rest, ?_, rfl, (inRange_append.mpr ⟨hd, hd'⟩).cons hhead, rfl⟩
      simp only [Derivation.yield, List.append_assoc, List.cons_append]
    case procedureWord =>
      simp only [hk, bind_eq_ok, pure_eq_ok] at h
      obtain ⟨decl, s₂, h₁, others, s₃, h₂, rfl, rfl⟩ := h
      obtain ⟨d, rest₁, rfl, rfl, hd, rfl⟩ := procedure_sound hs hb n hlen h₁
      have hlen₁ : rest₁.length ≤ bound + 1 := by
        simp only [List.length_append] at hlen
        omega
      obtain ⟨d', rest, rfl, rfl, hd', rfl⟩ := ih hlen₁ h₂
      refine ⟨.procedure d d', rest, ?_, rfl, inRange_append.mpr ⟨hd, hd'⟩, rfl⟩
      simp only [Derivation.yield, List.append_assoc]
    all_goals
      simp only [hk] at h
      obtain ⟨rfl, rfl⟩ := pure_eq_ok.mp h
      exact ⟨.noDeclarations, tokens, rfl, rfl, inRange_nil, rfl⟩

theorem block_sound (n : Nat) : SoundWithin stop n .block (block n) := by
  induction n with
  | zero =>
    intro tokens a s' hlen h
    simp only [block, bind_eq_ok] at h
    obtain ⟨start, s₁, h₁, _⟩ := h
    obtain ⟨rest, rfl, _⟩ := eat_sound hs (by decide) h₁
    simp at hlen
  | succ n ih =>
    intro tokens a s' hlen h
    simp only [block, bind_eq_ok, pure_eq_ok] at h
    obtain ⟨decls, s₁, h₁, ⟨start, body⟩, s₂, h₂, rfl, rfl⟩ := h
    obtain ⟨d, rest₁, rfl, rfl, hd, rfl⟩ := declarations_sound hs ih n (n + 1) hlen h₁
    obtain ⟨d', rest, rfl, rfl, hd', htree⟩ :=
      compound_sound hs (statement_sound hs (n + 1)) (n + 1) h₂
    refine ⟨.block d d', rest, ?_, rfl, inRange_append.mpr ⟨hd, hd'⟩, ?_⟩
    · simp only [Derivation.yield, List.append_assoc]
    · simp only [Derivation.tree, htree]

/-- Behind a program nothing but the end of the file is accepted. -/
theorem program_sound {n : Nat} (hlen : tokens.length ≤ n) {p : Program}
    (h : program n ⟨tokens, stop⟩ = .ok (p, s')) :
    ∃ (d : Derivation .program) (rest : List Token) (eof : Token), tokens = d.yield ++ rest ∧
      TokenStream.head ⟨rest, stop⟩ = .ok eof ∧ eof.kind = .endOfFile ∧ InRange d.yield ∧
        d.tree = p := by
  simp only [program, bind_eq_ok] at h
  obtain ⟨_, s₁, h₁, _, s₂, h₂, _, s₃, h₃, body, s₄, h₄, _, s₅, h₅, eof, s₆, h₆, h₇⟩ := h
  obtain ⟨head, rest₁, _, rfl, rfl, hhead⟩ := eat_leaf hs (by decide) (by decide) h₁
  obtain ⟨name, rest₂, rfl, rfl, rfl, hname⟩ := eat_leaf hs (by decide) (by decide) h₂
  obtain ⟨mark, rest₃, _, rfl, rfl, hmark⟩ := eat_leaf hs (by decide) (by decide) h₃
  have hlen₃ : rest₃.length ≤ n := by
    simp only [List.length_cons] at hlen
    omega
  obtain ⟨d, rest₄, rfl, rfl, hd, rfl⟩ := block_sound hs n hlen₃ h₄
  obtain ⟨dot, rest, _, rfl, rfl, hdot⟩ := eat_leaf hs (by decide) (by decide) h₅
  obtain ⟨heof, rfl⟩ := peek_eq_ok.mp h₆
  split at h₇
  · next hk =>
    obtain ⟨rfl, rfl⟩ := pure_eq_ok.mp h₇
    refine ⟨.program head name mark d dot, rest, eof, ?_, heof, hk, ?_, rfl⟩
    · simp only [Derivation.yield, List.append_assoc, List.cons_append, List.nil_append]
    · have hbody : InRange (d.yield ++ [dot.1]) :=
        inRange_append.mpr ⟨hd, inRange_nil.cons hdot⟩
      exact ((hbody.cons hmark).cons hname).cons hhead
  · exact absurd h₇ fail_ne_ok

omit hs in
theorem whole_sound {n : Nonterminal} {p : Parser n.Tree} (hp : Sound stop n p) {a : n.Tree}
    (h : whole p ⟨tokens, stop⟩ = .ok (a, s')) :
    ∃ (d : Derivation n) (rest : List Token) (eof : Token), tokens = d.yield ++ rest ∧
      TokenStream.head ⟨rest, stop⟩ = .ok eof ∧ eof.kind = .endOfFile ∧ InRange d.yield ∧
        d.tree = a := by
  simp only [whole, bind_eq_ok, pure_eq_ok] at h
  obtain ⟨b, s₁, h₁, eof, s₂, h₂, rfl, rfl⟩ := h
  obtain ⟨d, rest, rfl, rfl, hd, rfl⟩ := hp h₁
  obtain ⟨heof, hk, _⟩ := eat_eq_ok.mp h₂
  exact ⟨d, rest, eof, rfl, heof, hk, hd, rfl⟩

end

end MiniPascal.Parser
