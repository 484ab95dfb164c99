import MiniPascal.Proofs.Rendering
import MiniPascal.Proofs.Resolution
import MiniPascal.Proofs.Syntax.SExpression
import MiniPascal.Proofs.Token.Tiling

/-!
# What a dump tells

The dump of a tree is the text of a symbolic expression whose atoms are words, so it determines this
expression. The expression in turn determines the tree up to its tokens: a list tells by its head
and its length which node it stands for, whatever names stand in it, and the word of an atom tells
by its spelling whether it is a name, an integer or a real number. Of the tokens it determines the
kinds and the texts, which is all that matters to the values of constants.
-/
namespace MiniPascal

/-! ### Words -/

theorem isWord_of_encode {s : String} (hne : Text.encode s ≠ [])
    (h : ∀ b ∈ Text.encode s, b ≠ 0x20 ∧ b ≠ 0x28 ∧ b ≠ 0x29) : IsWord s := by
  rw [Text.encode_eq] at hne h
  constructor
  · intro hnil
    rw [hnil] at hne
    exact hne rfl
  · rintro c hc hbreak
    have hmem (b : UInt8) (hb : b ∈ String.utf8EncodeChar c) :=
      h b (List.mem_flatMap.mpr ⟨c, hc, hb⟩)
    rcases hbreak with rfl | rfl | rfl
    · exact (hmem 0x20 (by decide)).1 rfl
    · exact (hmem 0x28 (by decide)).2.1 rfl
    · exact (hmem 0x29 (by decide)).2.2 rfl

/-- A name or a constant is spelled by a word. -/
theorem Token.ReadFrom.isWord {t : Token} {spelled after : Bytes} (h : t.ReadFrom spelled after)
    (hkind : t.kind = .identifier ∨ t.kind.isLiteral = true) : IsWord t.text := by
  have hword : ∀ b, isWordByte b = true ∨ b = 0x2E → b ≠ 0x20 ∧ b ≠ 0x28 ∧ b ≠ 0x29 := by
    rintro b hb
    refine ⟨?_, ?_, ?_⟩ <;>
    · rintro rfl
      revert hb
      decide
  have hdigit {b : UInt8} (hb : isDigitByte b = true) : isWordByte b = true := by
    rw [isWordByte, hb, Bool.or_true]
  have hkeyword : t.kind.isKeyword = false := by
    rcases hkind with hkind | hkind
    · rw [hkind]
      rfl
    · simp only [Kind.isLiteral, Bool.or_eq_true, beq_iff_eq] at hkind
      rcases hkind with hkind | hkind <;> rw [hkind] <;> rfl
  have hspelled : ∀ b ∈ spelled, isWordByte b = true ∨ b = 0x2E := by
    rcases hkind with hkind | hkind
    · exact fun b hb => .inl ((h.word (.inl hkind)).1.2 b hb)
    simp only [Kind.isLiteral, Bool.or_eq_true, beq_iff_eq] at hkind
    rcases hkind with hkind | hkind
    · exact fun b hb => .inl (hdigit ((h.integer hkind).1.2 b hb))
    · obtain ⟨⟨whole, fraction, rfl, hwhole, hfraction⟩, _⟩ := h.real hkind
      intro b hb
      rcases List.mem_append.mp hb with hb | hb
      · exact .inl (hdigit (hwhole.2 b hb))
      rcases List.mem_cons.mp hb with rfl | hb
      · exact .inr rfl
      · exact .inl (hdigit (hfraction.2 b hb))
  refine isWord_of_encode ?_ ?_
  · rw [← h.spelling hkeyword]
    exact h.nonempty
  · rw [← h.spelling hkeyword]
    exact fun b hb => hword b (hspelled b hb)

theorem Cursor.readFrom_of_mem_stream (c : Cursor) :
    ∀ t ∈ c.stream.tokens, ∃ spelled after, t.ReadFrom spelled after := by
  fun_induction stream c with
  | case1 | case2 =>
    intro t ht
    cases ht
  | case3 c t c' hnext hkind rest ih =>
    refine List.forall_mem_cons.mpr ⟨?_, ih⟩
    have hreading := reading_next c
    rw [hnext] at hreading
    cases hreading with
    | endOfFile => exact absurd rfl hkind
    | token hgap hrest htoken => exact ⟨_, _, readFrom_of_tokenAt? htoken⟩

/-- Tokens with the same text are of the same kind. -/
theorem Token.Written.plain_eq {t u : Token} (ht : t.Written) (hu : u.Written)
    (h : t.text = u.text) : t.plain = u.plain := by
  obtain ⟨read, eof, hstream, hread⟩ := (ht.blank [] trivial).stream_eq default 0
  obtain ⟨read', eof', hstream', hread'⟩ := (hu.blank [] trivial).stream_eq default 0
  rw [h, hstream'] at hstream
  cases hstream
  exact List.singleton_inj.mp (hread.symm.trans hread')

/-- The names and the constants among some tokens are words that are read as these tokens. -/
structure Spelled (tokens : List Token) : Prop where
  written : ∀ t ∈ tokens, t.Written
  word : ∀ t ∈ tokens, t.kind = .identifier ∨ t.kind.isLiteral = true → IsWord t.text

theorem TokenStream.spelled_ofSource (file : String) (source : Bytes) (index : Nat) :
    Spelled (ofSource file source index).tokens := by
  refine ⟨Cursor.written_of_mem_stream _, fun t ht hkind => ?_⟩
  obtain ⟨spelled, after, hread⟩ := Cursor.readFrom_of_mem_stream _ t ht
  exact hread.isWord hkind

theorem Token.name_eq_text {t : Token} (h : t.kind = .identifier) : t.name = t.text := by
  rw [name, if_pos h, text, h]

namespace Kind

def shown : List Kind := [plus, minus, star, slash, divWord, integerWord, realWord]

theorem isWord_text {k : Kind} (h : k ∈ shown) : IsWord k.text := by
  have hall : ∀ k ∈ shown, IsWord k.text := by decide
  exact hall k h

theorem text_inj {k l : Kind} (hk : k ∈ shown) (hl : l ∈ shown) (h : k.text = l.text) : k = l := by
  have hall : ∀ k ∈ shown, ∀ l ∈ shown, k.text = l.text → k = l := by decide
  exact hall k hk l hl h

theorem mem_shown_of_isSign {k : Kind} (h : k.isSign = true) : k ∈ shown := by
  simp only [isSign, Bool.or_eq_true, beq_iff_eq] at h
  rcases h with rfl | rfl <;> decide

theorem mem_shown_of_isProductOp {k : Kind} (h : k.isProductOp = true) : k ∈ shown := by
  simp only [isProductOp, Bool.or_eq_true, beq_iff_eq] at h
  rcases h with (rfl | rfl) | rfl <;> decide

theorem mem_shown_of_operator {k : Kind} (h : k.isSign = true ∨ k.isProductOp = true) :
    k ∈ shown :=
  h.elim mem_shown_of_isSign mem_shown_of_isProductOp

theorem mem_shown_of_isBasicType {k : Kind} (h : k.isBasicType = true) : k ∈ shown := by
  simp only [isBasicType, Bool.or_eq_true, beq_iff_eq] at h
  rcases h with rfl | rfl <;> decide

end Kind

/-- Operators and types with the same text are the same but for their places. -/
theorem Token.plain_eq_of_shown {t u : Token} (ht : t.kind ∈ Kind.shown) (hu : u.kind ∈ Kind.shown)
    (h : t.kind.text = u.kind.text) : t.plain = u.plain := by
  have hfixed : ∀ k ∈ Kind.shown, k ∈ Kind.fixed := by decide
  rw [plain_of_fixed (hfixed _ ht), plain_of_fixed (hfixed _ hu), Kind.text_inj ht hu h]

/-! ### Trees as symbolic expressions -/

def Expr.sexp : Expr → SExpr
  | .number t _ => .atom t.text
  | .variable t => .atom t.name
  | .unary op e => .headed op.kind.text [e.sexp]
  | .binary l op r => .headed op.kind.text [l.sexp, r.sexp]

mutual

def Stmt.sexp : Stmt → SExpr
  | .compound _ children => .headed "compound" (Stmt.sexpAll children)
  | .assign target _ value => .headed "assign" [.atom target.name, value.sexp]
  | .call name args => .headed "call" (.atom name.name :: args.map Expr.sexp)
  | .empty => .headed "noop" []

def Stmt.sexpAll : List Stmt → List SExpr
  | [] => []
  | s :: rest => s.sexp :: Stmt.sexpAll rest

end

def Param.sexp (p : Param) : SExpr :=
  .headed "param" [.atom p.name.name, .atom p.type.kind.text]

mutual

def Decl.sexp : Decl → SExpr
  | .variable name type => .headed "var" [.atom name.name, .atom type.kind.text]
  | .procedure name params block =>
    .headed "procedure" [.atom name.name, .list (params.map Param.sexp), block.sexp]

def Decl.sexpAll : List Decl → List SExpr
  | [] => []
  | d :: rest => d.sexp :: Decl.sexpAll rest

def Block.sexp : Block → SExpr
  | .mk decls _ body =>
    .headed "block" (Decl.sexpAll decls ++ [.headed "compound" (Stmt.sexpAll body)])

end

def Program.sexp (p : Program) : SExpr :=
  .headed "program" [.atom p.name.name, p.block.sexp]

open SExpr

theorem SExpr.texts_map {α : Type} {f : α → SExpr} {g : α → String} {xs : List α}
    (h : ∀ x ∈ xs, (f x).text = g x) : texts (xs.map f) = xs.map g := by
  induction xs with
  | nil => rfl
  | cons x rest ih =>
    obtain ⟨hx, hrest⟩ := List.forall_mem_cons.mp h
    rw [List.map_cons, texts, hx, ih hrest, List.map_cons]

theorem Expr.text_sexp (e : Expr) : e.sexp.text = e.dump := by
  induction e with
  | number t v => rfl
  | «variable» t => rfl
  | unary op e ih => rw [sexp, text_headed, texts, texts, ih, dump]
  | binary l op r ihl ihr => rw [sexp, text_headed, texts, texts, texts, ihl, ihr, dump]

mutual

theorem Stmt.text_sexp : ∀ s : Stmt, s.sexp.text = s.dump
  | .compound start children => by
    rw [Stmt.sexp, text_headed, Stmt.texts_sexpAll children, Stmt.dump]
  | .assign target op value => by
    rw [Stmt.sexp, text_headed, Stmt.dump, texts, texts, texts, value.text_sexp]
    rfl
  | .call name args => by
    rw [Stmt.sexp, text_headed, Stmt.dump, texts, texts_map fun e _ => e.text_sexp]
    rfl
  | .empty => rfl

theorem Stmt.texts_sexpAll : ∀ ss : List Stmt, texts (Stmt.sexpAll ss) = Stmt.dumpAll ss
  | [] => rfl
  | s :: rest => by
    rw [Stmt.sexpAll, texts, Stmt.text_sexp s, Stmt.texts_sexpAll rest, Stmt.dumpAll]

end

mutual

theorem Decl.texts_sexpAll : ∀ ds : List Decl, texts (Decl.sexpAll ds) = Decl.dumpAll ds
  | [] => rfl
  | .variable name type :: rest => by
    rw [Decl.sexpAll, texts, Decl.texts_sexpAll rest, Decl.dumpAll, Decl.sexp, Decl.dump]
    rfl
  | .procedure name params block :: rest => by
    have hparams : texts (params.map Param.sexp) = params.map Param.dump := texts_map fun _ _ => rfl
    rw [Decl.sexpAll, texts, Decl.texts_sexpAll rest, Decl.dumpAll, Decl.sexp, Decl.dump,
      text_headed, texts, texts, texts, texts, Block.text_sexp block, ← hparams]
    rfl

theorem Block.text_sexp : ∀ b : Block, b.sexp.text = b.dump
  | .mk decls start body => by
    rw [Block.sexp, text_headed, texts_append, Decl.texts_sexpAll decls, texts, text_headed,
      Stmt.texts_sexpAll, Block.dump]
    rfl

end

theorem Program.text_sexp (p : Program) : p.sexp.text = p.dump := by
  rw [sexp, text_headed, texts, texts, texts, p.block.text_sexp, dump]
  rfl

/-! ### Trees that were read -/

section WellFormed

variable {tokens : List Token}

theorem Spelled.isWord_name (hs : Spelled tokens) {t : Token}
    (h : t ∈ tokens ∧ t.kind = .identifier) : IsWord t.name := by
  rw [Token.name_eq_text h.2]
  exact hs.word t h.1 (.inl h.2)

theorem Expr.wellFormed_sexp (hs : Spelled tokens) : ∀ e : Expr,
    (∀ node ∈ e.nodes, node.Lexical tokens) → e.sexp.WellFormed
  | .number t v, h => by
    obtain ⟨hmem, hliteral, _⟩ := h _ List.mem_cons_self
    exact .atom (hs.word t hmem (.inr hliteral))
  | .variable t, h => .atom (hs.isWord_name (h _ List.mem_cons_self))
  | .unary op e, h => by
    obtain ⟨hop, he⟩ := List.forall_mem_cons.mp h
    exact .headed (Kind.isWord_text (Kind.mem_shown_of_isSign hop))
      (List.forall_mem_singleton.mpr (Expr.wellFormed_sexp hs e he))
  | .binary left op right, h => by
    obtain ⟨hop, hoperands⟩ := List.forall_mem_cons.mp h
    obtain ⟨hleft, hright⟩ := List.forall_mem_append.mp hoperands
    exact .headed (Kind.isWord_text (Kind.mem_shown_of_operator hop)) (List.forall_mem_cons.mpr
      ⟨Expr.wellFormed_sexp hs left hleft,
        List.forall_mem_singleton.mpr (Expr.wellFormed_sexp hs right hright)⟩)

theorem Stmt.wellFormed_sexpAll (hs : Spelled tokens) (ss : List Stmt)
    (h : ∀ node ∈ Stmt.nodesAll ss, node.Lexical tokens) :
    ∀ e ∈ Stmt.sexpAll ss, e.WellFormed := by
  induction ss using Stmt.sequence_induction with
  | nil => exact List.forall_mem_nil _
  | compound start children rest ihc ihr =>
    rw [Stmt.nodesAll, Stmt.nodes, List.forall_mem_append, List.forall_mem_cons] at h
    rw [Stmt.sexpAll, Stmt.sexp]
    exact List.forall_mem_cons.mpr ⟨.headed (by decide) (ihc h.1.2), ihr h.2⟩
  | assign target op value rest ih =>
    rw [Stmt.nodesAll, Stmt.nodes, List.forall_mem_append, List.forall_mem_cons,
      List.forall_mem_cons] at h
    obtain ⟨⟨_, htarget, hvalue⟩, hrest⟩ := h
    refine List.forall_mem_cons.mpr ⟨?_, ih hrest⟩
    rw [Stmt.sexp]
    exact .headed (by decide) (List.forall_mem_cons.mpr ⟨.atom (hs.isWord_name htarget),
      List.forall_mem_singleton.mpr (value.wellFormed_sexp hs hvalue)⟩)
  | call name args rest ih =>
    rw [Stmt.nodesAll, Stmt.nodes, List.forall_mem_append, List.forall_mem_cons] at h
    obtain ⟨⟨hname, hargs⟩, hrest⟩ := h
    refine List.forall_mem_cons.mpr ⟨?_, ih hrest⟩
    rw [Stmt.sexp]
    refine .headed (by decide) (List.forall_mem_cons.mpr ⟨.atom (hs.isWord_name hname), ?_⟩)
    rintro e he
    obtain ⟨arg, harg, rfl⟩ := List.mem_map.mp he
    exact arg.wellFormed_sexp hs fun node hnode =>
      hargs node (List.mem_flatMap.mpr ⟨arg, harg, hnode⟩)
  | empty rest ih =>
    rw [Stmt.nodesAll, Stmt.nodes, List.forall_mem_append] at h
    refine List.forall_mem_cons.mpr ⟨?_, ih h.2⟩
    rw [Stmt.sexp]
    exact .headed (by decide) (List.forall_mem_nil _)

theorem Param.lexical {ps : List Param} {p : Param}
    (h : ∀ node ∈ ps.flatMap fun p => [Node.param p, Node.type p.type], node.Lexical tokens)
    (hp : p ∈ ps) :
    (p.name ∈ tokens ∧ p.name.kind = .identifier) ∧ p.type.kind.isBasicType = true := by
  have hnodes (node : Node) (hnode : node ∈ [Node.param p, Node.type p.type]) :
      node.Lexical tokens := h node (List.mem_flatMap.mpr ⟨p, hp, hnode⟩)
  rw [List.forall_mem_cons, List.forall_mem_singleton] at hnodes
  exact hnodes

theorem Param.wellFormed_sexp (hs : Spelled tokens) {ps : List Param}
    (h : ∀ node ∈ ps.flatMap fun p => [Node.param p, Node.type p.type], node.Lexical tokens) :
    (SExpr.list (ps.map Param.sexp)).WellFormed := by
  refine .list fun e he => ?_
  obtain ⟨p, hp, rfl⟩ := List.mem_map.mp he
  obtain ⟨hname, htype⟩ := Param.lexical h hp
  exact .headed (by decide) (List.forall_mem_cons.mpr ⟨.atom (hs.isWord_name hname),
    List.forall_mem_singleton.mpr
      (.atom (Kind.isWord_text (Kind.mem_shown_of_isBasicType htype)))⟩)

mutual

theorem Decl.wellFormed_sexp (hs : Spelled tokens) : ∀ d : Decl,
    (∀ node ∈ d.nodes, node.Lexical tokens) → d.sexp.WellFormed
  | .variable name type, h => by
    rw [Decl.nodes, List.forall_mem_cons, List.forall_mem_singleton] at h
    obtain ⟨hname, htype⟩ := h
    rw [Decl.sexp]
    exact .headed (by decide) (List.forall_mem_cons.mpr ⟨.atom (hs.isWord_name hname),
      List.forall_mem_singleton.mpr
        (.atom (Kind.isWord_text (Kind.mem_shown_of_isBasicType htype)))⟩)
  | .procedure name params block, h => by
    rw [Decl.nodes, List.forall_mem_cons, List.forall_mem_append] at h
    obtain ⟨hname, hparams, hblock⟩ := h
    rw [Decl.sexp]
    exact .headed (by decide) (List.forall_mem_cons.mpr ⟨.atom (hs.isWord_name hname),
      List.forall_mem_cons.mpr ⟨Param.wellFormed_sexp hs hparams,
        List.forall_mem_singleton.mpr (Block.wellFormed_sexp hs block hblock)⟩⟩)

theorem Decl.wellFormed_sexpAll (hs : Spelled tokens) : ∀ ds : List Decl,
    (∀ node ∈ Decl.nodesAll ds, node.Lexical tokens) → ∀ e ∈ Decl.sexpAll ds, e.WellFormed
  | [], _ => List.forall_mem_nil _
  | d :: rest, h => by
    rw [Decl.nodesAll, List.forall_mem_append] at h
    exact List.forall_mem_cons.mpr
      ⟨Decl.wellFormed_sexp hs d h.1, Decl.wellFormed_sexpAll hs rest h.2⟩

theorem Block.wellFormed_sexp (hs : Spelled tokens) : ∀ b : Block,
    (∀ node ∈ b.nodes, node.Lexical tokens) → b.sexp.WellFormed
  | .mk decls start body, h => by
    rw [Block.nodes, List.forall_mem_cons, List.forall_mem_append, List.forall_mem_cons] at h
    obtain ⟨_, hdecls, _, hbody⟩ := h
    rw [Block.sexp]
    exact .headed (by decide) (List.forall_mem_append.mpr ⟨Decl.wellFormed_sexpAll hs decls hdecls,
      List.forall_mem_singleton.mpr (.headed (by decide) (Stmt.wellFormed_sexpAll hs body hbody))⟩)

end

theorem Program.wellFormed_sexp (hs : Spelled tokens) {p : Program}
    (h : ∀ node ∈ p.nodes, node.Lexical tokens) : p.sexp.WellFormed := by
  obtain ⟨hname, hblock⟩ := List.forall_mem_cons.mp h
  exact .headed (by decide) (List.forall_mem_cons.mpr ⟨.atom (hs.isWord_name hname),
    List.forall_mem_singleton.mpr (p.block.wellFormed_sexp hs hblock)⟩)

end WellFormed

section Determined

variable {tokens tokens' : List Token}

/-- If `f` tells what `g` tells, then also of lists. -/
theorem map_eq_of_map_eq {α β γ : Type} {f : α → β} {g : α → γ} {xs ys : List α}
    (h : ∀ x ∈ xs, ∀ y ∈ ys, f x = f y → g x = g y) (heq : xs.map f = ys.map f) :
    xs.map g = ys.map g := by
  induction xs generalizing ys with
  | nil =>
    cases ys with
    | nil => rfl
    | cons y rest' => cases heq
  | cons x rest ih =>
    cases ys with
    | nil => cases heq
    | cons y rest' =>
      obtain ⟨hfirst, hrest⟩ := List.cons.inj heq
      rw [List.map_cons, List.map_cons, h x List.mem_cons_self y List.mem_cons_self hfirst,
        ih (fun x hx y hy => h x (List.mem_cons_of_mem _ hx) y (List.mem_cons_of_mem _ hy)) hrest]

theorem Spelled.plain_eq_of_name (hs : Spelled tokens) (hs' : Spelled tokens') {t t' : Token}
    (ht : t ∈ tokens ∧ t.kind = .identifier) (ht' : t' ∈ tokens' ∧ t'.kind = .identifier)
    (h : t.name = t'.name) : t.plain = t'.plain := by
  rw [Token.name_eq_text ht.2, Token.name_eq_text ht'.2] at h
  exact (hs.written t ht.1).plain_eq (hs'.written t' ht'.1) h

/-- A constant has another text than a name. -/
theorem Spelled.text_ne_name (hs : Spelled tokens) (hs' : Spelled tokens') {t t' : Token}
    (ht : t ∈ tokens ∧ t.kind.isLiteral = true) (ht' : t' ∈ tokens' ∧ t'.kind = .identifier) :
    t.text ≠ t'.name := by
  rw [Token.name_eq_text ht'.2]
  intro h
  have hplain := (hs.written t ht.1).plain_eq (hs'.written t' ht'.1) h
  have hkind := (Token.plain_inj hplain).1
  rw [ht'.2] at hkind
  rw [hkind] at ht
  cases ht.2

theorem Expr.plain_eq_of_sexp (hs : Spelled tokens) (hs' : Spelled tokens') : ∀ e e' : Expr,
    (∀ node ∈ e.nodes, node.Lexical tokens) → (∀ node ∈ e'.nodes, node.Lexical tokens') →
      e.sexp = e'.sexp → e.relabel .plain = e'.relabel .plain
  | .number t v, e', h, h', heq => by
    obtain ⟨ht, hliteral, rfl⟩ := h _ List.mem_cons_self
    cases e' with
    | number t' v' =>
      obtain ⟨ht', hliteral', rfl⟩ := h' _ List.mem_cons_self
      have hplain := (hs.written t ht).plain_eq (hs'.written t' ht') (SExpr.atom.inj heq)
      -- the value is that of the kind and the text
      have hvalue : Grammar.constant t = Grammar.constant t' := by
        rw [← Relabeling.plain.constant hliteral, ← Relabeling.plain.constant hliteral']
        exact congrArg Grammar.constant hplain
      rw [Expr.relabel, Expr.relabel, hvalue]
      exact congrArg (Expr.number · _) hplain
    | «variable» t' =>
      exact absurd (SExpr.atom.inj heq)
        (hs.text_ne_name hs' ⟨ht, hliteral⟩ (h' _ List.mem_cons_self))
    | unary | binary => cases heq
  | .variable t, e', h, h', heq => by
    cases e' with
    | number t' v' =>
      obtain ⟨ht', hliteral', _⟩ := h' _ List.mem_cons_self
      exact absurd (SExpr.atom.inj heq).symm
        (hs'.text_ne_name hs ⟨ht', hliteral'⟩ (h _ List.mem_cons_self))
    | «variable» t' =>
      exact congrArg Expr.variable (hs.plain_eq_of_name hs' (h _ List.mem_cons_self)
        (h' _ List.mem_cons_self) (SExpr.atom.inj heq))
    | unary | binary => cases heq
  | .unary op e, e', h, h', heq => by
    obtain ⟨hop, he⟩ := List.forall_mem_cons.mp h
    cases e' with
    | number | «variable» => cases heq
    | unary op' e' =>
      obtain ⟨hop', he'⟩ := List.forall_mem_cons.mp h'
      obtain ⟨htext, hoperand⟩ := headed_inj heq
      rw [Expr.relabel, Expr.relabel,
        Expr.plain_eq_of_sexp hs hs' e e' he he' (List.cons.inj hoperand).1]
      exact congrArg (Expr.unary · _) (Token.plain_eq_of_shown (Kind.mem_shown_of_isSign hop)
        (Kind.mem_shown_of_isSign hop') htext)
    | binary left op' right => cases (List.cons.inj (headed_inj heq).2).2
  | .binary left op right, e', h, h', heq => by
    obtain ⟨hop, hoperands⟩ := List.forall_mem_cons.mp h
    obtain ⟨hleft, hright⟩ := List.forall_mem_append.mp hoperands
    cases e' with
    | number | «variable» => cases heq
    | unary op' e' => cases (List.cons.inj (headed_inj heq).2).2
    | binary left' op' right' =>
      obtain ⟨hop', hoperands'⟩ := List.forall_mem_cons.mp h'
      obtain ⟨hleft', hright'⟩ := List.forall_mem_append.mp hoperands'
      obtain ⟨htext, hsexps⟩ := headed_inj heq
      obtain ⟨hleftexp, hrest⟩ := List.cons.inj hsexps
      rw [Expr.relabel, Expr.relabel,
        Expr.plain_eq_of_sexp hs hs' left left' hleft hleft' hleftexp,
        Expr.plain_eq_of_sexp hs hs' right right' hright hright' (List.cons.inj hrest).1]
      exact congrArg (Expr.binary _ · _)
        (Token.plain_eq_of_shown (Kind.mem_shown_of_operator hop)
          (Kind.mem_shown_of_operator hop') htext)

theorem Expr.map_plain_eq_of_sexp (hs : Spelled tokens) (hs' : Spelled tokens')
    {es es' : List Expr} (h : ∀ node ∈ es.flatMap Expr.nodes, node.Lexical tokens)
    (h' : ∀ node ∈ es'.flatMap Expr.nodes, node.Lexical tokens')
    (heq : es.map Expr.sexp = es'.map Expr.sexp) :
    es.map (Expr.relabel .plain) = es'.map (Expr.relabel .plain) := by
  refine map_eq_of_map_eq (fun e he e' he' => ?_) heq
  exact e.plain_eq_of_sexp hs hs' e'
    (fun node hnode => h node (List.mem_flatMap.mpr ⟨e, he, hnode⟩))
    fun node hnode => h' node (List.mem_flatMap.mpr ⟨e', he', hnode⟩)

/-- Keywords and marks of one kind are the same but for their places. -/
theorem Token.plain_eq_of_kind {t t' : Token} {k : Kind} (hk : k ∈ Kind.fixed) (ht : t.kind = k)
    (ht' : t'.kind = k) : t.plain = t'.plain := by
  rw [plain_of_fixed (ht ▸ hk), plain_of_fixed (ht' ▸ hk), ht, ht']

mutual

theorem Stmt.plain_eq_of_sexp (hs : Spelled tokens) (hs' : Spelled tokens') : ∀ s s' : Stmt,
    (∀ node ∈ s.nodes, node.Lexical tokens) → (∀ node ∈ s'.nodes, node.Lexical tokens') →
      s.sexp = s'.sexp → s.relabel .plain = s'.relabel .plain
  | .compound start children, s', h, h', heq => by
    rw [Stmt.sexp] at heq
    cases s' with
    | compound start' children' =>
      rw [Stmt.nodes, List.forall_mem_cons] at h h'
      rw [Stmt.sexp] at heq
      rw [Stmt.relabel, Stmt.relabel, Stmt.plain_eq_of_sexpAll hs hs' children children' h.2 h'.2
        (headed_inj heq).2]
      exact congrArg (Stmt.compound · _) (Token.plain_eq_of_kind (by decide) h.1 h'.1)
    | assign | call | empty =>
      rw [Stmt.sexp] at heq
      exact absurd (headed_inj heq).1 (by decide)
  | .assign target op value, s', h, h', heq => by
    rw [Stmt.sexp] at heq
    cases s' with
    | assign target' op' value' =>
      rw [Stmt.nodes, List.forall_mem_cons, List.forall_mem_cons] at h h'
      obtain ⟨hop, htarget, hvalue⟩ := h
      obtain ⟨hop', htarget', hvalue'⟩ := h'
      rw [Stmt.sexp] at heq
      obtain ⟨hname, hrest⟩ := List.cons.inj (headed_inj heq).2
      have htargets : Relabeling.plain.toFun target = Relabeling.plain.toFun target' :=
        hs.plain_eq_of_name hs' htarget htarget' (SExpr.atom.inj hname)
      rw [Stmt.relabel, Stmt.relabel, htargets,
        value.plain_eq_of_sexp hs hs' value' hvalue hvalue' (List.cons.inj hrest).1]
      exact congrArg (Stmt.assign _ · _) (Token.plain_eq_of_kind (by decide) hop hop')
    | compound | call | empty =>
      rw [Stmt.sexp] at heq
      exact absurd (headed_inj heq).1 (by decide)
  | .call name args, s', h, h', heq => by
    rw [Stmt.sexp] at heq
    cases s' with
    | call name' args' =>
      rw [Stmt.nodes, List.forall_mem_cons] at h h'
      rw [Stmt.sexp] at heq
      obtain ⟨hname, hargs⟩ := List.cons.inj (headed_inj heq).2
      rw [Stmt.relabel, Stmt.relabel, Expr.map_plain_eq_of_sexp hs hs' h.2 h'.2 hargs]
      exact congrArg (Stmt.call · _) (hs.plain_eq_of_name hs' h.1 h'.1 (SExpr.atom.inj hname))
    | compound | assign | empty =>
      rw [Stmt.sexp] at heq
      exact absurd (headed_inj heq).1 (by decide)
  | .empty, s', _, _, heq => by
    rw [Stmt.sexp] at heq
    cases s' with
    | empty => rfl
    | compound | assign | call =>
      rw [Stmt.sexp] at heq
      exact absurd (headed_inj heq).1 (by decide)

theorem Stmt.plain_eq_of_sexpAll (hs : Spelled tokens) (hs' : Spelled tokens') :
    ∀ ss ss' : List Stmt, (∀ node ∈ Stmt.nodesAll ss, node.Lexical tokens) →
      (∀ node ∈ Stmt.nodesAll ss', node.Lexical tokens') →
        Stmt.sexpAll ss = Stmt.sexpAll ss' → Stmt.relabelAll .plain ss = Stmt.relabelAll .plain ss'
  | [], [], _, _, _ => rfl
  | [], _ :: _, _, _, heq => by cases heq
  | _ :: _, [], _, _, heq => by cases heq
  | s :: rest, s' :: rest', h, h', heq => by
    rw [Stmt.nodesAll, List.forall_mem_append] at h h'
    rw [Stmt.sexpAll, Stmt.sexpAll] at heq
    obtain ⟨hfirst, hrest⟩ := List.cons.inj heq
    rw [Stmt.relabelAll, Stmt.relabelAll, Stmt.plain_eq_of_sexp hs hs' s s' h.1 h'.1 hfirst,
      Stmt.plain_eq_of_sexpAll hs hs' rest rest' h.2 h'.2 hrest]

end

/-- A declared name and its type. -/
theorem Spelled.plain_eq_of_typed (hs : Spelled tokens) (hs' : Spelled tokens')
    {name type name' type' : Token} (hname : name ∈ tokens ∧ name.kind = .identifier)
    (htype : type.kind.isBasicType = true) (hname' : name' ∈ tokens' ∧ name'.kind = .identifier)
    (htype' : type'.kind.isBasicType = true)
    (h : [SExpr.atom name.name, .atom type.kind.text] =
      [SExpr.atom name'.name, .atom type'.kind.text]) :
    name.plain = name'.plain ∧ type.plain = type'.plain := by
  obtain ⟨hnames, htypes⟩ := List.cons.inj h
  exact ⟨hs.plain_eq_of_name hs' hname hname' (SExpr.atom.inj hnames),
    Token.plain_eq_of_shown (Kind.mem_shown_of_isBasicType htype)
      (Kind.mem_shown_of_isBasicType htype') (SExpr.atom.inj (List.cons.inj htypes).1)⟩

theorem Param.map_plain_eq_of_sexp (hs : Spelled tokens) (hs' : Spelled tokens')
    {ps ps' : List Param}
    (h : ∀ node ∈ ps.flatMap fun p => [Node.param p, Node.type p.type], node.Lexical tokens)
    (h' : ∀ node ∈ ps'.flatMap fun p => [Node.param p, Node.type p.type], node.Lexical tokens')
    (heq : ps.map Param.sexp = ps'.map Param.sexp) :
    ps.map (Param.relabel .plain) = ps'.map (Param.relabel .plain) := by
  refine map_eq_of_map_eq (fun p hp p' hp' hsexp => ?_) heq
  obtain ⟨hname, htype⟩ := Param.lexical h hp
  obtain ⟨hname', htype'⟩ := Param.lexical h' hp'
  obtain ⟨hnames, htypes⟩ :=
    hs.plain_eq_of_typed hs' hname htype hname' htype' (headed_inj hsexp).2
  exact congrArg₂ Param.mk hnames htypes

mutual

theorem Decl.plain_eq_of_sexp (hs : Spelled tokens) (hs' : Spelled tokens') : ∀ d d' : Decl,
    (∀ node ∈ d.nodes, node.Lexical tokens) → (∀ node ∈ d'.nodes, node.Lexical tokens') →
      d.sexp = d'.sexp → d.relabel .plain = d'.relabel .plain
  | .variable name type, d', h, h', heq => by
    rw [Decl.sexp] at heq
    cases d' with
    | «variable» name' type' =>
      rw [Decl.nodes, List.forall_mem_cons, List.forall_mem_singleton] at h h'
      rw [Decl.sexp] at heq
      obtain ⟨hnames, htypes⟩ :=
        hs.plain_eq_of_typed hs' h.1 h.2 h'.1 h'.2 (headed_inj heq).2
      exact congrArg₂ Decl.variable hnames htypes
    | procedure =>
      rw [Decl.sexp] at heq
      exact absurd (headed_inj heq).1 (by decide)
  | .procedure name params block, d', h, h', heq => by
    rw [Decl.sexp] at heq
    cases d' with
    | «variable» =>
      rw [Decl.sexp] at heq
      exact absurd (headed_inj heq).1 (by decide)
    | procedure name' params' block' =>
      rw [Decl.nodes, List.forall_mem_cons, List.forall_mem_append] at h h'
      obtain ⟨hname, hparams, hblock⟩ := h
      obtain ⟨hname', hparams', hblock'⟩ := h'
      rw [Decl.sexp] at heq
      obtain ⟨hnames, hrest⟩ := List.cons.inj (headed_inj heq).2
      obtain ⟨hlists, hrest⟩ := List.cons.inj hrest
      rw [Decl.relabel, Decl.relabel,
        Param.map_plain_eq_of_sexp hs hs' hparams hparams' (SExpr.list.inj hlists),
        Block.plain_eq_of_sexp hs hs' block block' hblock hblock' (List.cons.inj hrest).1]
      exact congrArg (Decl.procedure · _ _)
        (hs.plain_eq_of_name hs' hname hname' (SExpr.atom.inj hnames))

theorem Decl.plain_eq_of_sexpAll (hs : Spelled tokens) (hs' : Spelled tokens') :
    ∀ ds ds' : List Decl, (∀ node ∈ Decl.nodesAll ds, node.Lexical tokens) →
      (∀ node ∈ Decl.nodesAll ds', node.Lexical tokens') →
        Decl.sexpAll ds = Decl.sexpAll ds' → Decl.relabelAll .plain ds = Decl.relabelAll .plain ds'
  | [], [], _, _, _ => rfl
  | [], _ :: _, _, _, heq => by cases heq
  | _ :: _, [], _, _, heq => by cases heq
  | d :: rest, d' :: rest', h, h', heq => by
    rw [Decl.nodesAll, List.forall_mem_append] at h h'
    rw [Decl.sexpAll, Decl.sexpAll] at heq
    obtain ⟨hfirst, hrest⟩ := List.cons.inj heq
    rw [Decl.relabelAll, Decl.relabelAll, Decl.plain_eq_of_sexp hs hs' d d' h.1 h'.1 hfirst,
      Decl.plain_eq_of_sexpAll hs hs' rest rest' h.2 h'.2 hrest]

theorem Block.plain_eq_of_sexp (hs : Spelled tokens) (hs' : Spelled tokens') : ∀ b b' : Block,
    (∀ node ∈ b.nodes, node.Lexical tokens) → (∀ node ∈ b'.nodes, node.Lexical tokens') →
      b.sexp = b'.sexp → b.relabel .plain = b'.relabel .plain
  | .mk decls start body, .mk decls' start' body', h, h', heq => by
    rw [Block.nodes, List.forall_mem_cons, List.forall_mem_append, List.forall_mem_cons] at h h'
    obtain ⟨_, hdecls, hstart, hbody⟩ := h
    obtain ⟨_, hdecls', hstart', hbody'⟩ := h'
    rw [Block.sexp, Block.sexp] at heq
    -- the body is the last element, and all before it are declarations
    obtain ⟨hfront, hlast⟩ := List.append_inj' (headed_inj heq).2 rfl
    rw [Block.relabel, Block.relabel,
      Decl.plain_eq_of_sexpAll hs hs' decls decls' hdecls hdecls' hfront,
      Stmt.plain_eq_of_sexpAll hs hs' body body' hbody hbody'
        (headed_inj (List.cons.inj hlast).1).2]
    exact congrArg (Block.mk _ · _) (Token.plain_eq_of_kind (by decide) hstart hstart')

end

theorem Program.plain_eq_of_sexp (hs : Spelled tokens) (hs' : Spelled tokens') {p p' : Program}
    (h : ∀ node ∈ p.nodes, node.Lexical tokens) (h' : ∀ node ∈ p'.nodes, node.Lexical tokens')
    (heq : p.sexp = p'.sexp) : p.relabel .plain = p'.relabel .plain := by
  obtain ⟨hname, hblock⟩ := List.forall_mem_cons.mp h
  obtain ⟨hname', hblock'⟩ := List.forall_mem_cons.mp h'
  obtain ⟨hnames, hblocks⟩ := List.cons.inj (headed_inj heq).2
  rw [relabel, relabel,
    p.block.plain_eq_of_sexp hs hs' p'.block hblock hblock' (List.cons.inj hblocks).1]
  exact congrArg (Program.mk · _) (hs.plain_eq_of_name hs' hname hname' (SExpr.atom.inj hnames))

end Determined

/-- The dumps of two programs that were read are equal exactly if the programs are the same tree, in
which tokens count by their kinds and their texts only: not by their positions, nor by the letter
case of a keyword. -/
theorem Program.dump_identifies_trees {file file' : String} {source source' : Bytes}
    {index index' : Nat} {p p' : Program} (hp : Program.ofSource file source index = .ok p)
    (hp' : Program.ofSource file' source' index' = .ok p') :
    p.dump = p'.dump ↔ p.relabel .plain = p'.relabel .plain := by
  have hs := TokenStream.spelled_ofSource file source index
  have hs' := TokenStream.spelled_ofSource file' source' index'
  have hlexical := lexical_nodes hp
  have hlexical' := lexical_nodes hp'
  constructor
  · intro h
    rw [← p.text_sexp, ← p'.text_sexp] at h
    exact plain_eq_of_sexp hs hs' hlexical hlexical'
      (SExpr.text_inj (wellFormed_sexp hs hlexical) (wellFormed_sexp hs' hlexical') h)
  · intro h
    rw [← p.dump_relabel .plain, h, dump_relabel]

/-- Two layouts of one program, in which the heads of lists occur as names. -/
theorem Program.dump_identifies_trees_heads :
    let bytes := fun text : String => text.toList.map fun c => c.toNat.toUInt8
    let source := bytes "program call; var noop : real; begin noop := -noop; end."
    let source' := bytes "PROGRAM call;var noop:Real;\x7b-\x7dBegin noop:=-noop;END."
    ∃ p p', Program.ofSource "p.pas" source = .ok p ∧ Program.ofSource "q.pas" source' = .ok p' ∧
      p.dump =
        "(program call (block (var noop REAL) (compound (assign noop (- noop)) (noop))))" ∧
      p.relabel .plain = p'.relabel .plain := by
  intro bytes source source'
  have hdump : (Program.ofSource "p.pas" source).toOption.map Program.dump =
      some "(program call (block (var noop REAL) (compound (assign noop (- noop)) (noop))))" := by
    decide +kernel
  have hdump' : (Program.ofSource "q.pas" source').toOption.map Program.dump =
      some "(program call (block (var noop REAL) (compound (assign noop (- noop)) (noop))))" := by
    decide +kernel
  obtain ⟨p, hp, hshown⟩ := Option.map_eq_some_iff.mp hdump
  obtain ⟨p', hp', hshown'⟩ := Option.map_eq_some_iff.mp hdump'
  replace hp := eq_ok_of_toOption hp
  replace hp' := eq_ok_of_toOption hp'
  exact ⟨p, p', hp, hp', hshown,
    (dump_identifies_trees hp hp').mp (hshown.trans hshown'.symm)⟩

end MiniPascal
