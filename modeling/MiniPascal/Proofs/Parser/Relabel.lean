import MiniPascal.Proofs.Parser.Failure
import MiniPascal.Proofs.Syntax.Relabel

/-!
# Reading other tokens

What a parser does depends on the kinds and texts of tokens only. Given tokens that replace others
of the same kinds and texts, each function of the parser gives the same answer with the tokens in it
replaced: the same tree, or an error for the same cause at the token that replaces the one at fault.
-/
namespace MiniPascal

namespace Relabeling

variable (f : Relabeling)

/-- Messages speak of tokens by their kinds and texts. -/
theorem described (t : Token) : (f.toFun t).described = t.described := by
  unfold Token.described
  rw [f.kind]
  split
  · next h => rw [f.lexemeText (.inl h)]
  · next h => rw [f.lexemeText (.inr (by rw [h]; rfl))]
  · next h => rw [f.lexemeText (.inr (by rw [h]; rfl))]
  · rfl
  · rfl

/-- An answer is another one with its tokens replaced, where `rel` compares the results. -/
inductive Carries {α β : Type} (rel : α → β → Prop) :
    Except Diagnostic α → Except Diagnostic β → Prop
  | ok {a : α} {b : β} (h : rel a b) : Carries rel (.ok a) (.ok b)
  | error (t : Token) (c : Cause) :
      Carries rel (.error (.atToken t c)) (.error (.atToken (f.toFun t) c))

theorem Carries.mono {α β : Type} {rel rel' : α → β → Prop} {x : Except Diagnostic α}
    {y : Except Diagnostic β} {f : Relabeling} (h : f.Carries rel x y)
    (hrel : ∀ a b, rel a b → rel' a b) : f.Carries rel' x y := by
  cases h with
  | ok h => exact .ok (hrel _ _ h)
  | error t c => exact .error t c

def stop : Stop → Stop
  | .endOfFile t => .endOfFile (f.toFun t)
  | .failed d => .failed d

def stream (s : TokenStream) : TokenStream :=
  ⟨s.tokens.map f.toFun, f.stop s.stop⟩

/-- An answer is carried over, or both answers are that no further token can be read. -/
def CarriesUpTo {α β : Type} (stop : Stop) (rel : α → β → Prop) (x : Except Diagnostic α)
    (y : Except Diagnostic β) : Prop :=
  f.Carries rel x y ∨ ∃ d, stop = .failed d ∧ x = .error d ∧ y = .error d

end Relabeling

namespace Parser

variable {f : Relabeling} {α β : Type}

/-- On replaced tokens `q` gives the answer of `p`, changed by `g`, and leaves the same tokens. -/
def Carries (f : Relabeling) (g : α → β) (p : Parser α) (q : Parser β) : Prop :=
  ∀ s, f.CarriesUpTo s.stop (fun x y => x.2.stop = s.stop ∧ y = (g x.1, f.stream x.2)) (p s)
    (q (f.stream s))

section

variable {g : α → β} {p : Parser α} {q : Parser β}

theorem Carries.bind {γ δ : Type} {h : γ → δ} {k : α → Parser γ} {k' : β → Parser δ}
    (hp : Carries f g p q) (hk : ∀ a, Carries f h (k a) (k' (g a))) :
    Carries f h (p >>= k) (q >>= k') := by
  intro s
  rcases hp s with hanswer | ⟨d, hstop, hx, hy⟩
  · generalize hx : p s = x at hanswer
    generalize hy : q (f.stream s) = y at hanswer
    cases hanswer with
    | @ok a b hrel =>
      obtain ⟨a, s'⟩ := a
      obtain ⟨hstop, rfl⟩ := hrel
      rw [bind_of_ok hx, bind_of_ok hy, ← hstop]
      exact hk a s'
    | error t c =>
      rw [bind_of_error hx, bind_of_error hy]
      exact .inl (.error t c)
  · rw [bind_of_error hx, bind_of_error hy]
    exact .inr ⟨d, hstop, rfl, rfl⟩

theorem carries_pure {a : α} {b : β} (h : b = g a) : Carries f g (pure a) (pure b) := by
  intro s
  subst h
  exact .inl (.ok ⟨rfl, rfl⟩)

theorem carries_fail (t : Token) (c : Cause) :
    Carries f g (fail t c) (fail (f.toFun t) c) :=
  fun _ => .inl (.error t c)

theorem Carries.map {γ δ : Type} {h : γ → δ} {k : α → γ} {k' : β → δ} (hp : Carries f g p q)
    (hk : ∀ a, k' (g a) = h (k a)) :
    Carries f h (p >>= fun a => pure (k a)) (q >>= fun b => pure (k' b)) :=
  hp.bind fun a => carries_pure (hk a)

end

theorem carries_peek : Carries f f.toFun peek peek := by
  rintro ⟨tokens, stop⟩
  cases tokens with
  | cons t rest => exact .inl (.ok ⟨rfl, rfl⟩)
  | nil =>
    cases stop with
    | endOfFile t => exact .inl (.ok ⟨rfl, rfl⟩)
    | failed d => exact .inr ⟨d, rfl, rfl, rfl⟩

theorem carries_advance : Carries f id advance advance := by
  rintro ⟨tokens, stop⟩
  cases tokens with
  | nil => exact .inl (.ok ⟨rfl, rfl⟩)
  | cons t rest => exact .inl (.ok ⟨rfl, rfl⟩)

theorem carries_eat (k : Kind) : Carries f f.toFun (eat k) (eat k) := by
  refine carries_peek.bind fun t => ?_
  rw [f.kind, f.described]
  split
  · exact carries_advance.map fun _ => rfl
  · exact carries_fail t _

theorem carries_nextIs (k : Kind) : Carries f id (nextIs k) (nextIs k) := by
  refine carries_peek.map fun t => ?_
  rw [f.kind]
  rfl

theorem carries_sepBy (separator : Kind) {item : Parser α} {item' : Parser β} {g : α → β}
    (hitem : Carries f g item item') (n : Nat) :
    Carries f (List.map g) (sepBy separator item n) (sepBy separator item' n) := by
  induction n with
  | zero => exact hitem.map fun _ => rfl
  | succ n ih =>
    refine hitem.bind fun first => (carries_nextIs separator).bind fun found => ?_
    cases found with
    | false => exact carries_pure rfl
    | true => exact (carries_eat separator).bind fun _ => ih.map fun _ => rfl

theorem carries_chain (isOperator : Kind → Bool) {operand : Parser Expr}
    (hoperand : Carries f (Expr.relabel f) operand operand) (n : Nat) (left : Expr) :
    Carries f (Expr.relabel f) (chain isOperator operand n left)
      (chain isOperator operand n (left.relabel f)) := by
  induction n generalizing left with
  | zero => exact carries_pure rfl
  | succ n ih =>
    refine carries_peek.bind fun op => ?_
    rw [f.kind]
    split
    · exact carries_advance.bind fun _ => hoperand.bind fun right => ih (.binary left op right)
    · exact carries_pure rfl

theorem carries_term {factor : Parser Expr} (hfactor : Carries f (Expr.relabel f) factor factor)
    (n : Nat) : Carries f (Expr.relabel f) (term factor n) (term factor n) :=
  hfactor.bind fun first => carries_chain _ hfactor n first

theorem carries_sum {factor : Parser Expr} (hfactor : Carries f (Expr.relabel f) factor factor)
    (n : Nat) : Carries f (Expr.relabel f) (sum factor n) (sum factor n) :=
  (carries_term hfactor n).bind fun first => carries_chain _ (carries_term hfactor n) n first

theorem carries_number {t : Token} (ht : t.kind.isLiteral = true) :
    Carries f (Expr.relabel f) (number t) (number (f.toFun t)) := by
  unfold number
  rw [f.kind, f.lexemeText (.inr ht)]
  split
  · exact carries_advance.map fun _ => rfl
  · exact carries_fail t _

theorem carries_factor (n : Nat) : Carries f (Expr.relabel f) (factor n) (factor n) := by
  induction n with
  | zero =>
    refine carries_peek.bind fun t => ?_
    rw [f.described]
    exact carries_fail t _
  | succ n ih =>
    refine carries_peek.bind fun t => ?_
    rw [f.kind, f.described]
    cases hk : t.kind
    case plus | minus => exact carries_advance.bind fun _ => ih.map fun _ => rfl
    case integerConst | realConst => exact carries_number (by rw [hk]; rfl)
    case openParen =>
      refine carries_advance.bind fun _ => (carries_sum ih n).bind fun e => ?_
      exact (carries_eat .closeParen).map fun _ => rfl
    case identifier => exact carries_advance.map fun _ => rfl
    all_goals exact carries_fail t _

theorem carries_expression (n : Nat) : Carries f (Expr.relabel f) (expression n) (expression n) :=
  carries_sum (carries_factor n) n

theorem carries_call (n : Nat) (name : Token) :
    Carries f (Stmt.relabel f) (call n name) (call n (f.toFun name)) := by
  have hlast (args : List Expr) : Carries f (Stmt.relabel f)
      (do let _ ← eat .closeParen; return .call name args)
      (do let _ ← eat .closeParen; return .call (f.toFun name) (args.map (Expr.relabel f))) :=
    (carries_eat .closeParen).map fun _ => rfl
  refine (carries_eat .openParen).bind fun _ => (carries_nextIs .closeParen).bind fun found => ?_
  cases found with
  | true => exact (carries_pure (g := List.map (Expr.relabel f)) rfl).bind hlast
  | false => exact (carries_sepBy .comma (carries_expression n) n).bind hlast

theorem carries_assignment (n : Nat) (target : Token) :
    Carries f (Stmt.relabel f) (assignment n target) (assignment n (f.toFun target)) :=
  (carries_eat .assign).bind fun _ => (carries_expression n).map fun _ => rfl

theorem relabelAll_eq_map (ss : List Stmt) : Stmt.relabelAll f ss = ss.map (Stmt.relabel f) := by
  induction ss with
  | nil => rfl
  | cons s rest ih => rw [Stmt.relabelAll, ih, List.map_cons]

theorem carries_compound {statement : Parser Stmt}
    (hstatement : Carries f (Stmt.relabel f) statement statement) (n : Nat) :
    Carries f (fun c => (f.toFun c.1, Stmt.relabelAll f c.2)) (compound statement n)
      (compound statement n) := by
  refine (carries_eat .beginWord).bind fun start => ?_
  refine (carries_sepBy .semicolon hstatement n).bind fun children => ?_
  refine (carries_eat .endWord).map fun _ => ?_
  rw [relabelAll_eq_map]

theorem carries_statement (n : Nat) : Carries f (Stmt.relabel f) (statement n) (statement n) := by
  induction n with
  | zero => exact carries_peek.map fun _ => rfl
  | succ n ih =>
    refine carries_peek.bind fun t => ?_
    rw [f.kind]
    cases hk : t.kind
    case beginWord => exact (carries_compound ih n).map fun _ => rfl
    case identifier =>
      refine (carries_eat .identifier).bind fun name => ?_
      refine (carries_nextIs .openParen).bind fun found => ?_
      cases found with
      | true => exact carries_call n name
      | false => exact carries_assignment n name
    all_goals exact carries_pure rfl

theorem carries_type : Carries f f.toFun type type := by
  refine carries_peek.bind fun t => ?_
  rw [f.kind, f.described]
  split
  · exact carries_advance.map fun _ => rfl
  · exact carries_fail t _

theorem carries_group (n : Nat) : Carries f (List.map (Param.relabel f)) (group n) (group n) := by
  refine (carries_sepBy .comma (carries_eat .identifier) n).bind fun names => ?_
  refine (carries_eat .colon).bind fun _ => carries_type.map fun type => ?_
  simp only [List.map_map, Function.comp_def, Param.relabel]

theorem carries_variableGroup (n : Nat) :
    Carries f (Decl.relabelAll f) (variableGroup n) (variableGroup n) := by
  refine (carries_group n).bind fun declared => (carries_eat .semicolon).map fun _ => ?_
  exact (Decl.relabelAll_variables f declared).symm

theorem carries_variableSection (n m : Nat) :
    Carries f (Decl.relabelAll f) (variableSection n m) (variableSection n m) := by
  induction m with
  | zero => exact carries_variableGroup n
  | succ m ih =>
    refine (carries_variableGroup n).bind fun decls => (carries_nextIs .identifier).bind ?_
    rintro (_ | _)
    · exact carries_pure rfl
    · exact ih.map fun rest => (Decl.relabelAll_append f decls rest).symm

theorem carries_params (n : Nat) :
    Carries f (List.map (Param.relabel f)) (params n) (params n) := by
  refine (carries_nextIs .openParen).bind ?_
  rintro (_ | _)
  · exact carries_pure rfl
  · refine (carries_eat .openParen).bind fun _ => ?_
    refine (carries_sepBy .semicolon (carries_group n) n).bind fun groups => ?_
    exact (carries_eat .closeParen).map fun _ => List.map_flatten.symm

theorem carries_procedure {block : Parser Block}
    (hblock : Carries f (Block.relabel f) block block) (n : Nat) :
    Carries f (Decl.relabel f) (procedure block n) (procedure block n) := by
  refine (carries_eat .procedureWord).bind fun _ => (carries_eat .identifier).bind fun name => ?_
  refine (carries_params n).bind fun params => (carries_eat .semicolon).bind fun _ => ?_
  refine hblock.bind fun block => (carries_eat .semicolon).map fun _ => ?_
  rw [Decl.relabel]

theorem carries_declarations {block : Parser Block}
    (hblock : Carries f (Block.relabel f) block block) (n m : Nat) :
    Carries f (Decl.relabelAll f) (declarations block n m) (declarations block n m) := by
  induction m with
  | zero => exact carries_peek.map fun _ => rfl
  | succ m ih =>
    refine carries_peek.bind fun t => ?_
    rw [f.kind]
    cases hk : t.kind
    case varWord =>
      refine (carries_eat .varWord).bind fun _ => (carries_variableSection n n).bind fun decls => ?_
      exact ih.map fun rest => (Decl.relabelAll_append f decls rest).symm
    case procedureWord =>
      refine (carries_procedure hblock n).bind fun decl => ih.map fun rest => ?_
      rw [Decl.relabelAll]
    all_goals exact carries_pure rfl

theorem carries_block (n : Nat) : Carries f (Block.relabel f) (block n) (block n) := by
  induction n with
  | zero => exact (carries_eat .beginWord).map fun _ => rfl
  | succ n ih =>
    refine (carries_declarations ih n (n + 1)).bind fun decls => ?_
    refine (carries_compound (carries_statement (n + 1)) (n + 1)).map fun c => ?_
    rw [Block.relabel]

theorem carries_program (n : Nat) : Carries f (Program.relabel f) (program n) (program n) := by
  refine (carries_eat .programWord).bind fun _ => (carries_eat .identifier).bind fun name => ?_
  refine (carries_eat .semicolon).bind fun _ => (carries_block n).bind fun block => ?_
  refine (carries_eat .dot).bind fun _ => carries_peek.bind fun t => ?_
  rw [f.kind, f.described]
  split
  · exact carries_pure rfl
  · exact carries_fail t _

end Parser

/-- Replaced tokens are read as the program with its tokens replaced, or the error is at the token
that replaces the one at fault, or where no further token can be read. -/
theorem Program.ofStream_carriesUpTo (f : Relabeling) (s : TokenStream) :
    f.CarriesUpTo s.stop (fun p q => q = p.relabel f) (Program.ofStream s)
      (Program.ofStream (f.stream s)) := by
  have hlength : (f.stream s).length = s.length := List.length_map _
  have hanswer := Parser.carries_program (f := f) s.length s
  unfold Program.ofStream Parser.runOn
  rw [hlength]
  change f.CarriesUpTo _ _ (Prod.fst <$> Parser.program s.length s)
    (Prod.fst <$> Parser.program s.length (f.stream s))
  generalize Parser.program s.length s = x at hanswer ⊢
  generalize Parser.program s.length (f.stream s) = y at hanswer ⊢
  rcases hanswer with hcarries | ⟨d, hstop, rfl, rfl⟩
  · cases hcarries with
    | ok h =>
      obtain ⟨_, rfl⟩ := h
      exact .inl (.ok rfl)
    | error t c => exact .inl (.error t c)
  · exact .inr ⟨d, hstop, rfl, rfl⟩

theorem Program.ofStream_carries (f : Relabeling) (tokens : List Token) (eof : Token) :
    f.Carries (fun p q => q = p.relabel f) (Program.ofStream ⟨tokens, .endOfFile eof⟩)
      (Program.ofStream (f.stream ⟨tokens, .endOfFile eof⟩)) := by
  rcases ofStream_carriesUpTo f ⟨tokens, .endOfFile eof⟩ with hcarries | ⟨d, hstop, _⟩
  · exact hcarries
  · cases hstop

end MiniPascal
