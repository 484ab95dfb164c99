import MiniPascal.Proofs.Parser.Failure
import MiniPascal.Proofs.Token.Lexing
import MiniPascal.Syntax.Parsing

/-!
# Reading with one token ahead

The parser that takes its tokens from the lexer gives the answers of the parser of streams, and it
enters the error that it ends with, once. When a token is taken the lexer goes on to the next one at
once; if there is none, the parser has failed already while the parser of streams still has to look.
It does look before it is done, and until then it does not move.
-/
namespace MiniPascal

def TokenStream.exhausted (d : Diagnostic) : TokenStream := ⟨[], .failed d⟩

/-- A stream starts with the token ahead and goes on with what can be read behind it. -/
def Lookahead.Shows (l : Lookahead) (s : TokenStream) : Prop :=
  ∃ c : Cursor, c.next = (.ok l.ahead, l.cursor) ∧ c.stream = s

theorem Cursor.next_endOfFile {c c' : Cursor} {t : Token} (h : c.next = (.ok t, c'))
    (hkind : t.kind = .endOfFile) : c'.next = (.ok t, c') := by
  have hreading := reading_next c
  rw [h] at hreading
  cases hreading with
  | token hgap hrest htoken => exact absurd hkind (tokenAt?_kind_ne htoken)
  | endOfFile hgap => exact (Reading.endOfFile Gap.nil).next_eq

namespace Lookahead

variable {l : Lookahead} {s : TokenStream}

theorem Shows.head_eq (h : l.Shows s) : s.head = .ok l.ahead := by
  obtain ⟨c, hnext, rfl⟩ := h
  by_cases hkind : l.ahead.kind = .endOfFile
  · rw [Cursor.stream_of_endOfFile hnext hkind]
    rfl
  · rw [Cursor.stream_of_token hnext hkind]
    rfl

theorem Shows.tail_eq (h : l.Shows s) : s.tail = l.cursor.stream := by
  obtain ⟨c, hnext, rfl⟩ := h
  by_cases hkind : l.ahead.kind = .endOfFile
  · rw [Cursor.stream_of_endOfFile hnext hkind,
      Cursor.stream_of_endOfFile (Cursor.next_endOfFile hnext hkind) hkind]
    rfl
  · rw [Cursor.stream_of_token hnext hkind]
    rfl

end Lookahead

namespace Parsing

variable {α β : Type}

inductive Matches (p : Parsing α) (l : Lookahead) : Except Diagnostic (α × TokenStream) → Prop
  | ok {a : α} {l' : Lookahead} {s : TokenStream} (hp : p.Ends l (.ok a) l') (hl : l'.Shows s) :
      Matches p l (.ok (a, s))
  | error {d : Diagnostic} {l' : Lookahead} (hp : p.Ends l (.error d) l') : Matches p l (.error d)
  | early {d : Diagnostic} {l' : Lookahead} (hp : p.Ends l (.error d) l') (a : α) :
      Matches p l (.ok (a, .exhausted d))

/-- A computation does what the parser of streams does, where there is a token ahead. -/
def Mirrors (p : Parsing α) (q : Parser α) : Prop :=
  ∀ ⦃l s⦄, l.Shows s → Matches p l (q s)

/-- Where no token can be read, a parser fails for this reason or does not move. -/
def Stays (q : Parser α) : Prop :=
  ∀ d, q (.exhausted d) = .error d ∨ ∃ a, q (.exhausted d) = .ok (a, .exhausted d)

structure Follows (p : Parsing α) (q : Parser α) : Prop where
  mirrors : Mirrors p q
  stays : Stays q

section

variable {p : Parsing α} {q : Parser α} {f : α → Parsing β} {g : α → Parser β}

theorem Matches.behind {l l' : Lookahead} {a : α}
    {answer : Except Diagnostic (β × TokenStream)} (hp : p.Ends l (.ok a) l')
    (h : Matches (f a) l' answer) : Matches (p >>= f) l answer := by
  cases h with
  | ok hf hl => exact .ok (hp.bind hf) hl
  | error hf => exact .error (hp.bind hf)
  | early hf b => exact .early (hp.bind hf) b

theorem Mirrors.bind (hp : Mirrors p q) (hf : ∀ a, Follows (f a) (g a)) :
    Mirrors (p >>= f) (q >>= g) := by
  intro l s hl
  have hmatch := hp hl
  generalize hq : q s = answer at hmatch
  cases hmatch with
  | ok hp hl' =>
    rw [Parser.bind_of_ok hq]
    exact ((hf _).mirrors hl').behind hp
  | error hp =>
    rw [Parser.bind_of_error hq]
    exact .error hp.bind_error
  | @early d _ hp a =>
    rw [Parser.bind_of_ok hq]
    rcases (hf a).stays d with h | ⟨b, h⟩
    · rw [h]
      exact .error hp.bind_error
    · rw [h]
      exact .early hp.bind_error b

theorem Follows.bind (hp : Follows p q) (hf : ∀ a, Follows (f a) (g a)) :
    Follows (p >>= f) (q >>= g) := by
  refine ⟨hp.mirrors.bind hf, fun d => ?_⟩
  rcases hp.stays d with h | ⟨a, h⟩
  · exact .inl (Parser.bind_of_error h)
  · rw [Parser.bind_of_ok h]
    exact (hf a).stays d

theorem follows_pure (a : α) : Follows (pure a) (pure a) :=
  ⟨fun _ _ hl => .ok (Stage.ends_pure _ a) hl, fun _ => .inr ⟨a, rfl⟩⟩

theorem Follows.map {f : α → β} (hp : Follows p q) :
    Follows (do return f (← p)) (do return f (← q)) :=
  hp.bind fun a => follows_pure (f a)

theorem mirrors_fail (t : Token) (c : Cause) :
    Mirrors (fail t c : Parsing α) (Parser.fail t c) :=
  fun _ _ _ => .error (Stage.ends_fail _ _)

/-- What is done behind a look at the token ahead is done only where there is one. -/
theorem follows_peek {f : Token → Parsing β} {g : Token → Parser β}
    (hf : ∀ t, Mirrors (f t) (g t)) : Follows (peek >>= f) (Parser.peek >>= g) := by
  refine ⟨fun l s hl => ?_, fun d => .inl rfl⟩
  have hpeek : Parser.peek s = .ok (l.ahead, s) := Parser.peek_eq_ok.mpr ⟨hl.head_eq, rfl⟩
  rw [Parser.bind_of_ok hpeek]
  exact (hf l.ahead hl).behind (Stage.ends_ask Lookahead.ahead l)

end

theorem follows_advance : Follows advance Parser.advance := by
  refine ⟨fun l s hl => ?_, fun d => .inr ⟨(), rfl⟩⟩
  let behind (c : Cursor) (l : Lookahead) : Lookahead := { l with cursor := c }
  have hnext : (Stage.inside Lookahead.cursor behind Lexing.next).Ends l l.cursor.next.1
      (behind l.cursor.next.2 l) := (Lexing.ends_next l.cursor).inside
  change Matches advance l (.ok ((), s.tail))
  rw [hl.tail_eq]
  rcases hcursor : l.cursor.next with ⟨d | t, c⟩
  · rw [hcursor] at hnext
    rw [Cursor.stream_of_error hcursor]
    exact .early hnext.bind_error ()
  · rw [hcursor] at hnext
    exact .ok (hnext.bind (Stage.ends_change _ _)) ⟨l.cursor, hcursor, rfl⟩

theorem follows_eat (k : Kind) : Follows (eat k) (Parser.eat k) := by
  refine follows_peek fun t => ?_
  split
  · exact (follows_advance.bind fun _ => follows_pure t).mirrors
  · exact mirrors_fail t _

theorem follows_nextIs (k : Kind) : Follows (nextIs k) (Parser.nextIs k) :=
  follows_peek fun t => (follows_pure (t.kind == k)).mirrors

theorem follows_sepBy (separator : Kind) {item : Parsing α} {item' : Parser α}
    (hitem : Follows item item') (n : Nat) :
    Follows (sepBy separator item n) (Parser.sepBy separator item' n) := by
  induction n with
  | zero => exact hitem.map
  | succ n ih =>
    refine hitem.bind fun first => (follows_nextIs separator).bind fun found => ?_
    cases found with
    | false => exact follows_pure [first]
    | true => exact (follows_eat separator).bind fun _ => ih.map

theorem follows_chain (isOperator : Kind → Bool) {operand : Parsing Expr} {operand' : Parser Expr}
    (hoperand : Follows operand operand') (n : Nat) (left : Expr) :
    Follows (chain isOperator operand n left) (Parser.chain isOperator operand' n left) := by
  induction n generalizing left with
  | zero => exact follows_pure left
  | succ n ih =>
    refine follows_peek fun op => ?_
    split
    · exact (follows_advance.bind fun _ => hoperand.bind fun right => ih _).mirrors
    · exact (follows_pure left).mirrors

theorem follows_term {factor : Parsing Expr} {factor' : Parser Expr}
    (hfactor : Follows factor factor') (n : Nat) :
    Follows (term factor n) (Parser.term factor' n) :=
  hfactor.bind fun first => follows_chain _ hfactor n first

theorem follows_sum {factor : Parsing Expr} {factor' : Parser Expr}
    (hfactor : Follows factor factor') (n : Nat) :
    Follows (sum factor n) (Parser.sum factor' n) :=
  (follows_term hfactor n).bind fun first => follows_chain _ (follows_term hfactor n) n first

theorem mirrors_number (t : Token) : Mirrors (number t) (Parser.number t) := by
  unfold number Parser.number
  cases Value.ofLexeme? t.kind t.lexemeText with
  | some v => exact follows_advance.map.mirrors
  | none => exact mirrors_fail t _

theorem follows_factor (n : Nat) : Follows (factor n) (Parser.factor n) := by
  induction n with
  | zero => exact follows_peek fun t => mirrors_fail t _
  | succ n ih =>
    refine follows_peek fun t => ?_
    cases hk : t.kind
    case plus | minus =>
      exact (follows_advance.bind fun _ => ih.map).mirrors
    case integerConst | realConst => exact mirrors_number t
    case openParen =>
      refine (follows_advance.bind fun _ => (follows_sum ih n).bind fun e => ?_).mirrors
      exact (follows_eat .closeParen).map
    case identifier => exact follows_advance.map.mirrors
    all_goals exact mirrors_fail t _

theorem follows_expression (n : Nat) : Follows (expression n) (Parser.expression n) :=
  follows_sum (follows_factor n) n

theorem follows_call (n : Nat) (name : Token) : Follows (call n name) (Parser.call n name) := by
  have hlast (args : List Expr) :
      Follows (do let _ ← eat .closeParen; return .call name args)
        (do let _ ← Parser.eat .closeParen; return Stmt.call name args) :=
    (follows_eat .closeParen).map
  refine (follows_eat .openParen).bind fun _ => (follows_nextIs .closeParen).bind fun found => ?_
  cases found with
  | true => exact (follows_pure []).bind hlast
  | false => exact (follows_sepBy .comma (follows_expression n) n).bind hlast

theorem follows_assignment (n : Nat) (target : Token) :
    Follows (assignment n target) (Parser.assignment n target) :=
  (follows_eat .assign).bind fun _ => (follows_expression n).map

theorem follows_compound {statement : Parsing Stmt} {statement' : Parser Stmt}
    (hstatement : Follows statement statement') (n : Nat) :
    Follows (compound statement n) (Parser.compound statement' n) := by
  refine (follows_eat .beginWord).bind fun start => ?_
  refine (follows_sepBy .semicolon hstatement n).bind fun children => ?_
  exact (follows_eat .endWord).map

theorem follows_statement (n : Nat) : Follows (statement n) (Parser.statement n) := by
  induction n with
  | zero => exact follows_peek fun _ => (follows_pure Stmt.empty).mirrors
  | succ n ih =>
    refine follows_peek fun t => ?_
    cases hk : t.kind
    case beginWord =>
      refine Follows.mirrors ((follows_compound ih n).bind fun ⟨start, children⟩ => ?_)
      exact follows_pure (Stmt.compound start children)
    case identifier =>
      refine Follows.mirrors ((follows_eat .identifier).bind fun name => ?_)
      refine (follows_nextIs .openParen).bind fun found => ?_
      cases found with
      | true => exact follows_call n name
      | false => exact follows_assignment n name
    all_goals exact (follows_pure Stmt.empty).mirrors

theorem follows_type : Follows type Parser.type := by
  refine follows_peek fun t => ?_
  split
  · exact follows_advance.map.mirrors
  · exact mirrors_fail t _

theorem follows_group (n : Nat) : Follows (group n) (Parser.group n) := by
  refine (follows_sepBy .comma (follows_eat .identifier) n).bind fun names => ?_
  exact (follows_eat .colon).bind fun _ => follows_type.map

theorem follows_variableGroup (n : Nat) : Follows (variableGroup n) (Parser.variableGroup n) :=
  (follows_group n).bind fun _ => (follows_eat .semicolon).map

theorem follows_variableSection (n m : Nat) :
    Follows (variableSection n m) (Parser.variableSection n m) := by
  induction m with
  | zero => exact follows_variableGroup n
  | succ m ih =>
    refine (follows_variableGroup n).bind fun decls => (follows_nextIs .identifier).bind ?_
    rintro (_ | _)
    · exact follows_pure decls
    · exact ih.map

theorem follows_params (n : Nat) : Follows (params n) (Parser.params n) := by
  refine (follows_nextIs .openParen).bind ?_
  rintro (_ | _)
  · exact follows_pure []
  · refine (follows_eat .openParen).bind fun _ => ?_
    refine (follows_sepBy .semicolon (follows_group n) n).bind fun groups => ?_
    exact (follows_eat .closeParen).map

theorem follows_procedure {block : Parsing Block} {block' : Parser Block}
    (hblock : Follows block block') (n : Nat) :
    Follows (procedure block n) (Parser.procedure block' n) := by
  refine (follows_eat .procedureWord).bind fun _ => (follows_eat .identifier).bind fun name => ?_
  refine (follows_params n).bind fun params => (follows_eat .semicolon).bind fun _ => ?_
  exact hblock.bind fun block => (follows_eat .semicolon).map

theorem follows_declarations {block : Parsing Block} {block' : Parser Block}
    (hblock : Follows block block') (n m : Nat) :
    Follows (declarations block n m) (Parser.declarations block' n m) := by
  induction m with
  | zero => exact follows_peek fun _ => (follows_pure []).mirrors
  | succ m ih =>
    refine follows_peek fun t => ?_
    cases hk : t.kind
    case varWord =>
      refine Follows.mirrors ((follows_eat .varWord).bind fun _ => ?_)
      exact (follows_variableSection n n).bind fun decls => ih.map
    case procedureWord =>
      exact ((follows_procedure hblock n).bind fun decl => ih.map).mirrors
    all_goals exact (follows_pure []).mirrors

theorem follows_block (n : Nat) : Follows (block n) (Parser.block n) := by
  induction n with
  | zero => exact (follows_eat .beginWord).map
  | succ n ih =>
    refine (follows_declarations ih n (n + 1)).bind fun decls => ?_
    refine (follows_compound (follows_statement (n + 1)) (n + 1)).bind fun ⟨start, body⟩ => ?_
    exact follows_pure (Block.mk decls start body)

/-- A computation gives the answers of a parser of streams that looks for a token at last. -/
structure Completes (p : Parsing α) (q : Parser α) : Prop where
  answers : ∀ ⦃l s⦄, l.Shows s → ∃ l', p.Ends l (Prod.fst <$> q s) l'
  looks : ∀ d, q (.exhausted d) = .error d

section

variable {p : Parsing α} {q : Parser α}

theorem Follows.completes {f : α → Parsing β} {g : α → Parser β} (hp : Follows p q)
    (hf : ∀ a, Completes (f a) (g a)) : Completes (p >>= f) (q >>= g) := by
  refine ⟨fun l s hl => ?_, fun d => ?_⟩
  · have hmatch := hp.mirrors hl
    generalize hq : q s = answer at hmatch
    cases hmatch with
    | @ok a l' _ hp hl' =>
      obtain ⟨l'', hf⟩ := (hf a).answers hl'
      rw [Parser.bind_of_ok hq]
      exact ⟨l'', hp.bind hf⟩
    | error hp =>
      rw [Parser.bind_of_error hq]
      exact ⟨_, hp.bind_error⟩
    | @early d l' hp a =>
      rw [Parser.bind_of_ok hq, (hf a).looks d]
      exact ⟨l', hp.bind_error⟩
  · rcases hp.stays d with h | ⟨a, h⟩
    · exact Parser.bind_of_error h
    · rw [Parser.bind_of_ok h]
      exact (hf a).looks d

theorem completes_peek {f : Token → Parsing β} {g : Token → Parser β}
    (hf : ∀ t, Mirrors (f t) (g t))
    (hg : ∀ l s, Lookahead.Shows l s → ∀ b d, g l.ahead s ≠ .ok (b, .exhausted d)) :
    Completes (peek >>= f) (Parser.peek >>= g) := by
  refine ⟨fun l s hl => ?_, fun d => rfl⟩
  have hpeek : Parser.peek s = .ok (l.ahead, s) := Parser.peek_eq_ok.mpr ⟨hl.head_eq, rfl⟩
  have hmatch := hf l.ahead hl
  rw [Parser.bind_of_ok hpeek]
  generalize hq : g l.ahead s = answer at hmatch
  cases hmatch with
  | ok hp hl' => exact ⟨_, (Stage.ends_ask _ l).bind hp⟩
  | error hp => exact ⟨_, (Stage.ends_ask _ l).bind hp⟩
  | early hp b => exact absurd hq (hg l s hl b _)

theorem Completes.map {f : α → β} (hp : Completes p q) :
    Completes (do return f (← p)) (do return f (← q)) := by
  refine ⟨fun l s hl => ?_, fun d => Parser.bind_of_error (hp.looks d)⟩
  obtain ⟨l', hp⟩ := hp.answers hl
  refine ⟨l', ?_⟩
  cases hq : q s with
  | ok x =>
    rw [hq] at hp
    rw [Parser.bind_of_ok hq]
    exact hp.bind (Stage.ends_pure l' _)
  | error d =>
    rw [hq] at hp
    rw [Parser.bind_of_error hq]
    exact hp.bind_error

end

theorem completes_eat_endOfFile : Completes (eat .endOfFile) (Parser.eat .endOfFile) := by
  refine completes_peek (fun t => ?_) fun l s hl t d h => ?_
  · split
    · exact follows_advance.map.mirrors
    · exact mirrors_fail t _
  · split at h
    · next hkind =>
      -- behind the end of the file there is the end of the file
      obtain ⟨c, hnext, rfl⟩ := hl
      rw [Cursor.stream_of_endOfFile hnext hkind] at h
      cases h
    · cases h

theorem completes_whole {p : Parsing α} {q : Parser α} (hp : Follows p q) :
    Completes (whole p) (Parser.whole q) :=
  hp.completes fun _ => completes_eat_endOfFile.map

theorem completes_program (n : Nat) : Completes (program n) (Parser.program n) := by
  refine (follows_eat .programWord).completes fun _ => ?_
  refine (follows_eat .identifier).completes fun name => ?_
  refine (follows_eat .semicolon).completes fun _ => (follows_block n).completes fun block => ?_
  refine (follows_eat .dot).completes fun _ => completes_peek (fun t => ?_) fun l s hl p d h => ?_
  · split
    · exact (follows_pure _).mirrors
    · exact mirrors_fail t _
  · split at h
    · cases h
      cases hl.head_eq
    · cases h

/-- Reading from the lexer gives the answer of the parser for the stream of its cursor. -/
theorem runOn_eq {p : Nat → Parsing α} {q : Nat → Parser α} (h : ∀ n, Completes (p n) (q n))
    (c : Cursor) : ∃ text, ∀ j, runOn p c j =
      (Parser.runOn q c.stream, (j.print text).settle (Parser.runOn q c.stream)) := by
  have hrunOn : Parser.runOn q c.stream = Prod.fst <$> q c.stream.length c.stream := rfl
  rw [hrunOn]
  obtain ⟨text, hfirst⟩ := Lexing.ends_next c
  unfold runOn
  rcases hnext : c.next with ⟨d | t, c'⟩
  · rw [hnext] at hfirst
    refine ⟨text, fun j => ?_⟩
    rw [hfirst j, Cursor.stream_of_error hnext]
    change _ = (Prod.fst <$> q _ (.exhausted d), Journal.settle _ (Prod.fst <$> q _ (.exhausted d)))
    rw [(h _).looks d]
    rfl
  · rw [hnext] at hfirst
    obtain ⟨l, text', hrest⟩ := (h c.stream.length).answers (l := ⟨t, c'⟩) ⟨c, hnext, rfl⟩
    refine ⟨text ++ text', fun j => ?_⟩
    rw [hfirst j, Journal.settle_ok, ← Journal.print_print]
    exact congrArg (fun out => (out.1, out.2.2)) (hrest (j.print text))

end Parsing

/-- Reading a program reports the error that it ends with. -/
theorem Program.read_eq (file : String) (source : Bytes) (index : Nat) :
    ∃ text, ∀ j, Program.read file source index j =
      (Program.ofSource file source index,
        (j.print text).settle (Program.ofSource file source index)) :=
  Parsing.runOn_eq Parsing.completes_program _

theorem Program.exists_journal (file : String) (source : Bytes) (index : Nat) (j : Journal) :
    ∃ j', Program.read file source index j = (Program.ofSource file source index, j') ∧
      j'.reports = j.reports ++ (Failure.found? (Program.ofSource file source index)).toList := by
  obtain ⟨text, h⟩ := Program.read_eq file source index
  exact ⟨_, h j, Journal.reports_settle j text _⟩

theorem Program.read_fst (file : String) (source : Bytes) (index : Nat) (j : Journal) :
    (Program.read file source index j).1 = Program.ofSource file source index := by
  obtain ⟨text, h⟩ := Program.read_eq file source index
  rw [h j]

/-- A lone expression without a file name gets a default one. -/
theorem Expr.read_eq (file : String) (source : Bytes) :
    let answer := Expr.ofSource (if file.isEmpty then Parsing.defaultFile else file) source
    ∃ text, ∀ j, Expr.read file source j = (answer, (j.print text).settle answer) :=
  Parsing.runOn_eq (fun n => Parsing.completes_whole (Parsing.follows_expression n)) _

theorem Stmt.read_eq (file : String) (source : Bytes) :
    let answer := Stmt.ofSource (if file.isEmpty then Parsing.defaultFile else file) source
    ∃ text, ∀ j, Stmt.read file source j = (answer, (j.print text).settle answer) :=
  Parsing.runOn_eq (fun n => Parsing.completes_whole (Parsing.follows_statement n)) _

end MiniPascal
