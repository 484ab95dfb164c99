import MiniPascal.Proofs.Grammar.Completion
import MiniPascal.Proofs.Parser.Complete
import MiniPascal.Proofs.Parser.Sound

/-!
# One parser follows another

A parser that fails does so at the first token that cannot be right: what it has taken can be
completed to a phrase, and what comes behind the token at fault makes no difference. The second
half of this compares two runs, one on some tokens and one on more of them, and these runs have
different bounds on their depth. `Tracks` therefore speaks of two parsers: `q` is given all tokens
that `p` is given and more behind them, and answers the same as long as `p` has not come to the end
of its tokens.

Each function of the parser tracks itself, for every bound that is at least the number of tokens.
-/
namespace MiniPascal.Grammar

def callTail : TokenLanguage :=
  .append (.one .openParen rfl) (.append (phrases .actuals) (.one .closeParen rfl))

def assignmentTail : TokenLanguage :=
  .append (.one .assign rfl) (phrases (.item .expr))

def variableLine : TokenLanguage :=
  .append (phrases (.item .group)) (.one .semicolon rfl)

end MiniPascal.Grammar

namespace MiniPascal.Parser

open Grammar

variable {α β : Type} {stop : Stop} {tokens : List Token}

/-- Where `rest` is left, a diagnostic is the failure to read a token or is about the one ahead. -/
def FailsAt (stop : Stop) (rest : List Token) (d : Diagnostic) : Prop :=
  TokenStream.head ⟨rest, stop⟩ = .error d ∨
    ∃ t cause, TokenStream.head ⟨rest, stop⟩ = .ok t ∧ cause.code = .parsing ∧
      d = .atToken t cause

/-- The parser `p` takes a phrase of `L`, or it fails behind the front of one; and `q` does the
same with more tokens, unless `p` has come to the end of its own. -/
inductive Tracks (stop : Stop) (L : TokenLanguage) (p q : Parser α) (tokens : List Token) : Prop
  | reads {a : α} (front : List Token) {rest : List Token}
      (hp : p ⟨tokens, stop⟩ = .ok (a, ⟨rest, stop⟩))
      (htokens : tokens = front ++ rest) (hmem : L.Mem front)
      (hq : rest ≠ [] → ∀ more stop', q ⟨tokens ++ more, stop'⟩ = .ok (a, ⟨rest ++ more, stop'⟩))
  | fails {d : Diagnostic} (front : List Token) {rest : List Token}
      (hp : p ⟨tokens, stop⟩ = .error d)
      (htokens : tokens = front ++ rest) (hat : FailsAt stop rest d)
      (hmem : Completable fun back => L.Mem (front ++ back))
      (hq : rest ≠ [] → ∀ more stop', q ⟨tokens ++ more, stop'⟩ = .error d)

def TracksWithin (stop : Stop) (bound : Nat) (L : TokenLanguage) (p q : Parser α) : Prop :=
  ∀ ⦃tokens : List Token⦄, tokens.length ≤ bound → Tracks stop L p q tokens

theorem bind_of_error {p : Parser α} {f : α → Parser β} {s : TokenStream} {d : Diagnostic}
    (h : p s = .error d) : (p >>= f) s = .error d := by
  change (p s >>= fun x => f x.1 x.2) = _
  rw [h]
  rfl

theorem ne_nil_of_eq_append {front rest : List Token} (h : tokens = front ++ rest)
    (hrest : rest ≠ []) : tokens ≠ [] := by
  rw [h]
  exact List.append_ne_nil_of_right_ne_nil _ hrest

theorem head_eq_error {d : Diagnostic} (h : TokenStream.head ⟨tokens, stop⟩ = .error d) :
    tokens = [] ∧ stop = .failed d := by
  cases tokens with
  | cons t rest => cases h
  | nil =>
    cases stop with
    | endOfFile eof => cases h
    | failed e =>
      cases h
      exact ⟨rfl, rfl⟩

theorem nextIs_bind {k : Kind} {f : Bool → Parser α} :
    (nextIs k >>= f) = peek >>= fun t => f (t.kind == k) := by
  simp only [nextIs, bind_assoc, pure_bind]

theorem pure_tracks {L : TokenLanguage} {a : α} (h : L.Mem []) :
    Tracks stop L (pure a) (pure a) tokens :=
  .reads [] rfl rfl h fun _ _ _ => rfl

namespace Tracks

variable {L M : TokenLanguage} {p q : Parser α}

theorem mono (h : Tracks stop L p q tokens) (hLM : ∀ tokens, L.Mem tokens → M.Mem tokens) :
    Tracks stop M p q tokens := by
  cases h with
  | reads front hp htokens hmem hq => exact .reads front hp htokens (hLM _ hmem) hq
  | fails front hp htokens hat hmem hq =>
    exact .fails front hp htokens hat (hmem.mono fun back => hLM _) hq

theorem phrases {n : Nonterminal} (h : Tracks stop L p q tokens)
    (hL : ∀ tokens, L.Mem tokens → Derives n tokens) :
    Tracks stop (phrases n) p q tokens :=
  h.mono fun _ hmem => ⟨L.inRange hmem, hL _ hmem⟩

/-- With no tokens there is nothing to follow. -/
theorem of_nil {q' : Parser α} (h : Tracks stop L p q []) : Tracks stop L p q' [] := by
  cases h with
  | reads front hp htokens hmem hq =>
    exact .reads front hp htokens hmem fun hrest => absurd rfl (ne_nil_of_eq_append htokens hrest)
  | fails front hp htokens hat hmem hq =>
    exact .fails front hp htokens hat hmem fun hrest =>
      absurd rfl (ne_nil_of_eq_append htokens hrest)

theorem bind_of_reads {f g : α → Parser β} (h : Tracks stop L p q tokens)
    (hf : ∀ a front rest, p ⟨tokens, stop⟩ = .ok (a, ⟨rest, stop⟩) → tokens = front ++ rest →
      L.Mem front → Tracks stop M (f a) (g a) rest) :
    Tracks stop (L.append M) (p >>= f) (q >>= g) tokens := by
  cases h with
  | @fails d front rest hp htokens hat hmem hq =>
    refine .fails front (bind_of_error hp) htokens hat ?_ fun hrest more stop' => ?_
    · refine (hmem.append M.completable).mono ?_
      rintro _ ⟨back, back', rfl, hback, hback'⟩
      exact ⟨front ++ back, back', (List.append_assoc ..).symm, hback, hback'⟩
    · exact bind_of_error (hq hrest more stop')
  | @reads a front rest hp htokens hmem hq =>
    -- tokens left over by the second parser were left over by the first
    cases hf a front rest hp htokens hmem with
    | @reads b front' rest' hp' htokens' hmem' hq' =>
      refine .reads (front ++ front') ((bind_of_ok hp).trans hp') ?_
        ⟨front, front', rfl, hmem, hmem'⟩ fun hrest' more stop' => ?_
      · rw [htokens, htokens', List.append_assoc]
      · rw [bind_of_ok (hq (ne_nil_of_eq_append htokens' hrest') more stop'), hq' hrest' more stop']
    | @fails d front' rest' hp' htokens' hat hmem' hq' =>
      refine .fails (front ++ front') ((bind_of_ok hp).trans hp') ?_ hat ?_
        fun hrest' more stop' => ?_
      · rw [htokens, htokens', List.append_assoc]
      · refine hmem'.mono fun back hback => ?_
        exact ⟨front, front' ++ back, List.append_assoc .., hmem, hback⟩
      · rw [bind_of_ok (hq (ne_nil_of_eq_append htokens' hrest') more stop'), hq' hrest' more stop']

theorem bind {f g : α → Parser β} (h : Tracks stop L p q tokens)
    (hf : ∀ a rest, rest.length ≤ tokens.length → Tracks stop M (f a) (g a) rest) :
    Tracks stop (L.append M) (p >>= f) (q >>= g) tokens := by
  refine h.bind_of_reads fun a front rest _ htokens _ => hf a rest ?_
  rw [htokens, List.length_append]
  exact Nat.le_add_left ..

/-- A phrase that is not empty leaves fewer tokens. -/
theorem bind_of_ne_nil {f g : α → Parser β} (h : Tracks stop L p q tokens) (hL : ¬ L.Mem [])
    (hf : ∀ a rest, rest.length < tokens.length → Tracks stop M (f a) (g a) rest) :
    Tracks stop (L.append M) (p >>= f) (q >>= g) tokens := by
  refine h.bind_of_reads fun a front rest _ htokens hmem => hf a rest ?_
  have hfront : 0 < front.length := List.length_pos_iff.mpr fun hnil => hL (hnil ▸ hmem)
  rw [htokens, List.length_append]
  omega

theorem map {f : α → β} (h : Tracks stop L p q tokens) :
    Tracks stop L (p >>= fun a => pure (f a)) (q >>= fun a => pure (f a)) tokens := by
  refine (h.bind (M := .nil) fun _ _ _ => pure_tracks rfl).mono ?_
  rintro _ ⟨front, _, rfl, hfront, rfl⟩
  rwa [List.append_nil]

end Tracks

section

variable {L : TokenLanguage}

theorem fail_tracks {t : Token} {cause : Cause} (ht : TokenStream.head ⟨tokens, stop⟩ = .ok t)
    (hcause : cause.code = .parsing) :
    Tracks stop L (fail t cause : Parser α) (fail t cause) tokens :=
  .fails [] rfl rfl (.inr ⟨t, cause, ht, hcause, rfl⟩) L.completable fun _ _ _ => rfl

theorem advance_tracks {t : Token} {rest : List Token} (h : L.Mem [t]) :
    Tracks stop L advance advance (t :: rest) :=
  .reads [t] rfl rfl h fun _ _ _ => rfl

theorem advance_bind {M : TokenLanguage} {t : Token} {rest : List Token} {f g : Unit → Parser α}
    (ht : L.Mem [t]) (h : Tracks stop M (f ()) (g ()) rest) :
    Tracks stop (L.append M) (advance >>= f) (advance >>= g) (t :: rest) := by
  refine (advance_tracks ht).bind_of_reads fun _ front rest' hrest' _ _ => ?_
  cases hrest'
  exact h

theorem peek_tracks {f g : Token → Parser α}
    (h : ∀ t, TokenStream.head ⟨tokens, stop⟩ = .ok t → Tracks stop L (f t) (g t) tokens) :
    Tracks stop L (peek >>= f) (peek >>= g) tokens := by
  cases hhead : TokenStream.head ⟨tokens, stop⟩ with
  | error d =>
    have hnil := (head_eq_error hhead).1
    have hpeek : peek ⟨tokens, stop⟩ = .error d := by
      rw [peek, hhead]
      rfl
    exact .fails [] (bind_of_error hpeek) rfl (.inl hhead) L.completable
      fun hne => absurd hnil hne
  | ok t =>
    have hpeek : peek ⟨tokens, stop⟩ = .ok (t, ⟨tokens, stop⟩) := peek_eq_ok.mpr ⟨hhead, rfl⟩
    have hbind : (peek >>= f) ⟨tokens, stop⟩ = f t ⟨tokens, stop⟩ := bind_of_ok hpeek
    -- a token of the text stays ahead when more tokens follow
    have hmore (hne : tokens ≠ []) (more : List Token) (stop' : Stop) :
        (peek >>= g) ⟨tokens ++ more, stop'⟩ = g t ⟨tokens ++ more, stop'⟩ := by
      cases tokens with
      | nil => exact absurd rfl hne
      | cons t' rest =>
        cases hhead
        exact bind_of_ok (peek_cons t (rest ++ more) stop')
    cases h t hhead with
    | reads front hp htokens hmem hq =>
      exact .reads front (hbind.trans hp) htokens hmem fun hrest more stop' =>
        (hmore (ne_nil_of_eq_append htokens hrest) more stop').trans (hq hrest more stop')
    | fails front hp htokens hat hmem hq =>
      exact .fails front (hbind.trans hp) htokens hat hmem fun hrest more stop' =>
        (hmore (ne_nil_of_eq_append htokens hrest) more stop').trans (hq hrest more stop')

theorem nextIs_tracks {k : Kind} {f g : Bool → Parser α}
    (h : ∀ t, TokenStream.head ⟨tokens, stop⟩ = .ok t →
      Tracks stop L (f (t.kind == k)) (g (t.kind == k)) tokens) :
    Tracks stop L (nextIs k >>= f) (nextIs k >>= g) tokens := by
  rw [nextIs_bind, nextIs_bind]
  exact peek_tracks h

end

section

variable (hs : stop.Proper)
include hs

theorem eat_tracks {k : Kind} (hk : fillers.contains k = true) :
    Tracks stop (.one k hk) (eat k) (eat k) tokens := by
  refine peek_tracks fun t ht => ?_
  split
  · next hkind =>
    have hne := ne_endOfFile_of_filler hk
    obtain ⟨rest, rfl⟩ := head_eq_ok_cons hs (hkind ▸ hne) ht
    exact (advance_tracks (L := .one k hk) ⟨t, hkind, rfl⟩).map
  · exact fail_tracks ht rfl

theorem eat_bind {k : Kind} (hk : fillers.contains k = true) {M : TokenLanguage}
    {f g : Token → Parser α}
    (hf : ∀ t rest, rest.length < tokens.length → Tracks stop M (f t) (g t) rest) :
    Tracks stop (TokenLanguage.append (.one k hk) M) (eat k >>= f) (eat k >>= g) tokens := by
  refine (eat_tracks hs hk).bind_of_ne_nil ?_ hf
  rintro ⟨t, _, ht⟩
  cases ht

theorem sepBy_tracks {i : Item} {item item' : Parser i.Tree} {bound : Nat}
    (hi : TracksWithin stop bound (phrases (.item i)) item item') {n n' : Nat} (hn : n ≤ n')
    (hb : tokens.length ≤ bound) (htokens : tokens.length ≤ n) :
    Tracks stop (phrases (.sequence i)) (sepBy i.separator item n)
      (sepBy i.separator item' n') tokens := by
  have hsep : fillers.contains i.separator = true := by cases i <;> rfl
  induction n generalizing n' tokens with
  | zero =>
    cases List.length_eq_zero_iff.mp (Nat.le_zero.mp htokens)
    refine Tracks.of_nil (q := sepBy i.separator item' 0) ((hi hb).map.phrases ?_)
    rintro _ ⟨_, d, rfl⟩
    exact ⟨.one d, rfl⟩
  | succ n ih =>
    obtain ⟨m, rfl⟩ : ∃ m, n' = m + 1 := ⟨n' - 1, by omega⟩
    apply Tracks.phrases
    · apply (hi hb).bind
        (M := .either .nil (.append (.one i.separator hsep) (phrases (.sequence i))))
      intro first rest hrest
      refine nextIs_tracks fun t ht => ?_
      split
      · refine (eat_bind hs hsep fun _ rest' hrest' => ?_).mono fun _ => .inr
        exact (ih (by omega) (by omega) (by omega)).map
      · exact pure_tracks (.inl rfl)
    · rintro _ ⟨_, _, rfl, ⟨_, d, rfl⟩, rfl | ⟨_, _, rfl, ⟨mark, hmark, rfl⟩, _, d', rfl⟩⟩
      · exact ⟨.one d, (List.append_nil _).symm⟩
      · exact ⟨.more d ⟨mark, hmark⟩ d', rfl⟩

theorem chain_tracks {o : Operand} {operand operand' : Parser Expr} {bound : Nat}
    (ho : TracksWithin stop bound (phrases (.operand o)) operand operand') {n n' : Nat}
    (hn : n ≤ n') (hb : tokens.length ≤ bound) (htokens : tokens.length ≤ n) (left : Expr) :
    Tracks stop (phrases (.chain o)) (chain o.joins operand n left)
      (chain o.joins operand' n' left) tokens := by
  have hempty : (phrases (.chain o)).Mem [] := ⟨inRange_nil, .noLink, rfl⟩
  induction n generalizing n' tokens left with
  | zero =>
    cases List.length_eq_zero_iff.mp (Nat.le_zero.mp htokens)
    exact Tracks.of_nil (pure_tracks hempty)
  | succ n ih =>
    obtain ⟨m, rfl⟩ : ∃ m, n' = m + 1 := ⟨n' - 1, by omega⟩
    refine peek_tracks fun op hop => ?_
    split
    · next hj =>
      obtain ⟨rest, rfl⟩ := head_eq_ok_cons hs (Operand.of_joins hj).1 hop
      rw [List.length_cons] at hb htokens
      apply Tracks.phrases
      · apply advance_bind (L := .operators o) ⟨op, hj, rfl⟩
        apply (ho (by omega)).bind
        intro right rest' hrest'
        exact ih (by omega) (by omega) (by omega) _
      · rintro _ ⟨_, _, rfl, ⟨op, hj, rfl⟩, _, _, rfl, ⟨_, d, rfl⟩, _, d', rfl⟩
        exact ⟨.link ⟨op, hj⟩ d d', rfl⟩
    · exact pure_tracks hempty

theorem term_tracks {factor factor' : Parser Expr} {bound : Nat}
    (hf : TracksWithin stop bound (phrases (.operand .factor)) factor factor') {n n' : Nat}
    (hb : bound ≤ n) (hn : n ≤ n') :
    TracksWithin stop bound (phrases (.operand .term)) (term factor n) (term factor' n') := by
  intro tokens htokens
  apply Tracks.phrases
  · apply (hf htokens).bind
    intro first rest hrest
    exact chain_tracks hs (o := .factor) hf hn (by omega) (by omega) first
  rintro _ ⟨_, _, rfl, ⟨_, d, rfl⟩, _, d', rfl⟩
  exact ⟨.term d d', rfl⟩

theorem sum_tracks {factor factor' : Parser Expr} {bound : Nat}
    (hf : TracksWithin stop bound (phrases (.operand .factor)) factor factor') {n n' : Nat}
    (hb : bound ≤ n) (hn : n ≤ n') :
    TracksWithin stop bound (phrases (.item .expr)) (sum factor n) (sum factor' n') := by
  have ht := term_tracks hs hf hb hn
  intro tokens htokens
  apply Tracks.phrases
  · apply (ht htokens).bind
    intro first rest hrest
    exact chain_tracks hs (o := .term) ht hn (by omega) (by omega) first
  rintro _ ⟨_, _, rfl, ⟨_, d, rfl⟩, _, d', rfl⟩
  exact ⟨.expr d d', rfl⟩

omit hs in
theorem number_tracks {t : Token} {rest : List Token} (ht : t.kind.isLiteral = true) :
    Tracks stop (phrases (.operand .factor)) (number t) (number t) (t :: rest) := by
  unfold number
  split
  · next v hv =>
    have hr : (constant t).isSome = true := by
      rw [constant, hv]
      rfl
    have hmem : (phrases (.operand .factor)).Mem [t] :=
      ⟨inRange_cons.mpr ⟨fun _ => hr, inRange_nil⟩, .number ⟨t, ht⟩, rfl⟩
    exact (advance_tracks hmem).map
  · exact fail_tracks rfl rfl

theorem factor_tracks {n n' : Nat} (hn : n ≤ n') :
    TracksWithin stop n (phrases (.operand .factor)) (factor n) (factor n') := by
  induction n generalizing n' with
  | zero =>
    intro tokens htokens
    cases List.length_eq_zero_iff.mp (Nat.le_zero.mp htokens)
    exact Tracks.of_nil (peek_tracks fun t ht => fail_tracks ht rfl)
  | succ n ih =>
    obtain ⟨m, rfl⟩ : ∃ m, n' = m + 1 := ⟨n' - 1, by omega⟩
    have hnm : n ≤ m := by omega
    intro tokens htokens
    refine peek_tracks fun t ht => ?_
    have hcons : t.kind ≠ .endOfFile → ∃ rest, tokens = t :: rest :=
      fun hk => head_eq_ok_cons hs hk ht
    cases hk : t.kind
    case plus | minus =>
      obtain ⟨rest, rfl⟩ := hcons (by simp [hk])
      rw [List.length_cons] at htokens
      refine (advance_bind (L := .operators .term) ⟨t, by rw [hk]; rfl, rfl⟩
        (ih hnm (by omega)).map).phrases ?_
      rintro _ ⟨_, _, rfl, ⟨op, hop, rfl⟩, _, d, rfl⟩
      exact ⟨.signed ⟨op, hop⟩ d, rfl⟩
    case integerConst | realConst =>
      obtain ⟨rest, rfl⟩ := hcons (by simp [hk])
      exact number_tracks (by rw [hk]; rfl)
    case openParen =>
      obtain ⟨rest, rfl⟩ := hcons (by simp [hk])
      rw [List.length_cons] at htokens
      apply Tracks.phrases
      · apply advance_bind (L := .one .openParen rfl) ⟨t, hk, rfl⟩
        apply (sum_tracks hs (ih hnm) (Nat.le_refl n) hnm (by omega)).bind
        intro e rest' hrest'
        exact (eat_tracks hs (k := .closeParen) rfl).map
      rintro _ ⟨_, _, rfl, ⟨left, hleft, rfl⟩, _, _, rfl, ⟨_, d, rfl⟩, right, hright, rfl⟩
      exact ⟨.parenthesized ⟨left, hleft⟩ d ⟨right, hright⟩, rfl⟩
    case identifier =>
      obtain ⟨rest, rfl⟩ := hcons (by simp [hk])
      have hmem : (phrases (.operand .factor)).Mem [t] :=
        ⟨inRange_nil.cons (by rw [hk]; rfl), .reference ⟨t, hk⟩, rfl⟩
      exact (advance_tracks hmem).map
    all_goals exact fail_tracks ht rfl

theorem expression_tracks {n n' : Nat} (hn : n ≤ n') :
    TracksWithin stop n (phrases (.item .expr)) (expression n) (expression n') :=
  sum_tracks hs (factor_tracks hs hn) (Nat.le_refl n) hn

theorem call_tracks {n n' : Nat} (hn : n ≤ n') (htokens : tokens.length ≤ n + 1) (name : Token) :
    Tracks stop callTail (call n name) (call n' name) tokens := by
  have hclose {f : Token → Stmt} {rest : List Token} :
      Tracks stop (.one .closeParen rfl) (eat .closeParen >>= fun t => pure (f t))
        (eat .closeParen >>= fun t => pure (f t)) rest :=
    (eat_tracks hs rfl).map
  apply eat_bind hs rfl
  intro _ rest hrest
  refine nextIs_tracks fun t ht => ?_
  split
  · have hnone : (phrases .actuals).Mem [] := ⟨inRange_nil, .noActuals, rfl⟩
    exact (pure_tracks hnone).bind fun args _ _ => hclose
  · have hargs : Tracks stop (phrases (.sequence .expr)) (sepBy .comma (expression n) n)
        (sepBy .comma (expression n') n') rest :=
      sepBy_tracks hs (i := .expr) (expression_tracks hs hn) hn (by omega) (by omega)
    refine Tracks.bind (hargs.phrases ?_) fun args _ _ => hclose
    rintro _ ⟨_, d, rfl⟩
    exact ⟨.actuals d, rfl⟩

theorem assignment_tracks {n n' : Nat} (hn : n ≤ n') (htokens : tokens.length ≤ n + 1)
    (target : Token) :
    Tracks stop assignmentTail (assignment n target) (assignment n' target) tokens := by
  apply eat_bind hs rfl
  intro op rest hrest
  exact (expression_tracks hs hn (by omega)).map

theorem compound_tracks {statement statement' : Parser Stmt} {bound : Nat}
    (hst : TracksWithin stop bound (phrases (.item .statement)) statement statement')
    {n n' : Nat} (hb : bound ≤ n) (hn : n ≤ n') :
    TracksWithin stop (bound + 1) (phrases .compound) (compound statement n)
      (compound statement' n') := by
  intro tokens htokens
  apply Tracks.phrases
  · apply eat_bind hs (k := .beginWord) rfl
    intro start rest hrest
    apply (sepBy_tracks hs (i := .statement) hst hn (by omega) (by omega)).bind
    intro children rest' _
    exact (eat_tracks hs (k := .endWord) rfl).map
  rintro _ ⟨_, _, rfl, ⟨start, hstart, rfl⟩, _, _, rfl, ⟨_, d, rfl⟩, last, hlast, rfl⟩
  exact ⟨.compound ⟨start, hstart⟩ d ⟨last, hlast⟩, rfl⟩

theorem statement_tracks {n n' : Nat} (hn : n ≤ n') :
    TracksWithin stop n (phrases (.item .statement)) (statement n) (statement n') := by
  have hempty : (phrases (.item .statement)).Mem [] := ⟨inRange_nil, .nothing, rfl⟩
  induction n generalizing n' with
  | zero =>
    intro tokens htokens
    cases List.length_eq_zero_iff.mp (Nat.le_zero.mp htokens)
    exact Tracks.of_nil (peek_tracks fun t ht => pure_tracks hempty)
  | succ n ih =>
    obtain ⟨m, rfl⟩ : ∃ m, n' = m + 1 := ⟨n' - 1, by omega⟩
    have hnm : n ≤ m := by omega
    intro tokens htokens
    refine peek_tracks fun t ht => ?_
    cases hk : t.kind
    case beginWord =>
      refine (compound_tracks hs (ih hnm) (Nat.le_refl n) hnm htokens).map.phrases ?_
      rintro _ ⟨_, d, rfl⟩
      exact ⟨.nested d, rfl⟩
    case identifier =>
      apply Tracks.phrases
      · apply eat_bind hs (k := .identifier) rfl (M := .either callTail assignmentTail)
        intro name rest hrest
        refine nextIs_tracks fun t ht => ?_
        split
        · exact (call_tracks hs hnm (by omega) name).mono fun _ => .inl
        · exact (assignment_tracks hs hnm (by omega) name).mono fun _ => .inr
      · rintro _ ⟨_, _, rfl, ⟨name, hname, rfl⟩,
          ⟨_, _, rfl, ⟨left, hleft, rfl⟩, _, _, rfl, ⟨_, d, rfl⟩, right, hright, rfl⟩ |
          ⟨_, _, rfl, ⟨op, hop, rfl⟩, _, d, rfl⟩⟩
        · exact ⟨.calling (.procCall ⟨name, hname⟩ ⟨left, hleft⟩ d ⟨right, hright⟩), rfl⟩
        · exact ⟨.assigning (.assignment ⟨name, hname⟩ ⟨op, hop⟩ d), rfl⟩
    all_goals exact pure_tracks hempty

theorem type_tracks : Tracks stop .types type type tokens := by
  refine peek_tracks fun t ht => ?_
  split
  · next hk =>
    have hne : t.kind ≠ .endOfFile := by
      intro heof
      rw [heof] at hk
      cases hk
    obtain ⟨rest, rfl⟩ := head_eq_ok_cons hs hne ht
    exact (advance_tracks (L := .types) ⟨t, hk, rfl⟩).map
  · exact fail_tracks ht rfl

theorem name_tracks :
    Tracks stop (phrases (.item .name)) (eat .identifier) (eat .identifier) tokens := by
  refine (eat_tracks hs rfl).phrases ?_
  rintro _ ⟨t, ht, rfl⟩
  exact ⟨.name ⟨t, ht⟩, rfl⟩

theorem group_tracks {n n' : Nat} (hn : n ≤ n') :
    TracksWithin stop n (phrases (.item .group)) (group n) (group n') := by
  intro tokens htokens
  apply Tracks.phrases
  · apply (sepBy_tracks hs (i := .name) (fun _ _ => name_tracks hs) hn htokens htokens).bind
    intro names rest hrest
    apply eat_bind hs (k := .colon) rfl
    intro _ rest' hrest'
    exact (type_tracks hs).map
  rintro _ ⟨_, _, rfl, ⟨_, d, rfl⟩, _, _, rfl, ⟨colon, hcolon, rfl⟩, type, htype, rfl⟩
  exact ⟨.group d ⟨colon, hcolon⟩ ⟨type, htype⟩, rfl⟩

theorem variableGroup_tracks {n n' : Nat} (hn : n ≤ n') (htokens : tokens.length ≤ n) :
    Tracks stop variableLine (variableGroup n) (variableGroup n') tokens :=
  (group_tracks hs hn htokens).bind fun _ _ _ => (eat_tracks hs rfl).map

theorem variableSection_tracks {n n' m m' : Nat} (hn : n ≤ n') (hm : m ≤ m')
    (htokens : tokens.length ≤ n) (hlength : tokens.length ≤ m) :
    Tracks stop (phrases .varDecls) (variableSection n m) (variableSection n' m') tokens := by
  induction m generalizing m' tokens with
  | zero =>
    cases List.length_eq_zero_iff.mp (Nat.le_zero.mp hlength)
    refine Tracks.of_nil ((variableGroup_tracks hs (Nat.le_refl n) htokens).phrases ?_)
    rintro _ ⟨_, _, rfl, ⟨_, d, rfl⟩, mark, hmark, rfl⟩
    exact ⟨.lastVarDecl d ⟨mark, hmark⟩, rfl⟩
  | succ m ih =>
    obtain ⟨k, rfl⟩ : ∃ k, m' = k + 1 := ⟨m' - 1, by omega⟩
    have hne : ¬ variableLine.Mem [] := by
      rintro ⟨_, _, hnil, _, mark, _, rfl⟩
      exact absurd hnil.symm (List.append_ne_nil_of_right_ne_nil _ (List.cons_ne_nil _ _))
    apply Tracks.phrases
    · apply (variableGroup_tracks hs hn htokens).bind_of_ne_nil
        (M := .either .nil (phrases .varDecls)) hne
      intro decls rest hrest
      refine nextIs_tracks fun t ht => ?_
      split
      · exact (ih (by omega) (by omega) (by omega)).map.mono fun _ => .inr
      · exact pure_tracks (.inl rfl)
    · rintro _ ⟨_, _, rfl, ⟨_, _, rfl, ⟨_, d, rfl⟩, mark, hmark, rfl⟩, rfl | ⟨_, d', rfl⟩⟩
      · exact ⟨.lastVarDecl d ⟨mark, hmark⟩, (List.append_nil _).symm⟩
      · refine ⟨.moreVarDecls d ⟨mark, hmark⟩ d', ?_⟩
        rw [Derivation.yield, List.append_assoc]
        rfl

theorem params_tracks {n n' : Nat} (hn : n ≤ n') :
    TracksWithin stop n (phrases .formals) (params n) (params n') := by
  intro tokens htokens
  refine nextIs_tracks fun t ht => ?_
  split
  · apply Tracks.phrases
    · apply eat_bind hs (k := .openParen) rfl
      intro _ rest hrest
      apply (sepBy_tracks hs (i := .group) (group_tracks hs hn) hn (by omega) (by omega)).bind
      intro groups rest' hrest'
      exact (eat_tracks hs (k := .closeParen) rfl).map
    rintro _ ⟨_, _, rfl, ⟨left, hleft, rfl⟩, _, _, rfl, ⟨_, d, rfl⟩, right, hright, rfl⟩
    exact ⟨.formals ⟨left, hleft⟩ d ⟨right, hright⟩, rfl⟩
  · exact pure_tracks ⟨inRange_nil, .noFormals, rfl⟩

theorem procedure_tracks {block block' : Parser Block} {bound : Nat}
    (hblock : TracksWithin stop bound (phrases .block) block block') {n n' : Nat}
    (hb : bound ≤ n) (hn : n ≤ n') :
    TracksWithin stop (bound + 1) (phrases .procedureDecl) (procedure block n)
      (procedure block' n') := by
  intro tokens htokens
  apply Tracks.phrases
  · apply eat_bind hs (k := .procedureWord) rfl
    intro _ rest₁ h₁
    apply eat_bind hs (k := .identifier) rfl
    intro name rest₂ h₂
    apply (params_tracks hs hn (by omega)).bind
    intro params rest₃ h₃
    apply eat_bind hs (k := .semicolon) rfl
    intro _ rest₄ h₄
    apply (hblock (by omega)).bind
    intro body rest₅ h₅
    exact (eat_tracks hs (k := .semicolon) rfl).map
  rintro _ ⟨_, _, rfl, ⟨head, hhead, rfl⟩, _, _, rfl, ⟨name, hname, rfl⟩, _, _, rfl, ⟨_, d, rfl⟩,
    _, _, rfl, ⟨mark, hmark, rfl⟩, _, _, rfl, ⟨_, d', rfl⟩, last, hlast, rfl⟩
  exact ⟨.procedureDecl ⟨head, hhead⟩ ⟨name, hname⟩ d ⟨mark, hmark⟩ d' ⟨last, hlast⟩, rfl⟩

theorem declarations_tracks {block block' : Parser Block} {bound : Nat}
    (hblock : TracksWithin stop bound (phrases .block) block block') {n n' m m' : Nat}
    (hb : bound ≤ n) (hn : n ≤ n') (hm : m ≤ m') (htokens : tokens.length ≤ bound + 1)
    (hlength : tokens.length ≤ m) :
    Tracks stop (phrases .declarations) (declarations block n m) (declarations block' n' m')
      tokens := by
  have hempty : (phrases .declarations).Mem [] := ⟨inRange_nil, .noDeclarations, rfl⟩
  induction m generalizing m' tokens with
  | zero =>
    cases List.length_eq_zero_iff.mp (Nat.le_zero.mp hlength)
    exact Tracks.of_nil (peek_tracks fun t ht => pure_tracks hempty)
  | succ m ih =>
    obtain ⟨k, rfl⟩ : ∃ k, m' = k + 1 := ⟨m' - 1, by omega⟩
    refine peek_tracks fun t ht => ?_
    cases hk : t.kind
    case varWord =>
      apply Tracks.phrases
      · apply eat_bind hs (k := .varWord) rfl
        intro _ rest hrest
        apply (variableSection_tracks hs hn hn (by omega) (by omega)).bind
        intro decls rest' hrest'
        exact (ih (by omega) (by omega) (by omega)).map
      rintro _ ⟨_, _, rfl, ⟨head, hhead, rfl⟩, _, _, rfl, ⟨_, d, rfl⟩, _, d', rfl⟩
      exact ⟨.varSection ⟨head, hhead⟩ d d', rfl⟩
    case procedureWord =>
      have hne : ¬ (phrases .procedureDecl).Mem [] := by
        rintro ⟨_, d, hd⟩
        cases d
        cases hd
      apply Tracks.phrases
      · apply (procedure_tracks hs hblock hb hn htokens).bind_of_ne_nil hne
        intro decl rest hrest
        exact (ih (by omega) (by omega) (by omega)).map
      rintro _ ⟨_, _, rfl, ⟨_, d, rfl⟩, _, d', rfl⟩
      exact ⟨.procedure d d', rfl⟩
    all_goals exact pure_tracks hempty

theorem block_tracks {n n' : Nat} (hn : n ≤ n') :
    TracksWithin stop n (phrases .block) (block n) (block n') := by
  induction n generalizing n' with
  | zero =>
    intro tokens htokens
    cases List.length_eq_zero_iff.mp (Nat.le_zero.mp htokens)
    apply Tracks.of_nil (q := block 0)
    apply Tracks.phrases
    · -- the word that starts the body is missing already
      apply eat_bind hs (k := .beginWord) rfl (M := .one .endWord rfl)
      intro start rest hrest
      cases hrest
    rintro _ ⟨_, _, rfl, ⟨start, hstart, rfl⟩, last, hlast, rfl⟩
    exact ⟨.block .noDeclarations (.compound ⟨start, hstart⟩ (.one .nothing) ⟨last, hlast⟩), rfl⟩
  | succ n ih =>
    obtain ⟨m, rfl⟩ : ∃ m, n' = m + 1 := ⟨n' - 1, by omega⟩
    have hnm : n ≤ m := by omega
    intro tokens htokens
    apply Tracks.phrases
    · apply (declarations_tracks hs (ih hnm) (Nat.le_refl n) hnm hn htokens htokens).bind
      intro decls rest hrest
      exact (compound_tracks hs (statement_tracks hs hn) (Nat.le_refl _) hn (by omega)).map
    rintro _ ⟨_, _, rfl, ⟨_, d, rfl⟩, _, d', rfl⟩
    exact ⟨.block d d', rfl⟩

theorem program_tracks {n n' : Nat} (hn : n ≤ n') :
    TracksWithin stop n (phrases .program) (program n) (program n') := by
  intro tokens htokens
  apply Tracks.phrases
  · apply eat_bind hs (k := .programWord) rfl
    intro _ rest₁ h₁
    apply eat_bind hs (k := .identifier) rfl
    intro name rest₂ h₂
    apply eat_bind hs (k := .semicolon) rfl
    intro _ rest₃ h₃
    apply (block_tracks hs hn (by omega)).bind
    intro body rest₄ h₄
    apply eat_bind hs (k := .dot) rfl (M := .nil)
    intro _ rest₅ h₅
    refine peek_tracks fun t ht => ?_
    split
    · exact pure_tracks rfl
    · exact fail_tracks ht rfl
  rintro _ ⟨_, _, rfl, ⟨head, hhead, rfl⟩, _, _, rfl, ⟨name, hname, rfl⟩, _, _, rfl,
    ⟨mark, hmark, rfl⟩, _, _, rfl, ⟨_, d, rfl⟩, _, _, rfl, ⟨dot, hdot, rfl⟩, rfl⟩
  exact ⟨.program ⟨head, hhead⟩ ⟨name, hname⟩ ⟨mark, hmark⟩ d ⟨dot, hdot⟩, rfl⟩

end

end MiniPascal.Parser
