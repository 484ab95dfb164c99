import MiniPascal.Proofs.Token.Reading
import MiniPascal.Proofs.Token.Stream

/-!
# Texts with another ending

A text can be cut behind any of its tokens, or behind the gap that follows it, and go on with a line
feed and other text. The tokens before the cut stay the same, with their positions, and reading goes
on as if it had started there.
-/
namespace MiniPascal.Cursor

variable {b g : UInt8} {front back more : Bytes}

/-- The byte cannot continue a token before it, whatever the token is. -/
def Delimits (g : UInt8) : Prop := isWordByte g = false ∧ g ≠ 0x2E ∧ g ≠ 0x3D

instance : DecidablePred Delimits := fun g =>
  inferInstanceAs (Decidable (isWordByte g = false ∧ g ≠ 0x2E ∧ g ≠ 0x3D))

theorem delimits_of_gap (hg : isGapByte g = true) : Delimits g := by
  simp only [isGapByte, Bool.or_eq_true, beq_iff_eq] at hg
  rcases hg with ((rfl | rfl) | rfl) | rfl <;> decide

theorem Delimits.isDigitByte (hg : Delimits g) : isDigitByte g = false :=
  (Bool.or_eq_false_iff.mp hg.1).2

theorem takeWhile_splice {p : UInt8 → Bool} (more : Bytes) (hg : p g = false)
    (h : ((front ++ back).takeWhile p).length ≤ front.length) :
    (front ++ g :: more).takeWhile p = (front ++ back).takeWhile p := by
  induction front with
  | nil =>
    have hback : back.takeWhile p = [] := List.length_eq_zero_iff.mp (Nat.le_zero.mp h)
    rw [List.nil_append, List.nil_append, hback, List.takeWhile_cons_of_neg (by simp [hg])]
  | cons x front ih =>
    by_cases hx : p x = true
    · simp only [List.cons_append, List.takeWhile_cons_of_pos hx, List.length_cons] at h ⊢
      rw [ih (Nat.le_of_succ_le_succ h)]
    · simp only [List.cons_append, List.takeWhile_cons_of_neg hx]

theorem fractionLength_splice (more : Bytes) (hg : Delimits g)
    (h : fractionLength (front ++ back) ≤ front.length) :
    fractionLength (front ++ g :: more) = fractionLength (front ++ back) := by
  have hdigit := hg.isDigitByte
  match front with
  | [] =>
    have hgap : fractionLength (g :: more) = 0 := by
      cases more with
      | nil => rfl
      | cons d more => exact if_neg fun h => hg.2.1 h.1
    rw [List.nil_append, List.nil_append, hgap]
    exact (Nat.le_zero.mp h).symm
  | [x] =>
    have hgap : fractionLength (x :: g :: more) = 0 := by
      refine if_neg fun h => ?_
      rw [hdigit] at h
      exact Bool.false_ne_true h.2
    have hback : fractionLength (x :: back) = 0 := by
      cases back with
      | nil => rfl
      | cons d back =>
        -- a fraction has a digit behind its dot, so it is longer than one byte
        refine if_neg fun hd => ?_
        simp only [List.cons_append, List.nil_append, fractionLength, if_pos hd,
          List.takeWhile_cons_of_pos hd.2, List.length_cons, List.length_nil] at h
        omega
    rw [List.cons_append, List.nil_append, List.cons_append, List.nil_append, hgap, hback]
  | x :: y :: front =>
    simp only [List.cons_append, fractionLength] at h ⊢
    by_cases hx : x = 0x2E ∧ isDigitByte y = true
    · simp only [if_pos hx, List.length_cons] at h ⊢
      have hlength : ((y :: front ++ back).takeWhile isDigitByte).length ≤ (y :: front).length := by
        simp only [List.cons_append, List.length_cons]
        omega
      have htake := takeWhile_splice more hdigit hlength
      rw [List.cons_append, List.cons_append] at htake
      rw [htake]
    · rw [if_neg hx, if_neg hx]

theorem numberAt_splice (more : Bytes) (hg : Delimits g)
    (h : (numberAt (front ++ back)).2 ≤ front.length) :
    numberAt (front ++ g :: more) = numberAt (front ++ back) := by
  rw [numberAt_eq] at h
  dsimp only at h
  have hwhole : ((front ++ back).takeWhile isDigitByte).length ≤ front.length := by omega
  have htake := takeWhile_splice more hg.isDigitByte hwhole
  rw [List.drop_append_of_le_length hwhole] at h
  have hlength :
      fractionLength (front.drop ((front ++ back).takeWhile isDigitByte).length ++ back) ≤
        (front.drop ((front ++ back).takeWhile isDigitByte).length).length := by
    rw [List.length_drop]
    omega
  have hfraction := fractionLength_splice more hg hlength
  rw [numberAt_eq, numberAt_eq, htake]
  dsimp only
  rw [List.drop_append_of_le_length hwhole, List.drop_append_of_le_length hwhole, hfraction]

/-- A token does not change when the text is cut and goes on with a delimiter behind it. -/
theorem tokenAt?_splice (more : Bytes) (hg : Delimits g) {kind : Kind}
    {lexeme : Option String} {n : Nat} (h : tokenAt? b (front ++ back) = some (kind, lexeme, n))
    (hn : n ≤ front.length + 1) :
    tokenAt? b (front ++ g :: more) = some (kind, lexeme, n) := by
  have htake (tail : Bytes) : (b :: front ++ tail).take n = (b :: front).take n :=
    List.take_append_of_le_length hn
  rw [tokenAt?_eq_some] at h ⊢
  cases h with
  | mark hmark => exact .mark hmark
  | assign hb hrest =>
    cases front with
    | nil => simp at hn
    | cons x front => exact .assign hb hrest
  | colon hb hrest =>
    cases front with
    | nil => exact .colon hb fun h => hg.2.2 (Option.some.inj h)
    | cons x front => exact .colon hb hrest
  | word hmark hcolon hb hword =>
    subst hword
    have hlength : ((front ++ back).takeWhile isWordByte).length ≤ front.length :=
      Nat.le_of_succ_le_succ hn
    exact .word hmark hcolon hb (by rw [takeWhile_splice more hg.1 hlength])
  | number hmark hcolon hword hb hnumber =>
    have hle : (numberAt (b :: front ++ back)).2 ≤ (b :: front).length := by
      rw [List.cons_append, hnumber]
      exact hn
    have hsplice := numberAt_splice more hg hle
    rw [List.cons_append, List.cons_append, hnumber] at hsplice
    rw [← List.cons_append, htake, ← htake (g :: more)]
    exact .number hmark hcolon hword hb hsplice

/-- A character that is cut off at the end of a text is not completed by a gap. -/
theorem firstPiece_extend (hg : isGapByte g = true) (rest more : Bytes) :
    (Text.firstPiece b (rest ++ g :: more)).1 = (Text.firstPiece b rest).1 := by
  have hcontinuation : Text.isContinuation g = false := by
    simp only [isGapByte, Bool.or_eq_true, beq_iff_eq] at hg
    rcases hg with ((rfl | rfl) | rfl) | rfl <;> rfl
  unfold Text.firstPiece
  split
  · rfl
  · next count bits least hlead =>
    by_cases hcount : count ≤ rest.length
    · dsimp only
      rw [List.take_append_of_le_length hcount]
      split <;> rfl
    · have hmem : g ∈ (rest ++ g :: more).take count := by
        rw [List.take_append]
        refine List.mem_append_right _ ?_
        obtain ⟨k, hk⟩ : ∃ k, count - rest.length = k + 1 := ⟨count - rest.length - 1, by omega⟩
        rw [hk, List.take_succ_cons]
        exact List.mem_cons_self
      have hall : ¬ ((rest ++ g :: more).take count).all Text.isContinuation = true := by
        intro hall
        rw [List.all_eq_true.mp hall g hmem] at hcontinuation
        cases hcontinuation
      have hshort : ¬ (rest.take count).length = count := by
        rw [List.length_take]
        omega
      dsimp only
      rw [if_neg fun h => hall h.2.1, if_neg fun h => hshort h.1]

variable {c c' : Cursor} {t : Token}

theorem stream_of_token (h : c.next = (.ok t, c')) (hkind : t.kind ≠ .endOfFile) :
    c.stream = ⟨t :: c'.stream.tokens, c'.stream.stop⟩ := by
  rw [stream]
  split
  · next heq => cases h.symm.trans heq
  · next heq =>
    cases h.symm.trans heq
    rw [dif_neg hkind]

theorem stream_of_endOfFile (h : c.next = (.ok t, c')) (hkind : t.kind = .endOfFile) :
    c.stream = ⟨[], .endOfFile t⟩ := by
  rw [stream]
  split
  · next heq => cases h.symm.trans heq
  · next heq =>
    cases h.symm.trans heq
    rw [dif_pos hkind]

theorem stream_of_error {d : Diagnostic} (h : c.next = (.error d, c')) :
    c.stream = ⟨[], .failed d⟩ := by
  rw [stream]
  split
  · next heq =>
    cases h.symm.trans heq
    rfl
  · next heq => cases h.symm.trans heq

theorem next_of_head (h : c.stream.head = .ok t) : ∃ c', c.next = (.ok t, c') := by
  rcases hnext : c.next with ⟨d | u, c₁⟩
  · rw [stream_of_error hnext] at h
    cases h
  · by_cases hkind : u.kind = .endOfFile
    · rw [stream_of_endOfFile hnext hkind] at h
      cases h
      exact ⟨c₁, rfl⟩
    · rw [stream_of_token hnext hkind] at h
      cases h
      exact ⟨c₁, rfl⟩

theorem next_of_failed {d : Diagnostic} (h : c.stream = ⟨[], .failed d⟩) :
    ∃ c', c.next = (.error d, c') := by
  rcases hnext : c.next with ⟨e | u, c₁⟩
  · rw [stream_of_error hnext] at h
    cases h
    exact ⟨c₁, rfl⟩
  · by_cases hkind : u.kind = .endOfFile
    · rw [stream_of_endOfFile hnext hkind] at h
      cases h
    · rw [stream_of_token hnext hkind] at h
      cases h

theorem stream_congr (h : c.next = c'.next) : c.stream = c'.stream := by
  rcases hnext : c.next with ⟨d | t, c₁⟩
  · rw [stream_of_error hnext, stream_of_error (h.symm.trans hnext)]
  · by_cases hkind : t.kind = .endOfFile
    · rw [stream_of_endOfFile hnext hkind, stream_of_endOfFile (h.symm.trans hnext) hkind]
    · rw [stream_of_token hnext hkind, stream_of_token (h.symm.trans hnext) hkind]

theorem next_gap {gap rest : Bytes} (hgap : Gap gap) (pos : Position) (index : Nat) :
    next ⟨gap ++ rest, pos, index⟩ = next ⟨rest, pos.advanceBy gap, index⟩ := by
  simp only [next, skipFrom_gap hgap]

theorem stream_gap {gap rest : Bytes} (hgap : Gap gap) (pos : Position) (index : Nat) :
    stream ⟨gap ++ rest, pos, index⟩ = stream ⟨rest, pos.advanceBy gap, index⟩ :=
  stream_congr (next_gap hgap pos index)

/-- Reading the given tokens, none of them the end of the file, leads from one cursor to another. -/
inductive ReadsTo : Cursor → List Token → Cursor → Prop
  | done {c : Cursor} : ReadsTo c [] c
  | token {c c₁ c₂ : Cursor} {t : Token} {tokens : List Token} (hnext : c.next = (.ok t, c₁))
      (hkind : t.kind ≠ .endOfFile) (hrest : ReadsTo c₁ tokens c₂) : ReadsTo c (t :: tokens) c₂

theorem ReadsTo.stream_eq {tokens : List Token} (h : ReadsTo c tokens c') :
    c.stream = ⟨tokens ++ c'.stream.tokens, c'.stream.stop⟩ := by
  induction h with
  | done => rfl
  | token hnext hkind hrest ih => rw [stream_of_token hnext hkind, ih, List.cons_append]

theorem exists_readsTo {tokens rest : List Token} (h : c.stream.tokens = tokens ++ rest) :
    ∃ c', ReadsTo c tokens c' ∧ c'.stream = ⟨rest, c.stream.stop⟩ := by
  induction tokens generalizing c with
  | nil => exact ⟨c, .done, by rw [← show c.stream.tokens = rest from h]⟩
  | cons t tokens ih =>
    rcases hnext : c.next with ⟨d | u, c₁⟩
    · rw [stream_of_error hnext] at h
      cases h
    · by_cases hkind : u.kind = .endOfFile
      · rw [stream_of_endOfFile hnext hkind] at h
        cases h
      · rw [stream_of_token hnext hkind] at h ⊢
        obtain ⟨rfl, htokens⟩ := List.cons.inj h
        obtain ⟨c', hreads, hstream⟩ := ih htokens
        exact ⟨c', .token hnext hkind hreads, hstream⟩

/-- Reading a token takes some bytes, and these alone matter as long as a delimiter follows
somewhere behind them. -/
theorem next_splice (h : c.next = (.ok t, c')) (hkind : t.kind ≠ .endOfFile) :
    ∃ read, c.rest = read ++ c'.rest ∧ c'.pos = c.pos.advanceBy read ∧ c'.index = c.index + 1 ∧
      ∀ {kept back : Bytes} (more : Bytes) {g : UInt8},
        Delimits g → c'.rest = kept ++ back →
        next { c with rest := read ++ (kept ++ g :: more) } =
          (.ok t, { c' with rest := kept ++ g :: more }) := by
  have hreading := reading_next c
  rw [h] at hreading
  cases hreading with
  | endOfFile hgap => exact absurd rfl hkind
  | @token gap b rest kind lexeme length hgap hrest htoken =>
    obtain ⟨n, rfl⟩ : ∃ n, length = n + 1 :=
      ⟨length - 1, by have := tokenAt?_pos htoken; omega⟩
    have hn : n ≤ rest.length := Nat.le_of_succ_le_succ (tokenAt?_le htoken)
    have hlength : (rest.take n).length = n := List.length_take_of_le hn
    refine ⟨gap ++ b :: rest.take n, ?_, ?_, rfl, ?_⟩
    · rw [hrest, afterToken, List.drop_succ_cons, List.append_assoc, List.cons_append,
        List.take_append_drop]
    · rw [Position.advanceBy_append]
      rfl
    · intro kept back more g hg hkept
      rw [afterToken, List.drop_succ_cons] at hkept
      have hsplit : rest = (rest.take n ++ kept) ++ back := by
        rw [List.append_assoc, ← hkept, List.take_append_drop]
      rw [hsplit] at htoken
      have htoken' := tokenAt?_splice more hg htoken
        (by rw [List.length_append, hlength]; omega)
      rw [List.append_assoc] at htoken'
      have hreading := Reading.token (c := { c with
        rest := gap ++ b :: rest.take n ++ (kept ++ g :: more) }) hgap
        (by rw [List.append_assoc, List.cons_append]) htoken'
      rw [hreading.next_eq]
      simp only [afterToken, List.drop_succ_cons, List.take_succ_cons,
        List.drop_left' hlength, List.take_left' hlength]

theorem ReadsTo.splice {tokens : List Token} (h : ReadsTo c tokens c') :
    ∃ read, c.rest = read ++ c'.rest ∧ c'.pos = c.pos.advanceBy read ∧
      c'.index = c.index + tokens.length ∧
      ∀ {kept back : Bytes} (more : Bytes) {g : UInt8},
        Delimits g → c'.rest = kept ++ back →
        ReadsTo { c with rest := read ++ (kept ++ g :: more) } tokens
          { c' with rest := kept ++ g :: more } := by
  induction h with
  | done => exact ⟨[], rfl, rfl, rfl, fun _ _ _ _ => .done⟩
  | @token c c₁ c₂ t tokens hnext hkind hrest ih =>
    obtain ⟨read₁, hrest₁, hpos₁, hindex₁, hsplice₁⟩ := next_splice hnext hkind
    obtain ⟨read₂, hrest₂, hpos₂, hindex₂, hsplice₂⟩ := ih
    refine ⟨read₁ ++ read₂, ?_, ?_, ?_, ?_⟩
    · rw [hrest₁, hrest₂, List.append_assoc]
    · rw [hpos₂, hpos₁, Position.advanceBy_append]
    · rw [hindex₂, hindex₁, List.length_cons]
      omega
    · intro kept back more g hg hkept
      -- the first token is followed by what the others take and by what is kept of the rest
      have hkept₁ : c₁.rest = (read₂ ++ kept) ++ back := by
        rw [hrest₂, hkept, List.append_assoc]
      have hfirst := hsplice₁ more hg hkept₁
      rw [List.append_assoc] at hfirst
      rw [List.append_assoc]
      exact .token hfirst hkind (hsplice₂ more hg hkept)

/-- Where the gap behind some tokens ends, the text can be cut and continued. -/
theorem ReadsTo.exists_cut {tokens : List Token} {gap after : Bytes} (h : ReadsTo c tokens c')
    (hgap : Gap gap) (hafter : c'.rest = gap ++ after) :
    ∃ before, c.rest = before ++ after ∧ c'.pos.advanceBy gap = c.pos.advanceBy before ∧
      ∀ (more : Bytes) {g : UInt8}, Delimits g →
        let s := stream ⟨g :: more, c'.pos.advanceBy gap, c.index + tokens.length⟩
        stream { c with rest := before ++ g :: more } = ⟨tokens ++ s.tokens, s.stop⟩ := by
  obtain ⟨read, hrest, hpos, hindex, hsplice⟩ := h.splice
  refine ⟨read ++ gap, ?_, ?_, ?_⟩
  · rw [hrest, hafter, List.append_assoc]
  · rw [hpos, Position.advanceBy_append]
  · intro more g hg
    have hcut := (hsplice more hg hafter).stream_eq
    rw [List.append_assoc, hcut, stream_gap hgap, hindex]

/-- Where a token starts, the text can be cut and continued. -/
theorem exists_cut {tokens rest : List Token} (h : c.stream.tokens = tokens ++ rest)
    (ht : TokenStream.head ⟨rest, c.stream.stop⟩ = .ok t) :
    ∃ before after, c.rest = before ++ after ∧ t.pos = c.pos.advanceBy before ∧
      (t.kind = .endOfFile → after = []) ∧
      ∀ (more : Bytes) {g : UInt8}, isGapByte g = true →
        let s := stream ⟨g :: more, t.pos, c.index + tokens.length⟩
        stream { c with rest := before ++ g :: more } = ⟨tokens ++ s.tokens, s.stop⟩ := by
  obtain ⟨c', hreads, hstream⟩ := exists_readsTo h
  rw [← hstream] at ht
  -- the token comes behind the gap at the cursor
  obtain ⟨gap, after, hgap, hafter, htpos, hend⟩ : ∃ gap after, Gap gap ∧ c'.rest = gap ++ after ∧
      t.pos = c'.pos.advanceBy gap ∧ (t.kind = .endOfFile → after = []) := by
    have hreading := reading_next c'
    obtain ⟨c₁, hnext⟩ := next_of_head ht
    rw [hnext] at hreading
    cases hreading with
    | token hgap hrest htoken =>
      exact ⟨_, _, hgap, hrest, rfl, fun hkind => absurd hkind (tokenAt?_kind_ne htoken)⟩
    | endOfFile hgap => exact ⟨_, [], hgap, (List.append_nil _).symm, rfl, fun _ => rfl⟩
  obtain ⟨before, hrest, hpos, hcut⟩ := hreads.exists_cut hgap hafter
  rw [← htpos] at hpos hcut
  exact ⟨before, after, hrest, hpos, hend, fun more _ hg => hcut more (delimits_of_gap hg)⟩

/-- The tokens of a text stay when it goes on behind a gap byte, and so does the failure at a byte
that starts no token. -/
theorem stream_extend (hg : isGapByte g = true) (c : Cursor) (more : Bytes) :
    let s := stream { c with rest := c.rest ++ g :: more }
    (∃ tokens, s.tokens = c.stream.tokens ++ tokens) ∧
      ∀ d, c.stream.stop = .failed d → d.cause ≠ .unterminatedComment → s = c.stream := by
  obtain ⟨c', hreads, hstream⟩ := exists_readsTo (List.append_nil c.stream.tokens).symm
  obtain ⟨read, hrest, hpos, hindex, hsplice⟩ := hreads.splice
  have hextend := (hsplice more (delimits_of_gap hg) (List.append_nil _).symm).stream_eq
  rw [← List.append_assoc, ← hrest] at hextend
  rw [hextend]
  refine ⟨⟨_, rfl⟩, fun d hd hcause => ?_⟩
  rw [hd] at hstream
  obtain ⟨c₁, hnext⟩ := next_of_failed hstream
  have hreading := reading_next c'
  rw [hnext] at hreading
  cases hreading with
  | unclosed => exact absurd rfl hcause
  | @invalid gap b rest hgap hinvalid hb htoken =>
    have hrest' : c'.rest ++ g :: more = gap ++ b :: (rest ++ g :: more) := by
      rw [hinvalid, List.append_assoc, List.cons_append]
    have hreading' := Reading.invalid (c := { c' with rest := c'.rest ++ g :: more }) hgap hrest' hb
      ((tokenAt?_eq_none.mp htoken).tokenAt?_eq _)
    rw [stream_of_error hreading'.next_eq, firstPiece_extend hg, List.append_nil, ← hd]

end MiniPascal.Cursor
