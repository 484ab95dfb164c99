import MiniPascal.Proofs.Parser.Relabel
import MiniPascal.Proofs.Token.Writing

/-!
# Texts with the same tokens

Two texts whose tokens agree in kinds and texts, one by one, are read alike: both are programs with
the same dump, or both have an error with the same cause at tokens of the same index. One text that
has the tokens of another is its tokens' texts with blanks between them.

The token at fault is one of the text. For if a replacement moves all other tokens and none of the
text, the text is still the same, so the token at fault is not moved.
-/
namespace MiniPascal

/-- Two answers agree if they are related results, or errors for the same cause at tokens that have
the same index among the tokens of the two texts. -/
inductive Agree {α β : Type} (tokens tokens' : List Token) (rel : α → β → Prop) :
    Except Diagnostic α → Except Diagnostic β → Prop
  | ok {a : α} {b : β} (h : rel a b) : Agree tokens tokens' rel (.ok a) (.ok b)
  | error {n : Nat} {t t' : Token} (c : Cause) (ht : tokens[n]? = some t)
      (ht' : tokens'[n]? = some t') :
      Agree tokens tokens' rel (.error (.atToken t c)) (.error (.atToken t' c))

theorem Agree.mono {α β : Type} {tokens tokens' : List Token} {rel rel' : α → β → Prop}
    {x : Except Diagnostic α} {y : Except Diagnostic β} (h : Agree tokens tokens' rel x y)
    (hrel : ∀ a b, rel a b → rel' a b) : Agree tokens tokens' rel' x y := by
  cases h with
  | ok h => exact .ok (hrel _ _ h)
  | error c ht ht' => exact .error c ht ht'

namespace Relabeling

def KeepsIndex (f : Relabeling) : Prop := ∀ t, (f.toFun t).index = t.index

/-- Moves all tokens but the given ones. -/
def moving (tokens : List Token) : Relabeling where
  toFun t := if t ∈ tokens then t else { t with pos := t.pos.advance 0 }
  kind t := by split <;> rfl
  text t := by split <;> rfl

theorem moving_eq_iff {tokens : List Token} {t : Token} :
    (moving tokens).toFun t = t ↔ t ∈ tokens := by
  constructor
  · intro h
    refine Decidable.byContradiction fun hmem => ?_
    have hcolumn := congrArg (fun t => t.pos.column) ((if_neg hmem).symm.trans h)
    exact absurd hcolumn (Int.ne_of_gt (Int.lt_succ t.pos.column))
  · intro hmem
    exact if_pos hmem

theorem stream_moving (tokens : List Token) (eof : Token) :
    (moving (tokens ++ [eof])).stream ⟨tokens, .endOfFile eof⟩ = ⟨tokens, .endOfFile eof⟩ := by
  have heof : eof ∈ tokens ++ [eof] := List.mem_append_right _ List.mem_cons_self
  have htokens : tokens.map (moving (tokens ++ [eof])).toFun = tokens.map fun t => t :=
    List.map_congr_left fun t ht => moving_eq_iff.mpr (List.mem_append_left _ ht)
  rw [stream, stop, htokens, List.map_id', moving_eq_iff.mpr heof]

variable {f : Relabeling} {α β : Type} {tokens : List Token}

/-- Where the tokens of the text are not moved, an answer carried over to itself has an error at one
of them only. -/
theorem Carries.mem {rel : α → α → Prop} {x y : Except Diagnostic α} {t : Token} {c : Cause}
    (h : (moving tokens).Carries rel x y) (hx : x = .error (.atToken t c)) (hy : y = x) :
    t ∈ tokens := by
  cases h with
  | ok => cases hx
  | error u c' =>
    have hu : u = t := Option.some.inj (congrArg Diagnostic.token (Except.error.inj hx))
    have hmoved : (moving tokens).toFun u = u :=
      Option.some.inj (congrArg Diagnostic.token (Except.error.inj hy))
    rw [← hu]
    exact moving_eq_iff.mp hmoved

/-- Answers agree if one is carried over to the other and the token at fault is of the text. -/
theorem Carries.agree {rel : α → β → Prop} {rel' : α → α → Prop} {x : Except Diagnostic α}
    {y : Except Diagnostic β} (h : f.Carries rel x y) (hself : (moving tokens).Carries rel' x x) :
    Agree tokens (tokens.map f.toFun) (fun a b => rel a b ∧ rel' a a) x y := by
  cases h with
  | ok h =>
    cases hself with
    | ok hself => exact .ok ⟨h, hself⟩
  | error t c =>
    obtain ⟨n, hn⟩ := List.getElem?_of_mem (hself.mem rfl rfl)
    refine .error c hn ?_
    rw [List.getElem?_map, hn]
    rfl

end Relabeling

namespace TokenStream

variable {file file' : String} {source source' : Bytes} {tokens tokens' : List Token}

/-- Of two texts with the same kinds and texts of tokens, one has the tokens of the other replaced,
and tokens keep their indices. -/
theorem exists_relabeling (h : (ofSource file source).toExcept = .ok tokens)
    (h' : (ofSource file' source').toExcept = .ok tokens')
    (hplain : tokens.map Token.plain = tokens'.map Token.plain) :
    ∃ (f : Relabeling) (front : List Token) (eof : Token), f.KeepsIndex ∧
      tokens' = tokens.map f.toFun ∧ tokens = front ++ [eof] ∧
      ofSource file source = ⟨front, .endOfFile eof⟩ ∧
      ofSource file' source' = f.stream ⟨front, .endOfFile eof⟩ := by
  have hindex := map_index_of_toExcept h
  have hindex' := map_index_of_toExcept h'
  have hlength : tokens.length = tokens'.length := by
    rw [← List.length_map Token.plain, hplain, List.length_map]
  have hnodup : tokens.Nodup := by
    have hindices : (tokens.map Token.index).Nodup := by
      rw [hindex]
      exact List.nodup_range' 1
    exact List.Pairwise.of_map _ (fun t t' hne heq => hne (congrArg Token.index heq)) hindices
  obtain ⟨f, rfl⟩ := MiniPascal.exists_relabeling hnodup hplain
  have hkeeps : ∀ t ∈ tokens, (f.toFun t).index = t.index := by
    rw [List.map_map, ← hlength, ← hindex] at hindex'
    exact List.map_inj_left.mp hindex'
  -- the replacement only matters on the tokens of the text
  let g : Relabeling :=
    { toFun := fun t => if t ∈ tokens then f.toFun t else t
      kind := fun t => by split <;> first | exact f.kind t | rfl
      text := fun t => by split <;> first | exact f.text t | rfl }
  have hg : ∀ t ∈ tokens, g.toFun t = f.toFun t := fun t ht => if_pos ht
  have hgkeeps : g.KeepsIndex := by
    intro t
    by_cases ht : t ∈ tokens
    · rw [hg t ht, hkeeps t ht]
    · exact congrArg Token.index (if_neg ht)
  obtain ⟨front, eof, hs, rfl⟩ := exists_of_toExcept h
  obtain ⟨front', eof', hs', heq⟩ := exists_of_toExcept h'
  rw [← List.map_congr_left hg, List.map_append] at heq
  obtain ⟨rfl, heof⟩ := List.append_inj' heq rfl
  obtain rfl : g.toFun eof = eof' := List.singleton_inj.mp heof
  exact ⟨g, front, eof, hgkeeps, (List.map_congr_left hg).symm, rfl, hs, hs'⟩

end TokenStream

namespace Token

theorem text_of_endOfFile {t : Token} (h : t.kind = .endOfFile) : t.text = "" := by
  rw [text, h]

/-- Written tokens with blanks between them are read back, if a token without text comes last. -/
theorem writes_joined {front : List Token} (h : ∀ t ∈ front, t.Written) {last : Token}
    (hlast : last.text = "") :
    WritesBefore Anything (joined (front ++ [last])) (front.map plain) := by
  induction front with
  | nil =>
    rw [List.nil_append, joined, List.map_singleton, String.intercalate_singleton, hlast]
    exact writes_blank "" (by decide)
  | cons t front ih =>
    obtain ⟨ht, hfront⟩ := List.forall_mem_cons.mp h
    have hjoined : joined (t :: front ++ [last]) = t.text ++ " " ++ joined (front ++ [last]) := by
      obtain ⟨u, rest, hrest⟩ : ∃ u rest, front ++ [last] = u :: rest :=
        List.exists_cons_of_ne_nil (by simp)
      rw [joined, joined, List.cons_append, hrest, List.map_cons, List.map_cons,
        String.intercalate_cons_cons]
    rw [hjoined, List.map_cons]
    exact (WritesBefore.blank ht).closed (ih hfront)

end Token

namespace Program

variable {file file' : String} {source source' : Bytes} {tokens tokens' : List Token}

/-- Texts with the same kinds and texts of tokens are read as the same program with other tokens, or
with the same error at tokens of the same index. -/
theorem ofSource_agree (h : (TokenStream.ofSource file source).toExcept = .ok tokens)
    (h' : (TokenStream.ofSource file' source').toExcept = .ok tokens')
    (hplain : tokens.map Token.plain = tokens'.map Token.plain) :
    ∃ f : Relabeling, f.KeepsIndex ∧ tokens' = tokens.map f.toFun ∧
      Agree tokens tokens' (fun p q => q = p.relabel f ∧ p = p.relabel (.moving tokens))
        (Program.ofSource file source) (Program.ofSource file' source') := by
  obtain ⟨f, front, eof, hindex, rfl, rfl, hs, hs'⟩ := TokenStream.exists_relabeling h h' hplain
  have hself := ofStream_carries (.moving (front ++ [eof])) front eof
  rw [Relabeling.stream_moving] at hself
  have hagree := (ofStream_carries f front eof).agree hself
  rw [← hs', ← hs] at hagree
  exact ⟨f, hindex, rfl, hagree⟩

/-- A text that can be split into tokens can only fail to be read with a syntax error. -/
theorem code_of_toExcept (h : (TokenStream.ofSource file source).toExcept = .ok tokens)
    {d : Diagnostic} (hd : Program.ofSource file source = .error d) : d.code = .parsing := by
  obtain ⟨front, eof, hs, _⟩ := TokenStream.exists_of_toExcept h
  obtain ⟨_, rest, _, hat, _⟩ := exists_failure hd [] (.endOfFile eof)
  rw [hs] at hat
  rcases hat with hhead | ⟨t, cause, _, hcause, rfl⟩
  · cases rest <;> cases hhead
  · exact hcause

end Program

/-- The texts of the tokens of a source, with single blanks between them, have the same kinds and
texts of tokens. Both are read as programs with the same dump, or both have a syntax error with the
same cause at tokens of the same index. -/
theorem Token.joined_reads_as_source (file file' : String) (source : Bytes) (tokens : List Token)
    (h : (TokenStream.ofSource file source).toExcept = .ok tokens) :
    let text := Text.encode (joined tokens)
    ∃ tokens', (TokenStream.ofSource file' text).toExcept = .ok tokens' ∧
      tokens'.map Token.kind = tokens.map Token.kind ∧
      tokens'.map Token.text = tokens.map Token.text ∧
      Agree tokens tokens' (fun p q => p.dump = q.dump) (Program.ofSource file source)
        (Program.ofSource file' text) ∧
      ∀ d, Program.ofSource file source = .error d → d.code = .parsing := by
  intro text
  obtain ⟨front, eof, hs, rfl⟩ := TokenStream.exists_of_toExcept h
  have heof := TokenStream.ofSource_stop_proper file source 0 eof (by rw [hs])
  have hwritten : ∀ t ∈ front, t.Written := by
    have hall := Cursor.written_of_mem_stream (.ofSource file source)
    rw [show (Cursor.ofSource file source).stream = _ from hs] at hall
    exact hall
  have hwrites := writes_joined hwritten (text_of_endOfFile heof)
  obtain ⟨read, eof', hs', hread⟩ := (hwrites [] trivial).stream_eq (.start file') 0
  replace hs' : TokenStream.ofSource file' text = ⟨read, .endOfFile eof'⟩ := hs'
  have heof' := TokenStream.ofSource_stop_proper file' text 0 eof' (by rw [hs'])
  have hplain : (read ++ [eof']).map plain = (front ++ [eof]).map plain := by
    rw [List.map_append, List.map_append, hread, List.map_singleton, List.map_singleton, plain,
      plain, heof, heof', text_of_endOfFile heof, text_of_endOfFile heof']
  have h' : (TokenStream.ofSource file' text).toExcept = .ok (read ++ [eof']) := by
    rw [hs']
    rfl
  have hpairs := map_plain_inj.mp hplain
  have hkinds := congrArg (List.map Prod.fst) hpairs
  have htexts := congrArg (List.map Prod.snd) hpairs
  rw [List.map_map, List.map_map] at hkinds htexts
  obtain ⟨f, _, _, hagree⟩ := Program.ofSource_agree h h' hplain.symm
  refine ⟨read ++ [eof'], h', hkinds, htexts, hagree.mono fun p q hq => ?_,
    fun d => Program.code_of_toExcept h⟩
  rw [hq.1, Program.dump_relabel]

/-- Marks without blanks, a real constant and a keyword in small letters are read back. -/
theorem Token.joined_reads_as_source_marks :
    let source := "program p;begin a:=-1.5div{whole}(12)end.".toList.map fun c => c.toNat.toUInt8
    ∃ tokens tokens', (TokenStream.ofSource "p.pas" source).toExcept = .ok tokens ∧
      joined tokens = "PROGRAM p ; BEGIN a := - 1.5 DIV ( 12 ) END . " ∧
      (TokenStream.ofSource "q.pas" (Text.encode (joined tokens))).toExcept = .ok tokens' ∧
      tokens'.map Token.text = tokens.map Token.text ∧
      ∃ p q, Program.ofSource "p.pas" source = .ok p ∧
        Program.ofSource "q.pas" (Text.encode (joined tokens)) = .ok q ∧ p.dump = q.dump := by
  intro source
  let eof : Token := { kind := .endOfFile, pos := { file := "p.pas", column := 42 }, index := 14 }
  let tokens := (TokenStream.ofSource "p.pas" source).tokens
  have h : (TokenStream.ofSource "p.pas" source).toExcept = .ok (tokens ++ [eof]) := by
    have hstop : (TokenStream.ofSource "p.pas" source).stop = .endOfFile eof := by decide +kernel
    rw [TokenStream.toExcept, hstop]
  obtain ⟨p, hp⟩ : ∃ p, Program.ofSource "p.pas" source = .ok p :=
    Program.exists_ok (by decide +kernel)
  obtain ⟨tokens', h', _, htexts, hagree, _⟩ :=
    joined_reads_as_source "p.pas" "q.pas" source (tokens ++ [eof]) h
  rw [hp] at hagree
  generalize hq : Program.ofSource "q.pas" (Text.encode (joined (tokens ++ [eof]))) = answer
    at hagree
  cases hagree with
  | @ok _ q hdump =>
    exact ⟨tokens ++ [eof], tokens', h, by decide +kernel, h', htexts, p, q, hp, hq, hdump⟩

end MiniPascal
