import MiniPascal.Proofs.Grammar

/-!
# Completing phrases

What is left of a phrase can be supplied in tokens of which only the kinds matter. A language is a
set of phrases with a completion: some of its phrases consist of such tokens alone. The phrases of
every nonterminal, as far as their constants are in range, are a language.
-/
namespace MiniPascal.Grammar

/-- The kinds of tokens of which completions are made. None of them is a constant. -/
def fillers : List Kind :=
  [.identifier, .programWord, .varWord, .procedureWord, .beginWord, .endWord, .integerWord,
    .openParen, .closeParen, .semicolon, .dot, .colon, .comma, .assign, .plus, .star]

def Completable (P : List Token → Prop) : Prop :=
  ∃ kinds ⊆ fillers, ∀ tokens : List Token, tokens.map Token.kind = kinds → P tokens

section

variable {P Q : List Token → Prop}

theorem Completable.mono (h : Completable P) (hPQ : ∀ tokens, P tokens → Q tokens) :
    Completable Q := by
  obtain ⟨kinds, hkinds, hP⟩ := h
  exact ⟨kinds, hkinds, fun tokens htokens => hPQ tokens (hP tokens htokens)⟩

theorem Completable.append (hP : Completable P) (hQ : Completable Q) :
    Completable fun tokens => ∃ front back, tokens = front ++ back ∧ P front ∧ Q back := by
  obtain ⟨kinds, hkinds, hP⟩ := hP
  obtain ⟨kinds', hkinds', hQ⟩ := hQ
  refine ⟨kinds ++ kinds', List.append_subset.mpr ⟨hkinds, hkinds'⟩, fun tokens htokens => ?_⟩
  obtain ⟨front, back, rfl, hfront, hback⟩ := List.map_eq_append_iff.mp htokens
  exact ⟨front, back, rfl, hP front hfront, hQ back hback⟩

end

theorem isLiteral_of_mem_fillers {k : Kind} (h : k ∈ fillers) : k.isLiteral = false := by
  revert k
  decide

theorem ne_endOfFile_of_filler {k : Kind} (h : fillers.contains k = true) : k ≠ .endOfFile := by
  rintro rfl
  cases h

theorem inRange_of_fillers {tokens : List Token} (h : tokens.map Token.kind ⊆ fillers) :
    InRange tokens := by
  intro t ht hl
  have hfiller := isLiteral_of_mem_fillers (h (List.mem_map_of_mem ht))
  rw [hl] at hfiller
  cases hfiller

/-- A set of phrases; the constants in them are in range, and one of them consists of fillers. -/
structure TokenLanguage where
  Mem : List Token → Prop
  inRange {tokens : List Token} : Mem tokens → InRange tokens
  completable : Completable Mem

namespace TokenLanguage

def nil : TokenLanguage where
  Mem tokens := tokens = []
  inRange h := h ▸ inRange_nil
  completable := ⟨[], List.nil_subset _, fun _ h => List.map_eq_nil_iff.mp h⟩

def leaf (P : Kind → Prop) (hfiller : ∃ k ∈ fillers, P k)
    (hliteral : ∀ k, P k → k.isLiteral = false) : TokenLanguage where
  Mem tokens := ∃ t, P t.kind ∧ tokens = [t]
  inRange := by
    rintro _ ⟨t, ht, rfl⟩
    exact inRange_nil.cons (hliteral _ ht)
  completable := by
    obtain ⟨k, hk, hP⟩ := hfiller
    refine ⟨[k], List.cons_subset.mpr ⟨hk, List.nil_subset _⟩, fun tokens htokens => ?_⟩
    obtain ⟨t, rfl, rfl⟩ := List.map_eq_singleton_iff.mp htokens
    exact ⟨t, hP, rfl⟩

def one (k : Kind) (hk : fillers.contains k = true) : TokenLanguage :=
  leaf (· = k) ⟨k, List.contains_iff_mem.mp hk, rfl⟩
    fun _ h => h ▸ isLiteral_of_mem_fillers (List.contains_iff_mem.mp hk)

def operators (o : Operand) : TokenLanguage :=
  leaf (o.joins · = true)
    (by
      cases o with
      | term => exact ⟨.plus, by decide, rfl⟩
      | factor => exact ⟨.star, by decide, rfl⟩)
    fun _ h => (Operand.of_joins h).2

def types : TokenLanguage :=
  leaf (Kind.isBasicType · = true) ⟨.integerWord, by decide, rfl⟩ fun k => by
    cases k <;> simp [Kind.isBasicType, Kind.isLiteral]

def append (L M : TokenLanguage) : TokenLanguage where
  Mem tokens := ∃ front back, tokens = front ++ back ∧ L.Mem front ∧ M.Mem back
  inRange := by
    rintro _ ⟨front, back, rfl, hfront, hback⟩
    exact inRange_append.mpr ⟨L.inRange hfront, M.inRange hback⟩
  completable := L.completable.append M.completable

def either (L M : TokenLanguage) : TokenLanguage where
  Mem tokens := L.Mem tokens ∨ M.Mem tokens
  inRange := by
    rintro tokens (h | h)
    · exact L.inRange h
    · exact M.inRange h
  completable := L.completable.mono fun _ => .inl

end TokenLanguage

def Derives (n : Nonterminal) (tokens : List Token) : Prop :=
  ∃ d : Derivation n, d.yield = tokens

section

open TokenLanguage (one nil)

theorem completable_block : Completable (Derives .block) := by
  refine ((one .beginWord rfl).completable.append
    (one .endWord rfl).completable).mono ?_
  rintro _ ⟨_, _, rfl, ⟨start, hstart, rfl⟩, stop, hstop, rfl⟩
  exact ⟨.block .noDeclarations (.compound ⟨start, hstart⟩ (.one .nothing) ⟨stop, hstop⟩), rfl⟩

theorem completable_item (i : Item) : Completable (Derives (.item i)) := by
  cases i with
  | name =>
    refine (one .identifier rfl).completable.mono ?_
    rintro _ ⟨t, ht, rfl⟩
    exact ⟨.name ⟨t, ht⟩, rfl⟩
  | group =>
    refine ((one .identifier rfl).completable.append
      ((one .colon rfl).completable.append
        (one .integerWord rfl).completable)).mono ?_
    rintro _ ⟨_, _, rfl, ⟨name, hname, rfl⟩, _, _, rfl, ⟨colon, hcolon, rfl⟩, type, htype, rfl⟩
    exact ⟨.group (.one (.name ⟨name, hname⟩)) ⟨colon, hcolon⟩ ⟨type, by rw [htype]; rfl⟩, rfl⟩
  | statement => exact nil.completable.mono fun _ h => ⟨.nothing, h.symm⟩
  | expr =>
    refine (one .identifier rfl).completable.mono ?_
    rintro _ ⟨t, ht, rfl⟩
    exact ⟨.expr (.term (.reference ⟨t, ht⟩) .noLink) .noLink, rfl⟩

theorem completable_derives (n : Nonterminal) : Completable (Derives n) := by
  cases n with
  | program =>
    refine ((one .programWord rfl).completable.append
      ((one .identifier rfl).completable.append
        ((one .semicolon rfl).completable.append
          (completable_block.append (one .dot rfl).completable)))).mono ?_
    rintro _ ⟨_, _, rfl, ⟨head, hhead, rfl⟩, _, _, rfl, ⟨name, hname, rfl⟩, _, _, rfl,
      ⟨mark, hmark, rfl⟩, _, _, rfl, ⟨body, rfl⟩, dot, hdot, rfl⟩
    exact ⟨.program ⟨head, hhead⟩ ⟨name, hname⟩ ⟨mark, hmark⟩ body ⟨dot, hdot⟩, rfl⟩
  | block => exact completable_block
  | varDecls =>
    refine ((completable_item .group).append (one .semicolon rfl).completable).mono ?_
    rintro _ ⟨_, _, rfl, ⟨group, rfl⟩, mark, hmark, rfl⟩
    exact ⟨.lastVarDecl group ⟨mark, hmark⟩, rfl⟩
  | procedureDecl =>
    refine ((one .procedureWord rfl).completable.append
      ((one .identifier rfl).completable.append
        ((one .semicolon rfl).completable.append
          (completable_block.append (one .semicolon rfl).completable)))).mono ?_
    rintro _ ⟨_, _, rfl, ⟨head, hhead, rfl⟩, _, _, rfl, ⟨name, hname, rfl⟩, _, _, rfl,
      ⟨mark, hmark, rfl⟩, _, _, rfl, ⟨body, rfl⟩, last, hlast, rfl⟩
    exact ⟨.procedureDecl ⟨head, hhead⟩ ⟨name, hname⟩ .noFormals ⟨mark, hmark⟩ body ⟨last, hlast⟩,
      rfl⟩
  | compound =>
    refine ((one .beginWord rfl).completable.append
      (one .endWord rfl).completable).mono ?_
    rintro _ ⟨_, _, rfl, ⟨start, hstart, rfl⟩, stop, hstop, rfl⟩
    exact ⟨.compound ⟨start, hstart⟩ (.one .nothing) ⟨stop, hstop⟩, rfl⟩
  | assignment =>
    refine ((one .identifier rfl).completable.append
      ((one .assign rfl).completable.append (completable_item .expr))).mono ?_
    rintro _ ⟨_, _, rfl, ⟨target, htarget, rfl⟩, _, _, rfl, ⟨op, hop, rfl⟩, value, rfl⟩
    exact ⟨.assignment ⟨target, htarget⟩ ⟨op, hop⟩ value, rfl⟩
  | procCall =>
    refine ((one .identifier rfl).completable.append
      ((one .openParen rfl).completable.append
        (one .closeParen rfl).completable)).mono ?_
    rintro _ ⟨_, _, rfl, ⟨name, hname, rfl⟩, _, _, rfl, ⟨left, hleft, rfl⟩, right, hright, rfl⟩
    exact ⟨.procCall ⟨name, hname⟩ ⟨left, hleft⟩ .noActuals ⟨right, hright⟩, rfl⟩
  | operand o =>
    refine (one .identifier rfl).completable.mono ?_
    rintro _ ⟨t, ht, rfl⟩
    cases o with
    | term => exact ⟨.term (.reference ⟨t, ht⟩) .noLink, rfl⟩
    | factor => exact ⟨.reference ⟨t, ht⟩, rfl⟩
  | item i => exact completable_item i
  | sequence i => exact (completable_item i).mono fun _ ⟨d, hd⟩ => ⟨.one d, hd⟩
  | declarations => exact nil.completable.mono fun _ h => ⟨.noDeclarations, h.symm⟩
  | formals => exact nil.completable.mono fun _ h => ⟨.noFormals, h.symm⟩
  | actuals => exact nil.completable.mono fun _ h => ⟨.noActuals, h.symm⟩
  | chain o => exact nil.completable.mono fun _ h => ⟨.noLink, h.symm⟩

end

/-- Completions contain no constants, so that nothing in them is out of range. -/
theorem Completable.inRange {P : List Token → Prop} (h : Completable P) :
    Completable fun tokens => InRange tokens ∧ P tokens := by
  obtain ⟨kinds, hkinds, hP⟩ := h
  refine ⟨kinds, hkinds, fun tokens htokens => ⟨?_, hP tokens htokens⟩⟩
  exact inRange_of_fillers (htokens ▸ hkinds)

def phrases (n : Nonterminal) : TokenLanguage where
  Mem tokens := InRange tokens ∧ Derives n tokens
  inRange h := h.1
  completable := (completable_derives n).inRange

end MiniPascal.Grammar
