import Mathlib.Logic.Function.Basic
import MiniPascal.Proofs.Scope

/-!
# Scopes that share symbols

Symbols and scopes are created one after the other and known by their numbers. A scope has a
directory from names to symbols, and beside it the names in the order in which they were inserted.
Inserting a symbol writes the level of the scope into it.

As long as only symbols are inserted that are in no scope yet, directories and orders stay in step,
and the symbols of a scope have its level, which says how many scopes are around it. A look-up gives
the symbol of the nearest scope that has the name.
-/
namespace MiniPascal

/-- A scope that refers to symbols by their numbers. -/
structure IndexedScope where
  name : String
  level : Int := 1
  parent : Option Nat := none
  directory : String → Option Nat := fun _ => none
  order : List String := []

structure ScopeStore where
  scopes : List IndexedScope := []
  symbols : List Symbol := []

namespace IndexedScope

def add (scope : IndexedScope) (x : String) (n : Nat) : IndexedScope :=
  { scope with
    directory := Function.update scope.directory x (some n)
    order := scope.order ++ [x] }

/-- The directory and the order have the same names, each once, and the symbols under them have
these names and the level of the scope. -/
structure InOrder (symbols : List Symbol) (scope : IndexedScope) : Prop where
  nodup : scope.order.Nodup
  keys : ∀ x, x ∈ scope.order ↔ scope.directory x ≠ none
  entries : ∀ x n, scope.directory x = some n →
    ∃ symbol, symbols[n]? = some symbol ∧ symbol.name = x ∧ symbol.level = scope.level

variable {symbols symbols' : List Symbol} {scope : IndexedScope}

theorem inOrder_empty (name : String) (level : Int) (parent : Option Nat) :
    InOrder symbols { name, level, parent } where
  nodup := List.nodup_nil
  keys _ := iff_of_false List.not_mem_nil fun h => h rfl
  entries _ _ h := by cases h

theorem InOrder.congr (h : scope.InOrder symbols)
    (hsymbols : ∀ x n, scope.directory x = some n → symbols'[n]? = symbols[n]?) :
    scope.InOrder symbols' := by
  refine ⟨h.nodup, h.keys, fun x n hx => ?_⟩
  rw [hsymbols x n hx]
  exact h.entries x n hx

theorem InOrder.add (h : scope.InOrder symbols) {n : Nat} {symbol : Symbol}
    (hnew : scope.directory symbol.name = none) (hsymbol : symbols[n]? = some symbol)
    (hlevel : symbol.level = scope.level) : (scope.add symbol.name n).InOrder symbols := by
  have hname : symbol.name ∉ scope.order := by
    rw [h.keys, not_not]
    exact hnew
  constructor
  · apply List.nodup_append.mpr
    refine ⟨h.nodup, List.nodup_singleton _, ?_⟩
    rintro x hx _ hx' rfl
    rw [List.mem_singleton.mp hx'] at hx
    exact hname hx
  · intro x
    by_cases hx : x = symbol.name
    · subst hx
      simp [IndexedScope.add]
    · simp [IndexedScope.add, hx, h.keys x]
  · intro x m hx
    by_cases hname : x = symbol.name
    · subst hname
      simp only [IndexedScope.add, Function.update_self, Option.some.injEq] at hx
      subst hx
      exact ⟨symbol, hsymbol, rfl, hlevel⟩
    · simp only [IndexedScope.add, Function.update_of_ne hname] at hx
      exact h.entries x m hx

end IndexedScope

namespace ScopeStore

def openScope (s : ScopeStore) (name : String) (parent : Option Nat) : ScopeStore :=
  let level := match parent.bind fun p => s.scopes[p]? with
    | none => 1
    | some outer => outer.level + 1
  { s with scopes := s.scopes ++ [{ name, level, parent }] }

def create (s : ScopeStore) (symbol : Symbol) : ScopeStore :=
  { s with symbols := s.symbols ++ [symbol] }

/-- Inserts the symbol number `n` into the scope number `i`, which refuses a name that it has. The
symbol gets the level of the scope. -/
def insert (s : ScopeStore) (i n : Nat) : Option ScopeError × ScopeStore :=
  match s.scopes[i]?, s.symbols[n]? with
  | some scope, some symbol =>
    match scope.directory symbol.name with
    | some _ => (some .alreadyDefined, s)
    | none => (none, {
        scopes := s.scopes.set i (scope.add symbol.name n)
        symbols := s.symbols.set n (symbol.atLevel scope.level) })
  | _, _ => (some .notFound, s)

def find? (s : ScopeStore) (i : Nat) (x : String) : Option Nat :=
  s.scopes[i]?.bind fun scope => scope.directory x

def Unplaced (s : ScopeStore) (n : Nat) : Prop :=
  ∀ scope ∈ s.scopes, ∀ x, scope.directory x ≠ some n

inductive Path (s : ScopeStore) : Nat → List Nat → Prop
  | root {i : Nat} {scope : IndexedScope} (hscope : s.scopes[i]? = some scope)
      (hroot : scope.parent = none) : Path s i [i]
  | inside {i p : Nat} {scope : IndexedScope} {path : List Nat}
      (hscope : s.scopes[i]? = some scope) (hparent : scope.parent = some p)
      (outer : Path s p path) : Path s i (i :: path)

/-- The nearest scope of a path that has the name has the symbol number `n` under it. -/
def Nearest (s : ScopeStore) (path : List Nat) (x : String) (n : Nat) : Prop :=
  ∃ before i after, path = before ++ i :: after ∧ s.find? i x = some n ∧
    ∀ j ∈ before, s.find? j x = none

/-- Each scope is in order, and lies in no scope or in one that was opened earlier. Its level is one
more than that of the scope around it. -/
structure InOrder (s : ScopeStore) : Prop where
  scopes : ∀ scope ∈ s.scopes, scope.InOrder s.symbols
  root : ∀ scope ∈ s.scopes, scope.parent = none → scope.level = 1
  inside : ∀ (i : Nat) (scope : IndexedScope) (p : Nat), s.scopes[i]? = some scope →
    scope.parent = some p →
      p < i ∧ ∃ outer : IndexedScope, s.scopes[p]? = some outer ∧ scope.level = outer.level + 1

variable {s : ScopeStore} {i n : Nat} {scope : IndexedScope} {symbol : Symbol} {x : String}

theorem find?_of_scope (hscope : s.scopes[i]? = some scope) : s.find? i x = scope.directory x := by
  rw [find?, hscope, Option.bind_some]

theorem insert_of_taken (hscope : s.scopes[i]? = some scope) (hsymbol : s.symbols[n]? = some symbol)
    {m : Nat} (h : scope.directory symbol.name = some m) :
    s.insert i n = (some .alreadyDefined, s) := by
  simp only [insert, hscope, hsymbol, h]

theorem insert_of_new (hscope : s.scopes[i]? = some scope) (hsymbol : s.symbols[n]? = some symbol)
    (h : scope.directory symbol.name = none) :
    s.insert i n = (none, {
      scopes := s.scopes.set i (scope.add symbol.name n)
      symbols := s.symbols.set n (symbol.atLevel scope.level) }) := by
  simp only [insert, hscope, hsymbol, h]

theorem inOrder_empty : InOrder {} where
  scopes _ h := by cases h
  root _ h := by cases h
  inside _ _ _ h := by cases h

theorem InOrder.entries_lt (hs : s.InOrder) (hscope : scope ∈ s.scopes)
    (hx : scope.directory x = some n) : n < s.symbols.length := by
  obtain ⟨symbol, hsymbol, _⟩ := (hs.scopes scope hscope).entries x n hx
  exact (List.getElem?_eq_some_iff.mp hsymbol).1

theorem InOrder.create (hs : s.InOrder) (symbol : Symbol) : (s.create symbol).InOrder := by
  refine ⟨fun scope hscope => ?_, hs.root, hs.inside⟩
  apply (hs.scopes scope hscope).congr
  intro x n hx
  exact List.getElem?_append_left (hs.entries_lt hscope hx)

/-- A new symbol is in no scope. -/
theorem InOrder.unplaced_create (hs : s.InOrder) (symbol : Symbol) :
    (s.create symbol).Unplaced s.symbols.length := by
  intro scope hscope x hx
  exact Nat.lt_irrefl _ (hs.entries_lt hscope hx)

theorem InOrder.openScope (hs : s.InOrder) (name : String) {parent : Option Nat}
    (hparent : ∀ p ∈ parent, p < s.scopes.length) : (s.openScope name parent).InOrder := by
  constructor
  · intro scope hscope
    rcases List.mem_append.mp hscope with hscope | hscope
    · exact hs.scopes scope hscope
    · rw [List.mem_singleton.mp hscope]
      exact IndexedScope.inOrder_empty name _ parent
  · intro scope hscope hroot
    rcases List.mem_append.mp hscope with hscope | hscope
    · exact hs.root scope hscope hroot
    · rw [List.mem_singleton.mp hscope] at hroot ⊢
      dsimp only at hroot
      simp only [hroot, Option.bind_none]
  · intro i scope p hscope hp
    by_cases hi : i < s.scopes.length
    · simp only [ScopeStore.openScope, List.getElem?_append_left hi] at hscope
      obtain ⟨hlt, outer, houter, hlevel⟩ := hs.inside i scope p hscope hp
      refine ⟨hlt, outer, ?_, hlevel⟩
      exact (List.getElem?_append_left (by omega)).trans houter
    · simp only [ScopeStore.openScope, List.getElem?_append_right (Nat.le_of_not_lt hi)] at hscope
      rw [List.getElem?_singleton] at hscope
      split at hscope
      · cases hscope
        subst hp
        have hlt : p < s.scopes.length := hparent p rfl
        refine ⟨by omega, s.scopes[p], ?_, ?_⟩
        · exact (List.getElem?_append_left hlt).trans (List.getElem?_eq_getElem hlt)
        · simp only [Option.bind_some, List.getElem?_eq_getElem hlt]
      · cases hscope

/-- Writing into a symbol that no scope has changes nothing for the scopes. -/
theorem Unplaced.getElem?_set (hn : s.Unplaced n) (hscope : scope ∈ s.scopes) {m : Nat}
    (hx : scope.directory x = some m) (symbol : Symbol) :
    (s.symbols.set n symbol)[m]? = s.symbols[m]? := by
  apply List.getElem?_set_ne
  rintro rfl
  exact hn scope hscope x hx

/-- After an insertion, a scope is the one that it was before, but for its names if the symbol was
inserted into it. -/
theorem insert_getElem? (hscope : s.scopes[i]? = some scope) (j : Nat) :
    ∃ scope' : IndexedScope, (s.insert j n).2.scopes[i]? = some scope' ∧
      scope'.parent = scope.parent ∧ scope'.level = scope.level ∧
      (i ≠ j → scope'.directory = scope.directory) := by
  simp only [insert]
  split
  · split
    · exact ⟨scope, hscope, rfl, rfl, fun _ => rfl⟩
    · next into _ hinto _ _ _ =>
      by_cases hij : j = i
      · subst hij
        cases hinto.symm.trans hscope
        have hlt := (List.getElem?_eq_some_iff.mp hscope).1
        exact ⟨_, List.getElem?_set_self hlt, rfl, rfl, fun h => absurd rfl h⟩
      · exact ⟨scope, (List.getElem?_set_ne hij).trans hscope, rfl, rfl, fun _ => rfl⟩
  · exact ⟨scope, hscope, rfl, rfl, fun _ => rfl⟩

theorem length_insert (j : Nat) : (s.insert j n).2.scopes.length = s.scopes.length := by
  simp only [insert]
  split
  · split
    · rfl
    · exact List.length_set
  · rfl

theorem of_insert_getElem? {j : Nat} {scope' : IndexedScope}
    (h : (s.insert j n).2.scopes[i]? = some scope') :
    ∃ scope : IndexedScope, s.scopes[i]? = some scope ∧ scope'.parent = scope.parent ∧
      scope'.level = scope.level := by
  have hi : i < s.scopes.length := length_insert (s := s) j ▸ (List.getElem?_eq_some_iff.mp h).1
  have hscope := List.getElem?_eq_getElem hi
  obtain ⟨scope'', h', hparent, hlevel, _⟩ := insert_getElem? (n := n) hscope j
  cases h.symm.trans h'
  exact ⟨_, hscope, hparent, hlevel⟩

theorem Unplaced.symbols_insert (hn : s.Unplaced n) (hscope : scope ∈ s.scopes) {m : Nat}
    (hx : scope.directory x = some m) (i : Nat) : (s.insert i n).2.symbols[m]? = s.symbols[m]? := by
  simp only [insert]
  split
  · split
    · rfl
    · exact hn.getElem?_set hscope hx _
  · rfl

theorem InOrder.insert (hs : s.InOrder) (hi : i < s.scopes.length)
    (hsymbol : s.symbols[n]? = some symbol) (hn : s.Unplaced n) : (s.insert i n).2.InOrder := by
  constructor
  · have hscope := List.getElem?_eq_getElem hi
    have hmem := List.getElem_mem hi
    cases htaken : s.scopes[i].directory symbol.name with
    | some m =>
      rw [insert_of_taken hscope hsymbol htaken]
      exact hs.scopes
    | none =>
      rw [insert_of_new hscope hsymbol htaken]
      have hkept : ∀ scope ∈ s.scopes,
          scope.InOrder (s.symbols.set n (symbol.atLevel s.scopes[i].level)) := by
        intro scope hscope
        apply (hs.scopes scope hscope).congr
        intro x m hx
        exact hn.getElem?_set hscope hx _
      intro scope hscope
      rcases List.mem_or_eq_of_mem_set hscope with hscope | rfl
      · exact hkept scope hscope
      · have hlt := (List.getElem?_eq_some_iff.mp hsymbol).1
        rw [← Symbol.name_atLevel s.scopes[i].level symbol] at htaken ⊢
        exact (hkept _ hmem).add htaken (List.getElem?_set_self hlt) (Symbol.level_atLevel ..)
  · intro scope' hscope' hroot
    obtain ⟨j, hj⟩ := List.mem_iff_getElem?.mp hscope'
    obtain ⟨scope, hscope, hparent, hlevel⟩ := of_insert_getElem? hj
    rw [hlevel]
    exact hs.root scope (List.mem_of_getElem? hscope) (hparent ▸ hroot)
  · intro j scope' p hj hp
    obtain ⟨scope, hscope, hparent, hlevel⟩ := of_insert_getElem? hj
    obtain ⟨hlt, outer, houter, hdeeper⟩ := hs.inside j scope p hscope (hparent ▸ hp)
    obtain ⟨outer', houter', _, hkept, _⟩ := insert_getElem? (n := n) houter i
    refine ⟨hlt, outer', houter', ?_⟩
    rw [hlevel, hdeeper, hkept]

/-- The level of a scope counts the scopes around it. -/
theorem InOrder.exists_path (hs : s.InOrder) (hscope : s.scopes[i]? = some scope) :
    ∃ ancestors : List Nat, s.Path i (i :: ancestors) ∧ scope.level = 1 + ancestors.length := by
  induction i using Nat.strongRecOn generalizing scope with
  | ind i ih =>
    cases hparent : scope.parent with
    | none =>
      have hlevel := hs.root scope (List.mem_of_getElem? hscope) hparent
      exact ⟨[], .root hscope hparent, hlevel⟩
    | some p =>
      obtain ⟨hlt, outer, houter, hlevel⟩ := hs.inside i scope p hscope hparent
      obtain ⟨ancestors, path, hdepth⟩ := ih p hlt houter
      refine ⟨p :: ancestors, .inside hscope hparent path, ?_⟩
      rw [hlevel, hdepth, List.length_cons]
      omega

/-- Insertions leave the scopes around a scope. -/
theorem Path.insert {path : List Nat} (h : s.Path i path) (j : Nat) :
    (s.insert j n).2.Path i path := by
  induction h with
  | root hscope hroot =>
    obtain ⟨_, hscope', hparent, _⟩ := insert_getElem? hscope j
    exact .root hscope' (hparent.trans hroot)
  | inside hscope hp _ ih =>
    obtain ⟨_, hscope', hparent, _⟩ := insert_getElem? hscope j
    exact .inside hscope' (hparent.trans hp) ih

/-- An insertion matters only to the scope that it goes into. -/
theorem find?_insert_of_ne {j : Nat} (hij : i ≠ j) :
    (s.insert j n).2.find? i x = s.find? i x := by
  cases hscope : s.scopes[i]? with
  | none =>
    have hscope' : (s.insert j n).2.scopes[i]? = none := by
      rw [List.getElem?_eq_none_iff, length_insert]
      exact List.getElem?_eq_none_iff.mp hscope
    rw [find?, find?, hscope, hscope']
  | some scope =>
    obtain ⟨_, hscope', _, _, hdirectory⟩ := insert_getElem? hscope j
    rw [find?_of_scope hscope, find?_of_scope hscope', hdirectory hij]

end ScopeStore
end MiniPascal
