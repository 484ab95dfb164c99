import MiniPascal.Proofs.Scope.Store
import MiniPascal.Scope.Tree

/-!
# Trees of scopes in order

A tree of scopes shows what a store of scopes and symbols holds. It lists the symbols of each scope
in the order of their insertion, with the levels that they have by now. What is done to the store
and what is done to the tree stay in step, and so the tree keeps all that the store keeps.
-/
namespace MiniPascal

namespace IndexedScope

def node (symbols : List Symbol) (scope : IndexedScope) : ScopeNode where
  scope :=
    { name := scope.name
      level := scope.level
      symbols := scope.order.filterMap fun x => (scope.directory x).bind fun n => symbols[n]? }
  parent := scope.parent

variable {symbols symbols' : List Symbol} {scope : IndexedScope}

theorem node_congr
    (hsymbols : ∀ x n, scope.directory x = some n → symbols'[n]? = symbols[n]?) :
    scope.node symbols' = scope.node symbols := by
  have hshown : (fun x => (scope.directory x).bind fun n => symbols'[n]?) =
      fun x => (scope.directory x).bind fun n => symbols[n]? := by
    funext x
    cases hx : scope.directory x with
    | none => rfl
    | some n => exact hsymbols x n hx
  simp only [node, hshown]

/-- Each name of the scope shows a symbol of this name. -/
theorem InOrder.map_name_node (h : scope.InOrder symbols) :
    (scope.node symbols).scope.symbols.map Symbol.name = scope.order := by
  have hnames : ∀ x ∈ scope.order,
      ((scope.directory x).bind fun n => symbols[n]?).map Symbol.name = some x := by
    intro x hx
    obtain ⟨n, hn⟩ := Option.ne_none_iff_exists'.mp ((h.keys x).mp hx)
    obtain ⟨symbol, hsymbol, hname, _⟩ := h.entries x n hn
    rw [hn, Option.bind_some, hsymbol, Option.map_some, hname]
  simp only [node, List.map_filterMap]
  rw [List.filterMap_congr hnames, List.filterMap_some]

theorem InOrder.find?_node (h : scope.InOrder symbols) (x : String) :
    (scope.node symbols).scope.find? x = (scope.directory x).bind fun n => symbols[n]? := by
  cases hx : scope.directory x with
  | none =>
    rw [Option.bind_none, Scope.find?_eq_none_iff, h.map_name_node, h.keys, not_not]
    exact hx
  | some n =>
    obtain ⟨symbol, hsymbol, hname, _⟩ := h.entries x n hx
    have hmem : symbol ∈ (scope.node symbols).scope.symbols := by
      apply List.mem_filterMap.mpr
      refine ⟨x, ?_, ?_⟩
      · rw [h.keys, hx]
        exact Option.some_ne_none n
      · rw [hx, Option.bind_some, hsymbol]
    rw [Option.bind_some, hsymbol, ← hname]
    apply Scope.find?_of_mem _ hmem
    rw [h.map_name_node]
    exact h.nodup

theorem InOrder.level_of_mem_node (h : scope.InOrder symbols) {symbol : Symbol}
    (hsymbol : symbol ∈ (scope.node symbols).scope.symbols) : symbol.level = scope.level := by
  obtain ⟨x, _, hshown⟩ := List.mem_filterMap.mp hsymbol
  obtain ⟨n, hn, hsymbol⟩ := Option.bind_eq_some_iff.mp hshown
  obtain ⟨other, hother, _, hlevel⟩ := h.entries x n hn
  cases hother.symm.trans hsymbol
  exact hlevel

/-- A new name shows its symbol behind those of the other names. -/
theorem InOrder.node_add (h : scope.InOrder symbols) {x : String} {n : Nat} {symbol : Symbol}
    (hnew : scope.directory x = none) (hsymbol : symbols[n]? = some symbol) :
    (scope.add x n).node symbols =
      let shown := scope.node symbols
      { shown with scope := { shown.scope with symbols := shown.scope.symbols ++ [symbol] } } := by
  have hothers : ∀ y ∈ scope.order,
      (Function.update scope.directory x (some n) y).bind (fun n => symbols[n]?) =
        (scope.directory y).bind fun n => symbols[n]? := by
    intro y hy
    have hne : y ≠ x := by
      rintro rfl
      exact (h.keys y).mp hy hnew
    rw [Function.update_of_ne hne]
  have hlast : [x].filterMap (fun y =>
      (Function.update scope.directory x (some n) y).bind fun n => symbols[n]?) = [symbol] := by
    simp [hsymbol]
  simp only [node, IndexedScope.add, List.filterMap_append, List.filterMap_congr hothers, hlast]

end IndexedScope

namespace ScopeStore

def view (s : ScopeStore) : ScopeTree := s.scopes.map (IndexedScope.node s.symbols)

variable {s : ScopeStore} {i n : Nat} {scope : IndexedScope} {symbol : Symbol} {x : String}

theorem view_getElem? (hscope : s.scopes[i]? = some scope) :
    s.view[i]? = some (scope.node s.symbols) := by
  rw [view, List.getElem?_map, hscope, Option.map_some]

theorem view_openScope (s : ScopeStore) (name : String) (parent : Option Nat) :
    (s.openScope name parent).view = s.view.openScope name parent := by
  have houter : (parent.bind fun p => s.view[p]?) =
      (parent.bind fun p => s.scopes[p]?).map (IndexedScope.node s.symbols) := by
    cases parent with
    | none => rfl
    | some p => exact List.getElem?_map
  simp only [openScope, ScopeTree.openScope, houter]
  cases parent.bind fun p => s.scopes[p]? <;> exact List.map_append

theorem InOrder.view_create (hs : s.InOrder) (symbol : Symbol) :
    (s.create symbol).view = s.view := by
  apply List.map_congr_left
  intro scope hscope
  apply IndexedScope.node_congr
  intro x n hx
  exact List.getElem?_append_left (hs.entries_lt hscope hx)

theorem InOrder.insert_view_of_taken (hs : s.InOrder) (hscope : s.scopes[i]? = some scope)
    {m : Nat} (htaken : scope.directory symbol.name = some m) :
    s.view.insert i symbol = .error .alreadyDefined := by
  have hin := hs.scopes scope (List.mem_of_getElem? hscope)
  obtain ⟨other, hother, _⟩ := hin.entries _ _ htaken
  have hfind : (scope.node s.symbols).scope.find? symbol.name = some other := by
    rw [hin.find?_node, htaken]
    exact hother
  simp only [ScopeTree.insert, view_getElem? hscope, Scope.insert?, hfind]

theorem InOrder.insert_view_of_new (hs : s.InOrder) (hscope : s.scopes[i]? = some scope)
    (hsymbol : s.symbols[n]? = some symbol) (hn : s.Unplaced n)
    (hnew : scope.directory symbol.name = none) :
    s.view.insert i symbol = .ok (s.insert i n).2.view := by
  have hmem := List.mem_of_getElem? hscope
  have hin := hs.scopes scope hmem
  have hfind : (scope.node s.symbols).scope.find? symbol.name = none := by
    rw [hin.find?_node, hnew, Option.bind_none]
  -- the level is written into a symbol that no scope shows
  have hkept : ∀ other ∈ s.scopes,
      other.node (s.symbols.set n (symbol.atLevel scope.level)) = other.node s.symbols := by
    intro other hother
    apply IndexedScope.node_congr
    intro x m hx
    exact hn.getElem?_set hother hx _
  have hshown : (s.symbols.set n (symbol.atLevel scope.level))[n]? =
      some (symbol.atLevel scope.level) :=
    List.getElem?_set_self (List.getElem?_eq_some_iff.mp hsymbol).1
  have hin' : scope.InOrder (s.symbols.set n (symbol.atLevel scope.level)) :=
    hin.congr fun x m hx => hn.getElem?_set hmem hx _
  have hview : (s.insert i n).2.view = s.view.set i
      ((scope.add symbol.name n).node (s.symbols.set n (symbol.atLevel scope.level))) := by
    rw [insert_of_new hscope hsymbol hnew]
    simp only [view, List.map_set, List.map_congr_left hkept]
  rw [hview, hin'.node_add hnew hshown, hkept scope hmem]
  simp only [ScopeTree.insert, view_getElem? hscope, Scope.insert?, hfind]
  rfl

theorem chain_view (hscope : s.scopes[i]? = some scope) :
    s.view.chain i = (scope.node s.symbols).scope ::
      match scope.parent with
      | none => []
      | some p => if p < i then s.view.chain p else [] := by
  rw [ScopeTree.chain, view_getElem? hscope]
  rfl

/-- Names that are found have a symbol. -/
theorem InOrder.exists_symbol (hs : s.InOrder) (h : s.find? i x = some n) :
    ∃ symbol, s.symbols[n]? = some symbol := by
  obtain ⟨scope, hscope, hx⟩ := Option.bind_eq_some_iff.mp h
  obtain ⟨symbol, hsymbol, _⟩ := (hs.scopes scope (List.mem_of_getElem? hscope)).entries x n hx
  exact ⟨symbol, hsymbol⟩

/-- The tree finds the symbol that the scopes of the path refer to. -/
theorem InOrder.findSome?_chain (hs : s.InOrder) {path : List Nat} (h : s.Path i path)
    (x : String) :
    (s.view.chain i).findSome? (fun scope => scope.find? x) =
      (path.findSome? fun j => s.find? j x).bind fun n => s.symbols[n]? := by
  induction h with
  | root hscope hroot =>
    have hin := hs.scopes _ (List.mem_of_getElem? hscope)
    rw [chain_view hscope, hroot, List.findSome?_singleton, List.findSome?_singleton,
      hin.find?_node, find?_of_scope hscope]
  | @inside i p scope path hscope hparent _ ih =>
    have hin := hs.scopes _ (List.mem_of_getElem? hscope)
    obtain ⟨hlt, _⟩ := hs.inside i scope p hscope hparent
    simp only [chain_view hscope, hparent, if_pos hlt, List.findSome?_cons, hin.find?_node, ih,
      find?_of_scope hscope]
    cases hx : scope.directory x with
    | none => rfl
    | some n =>
      obtain ⟨symbol, hsymbol, _⟩ := hin.entries x n hx
      simp only [Option.bind_some, hsymbol]

theorem InOrder.lookup_eq_ok_iff (hs : s.InOrder) {path : List Nat} (h : s.Path i path) :
    s.view.lookup i x = .ok symbol ↔
      ∃ n, s.Nearest path x n ∧ s.symbols[n]? = some symbol := by
  have hiff : (s.view.chain i).findSome? (fun scope => scope.find? x) = some symbol ↔
      ∃ n, s.Nearest path x n ∧ s.symbols[n]? = some symbol := by
    simp only [hs.findSome?_chain h, Option.bind_eq_some_iff, List.findSome?_eq_some_iff, Nearest]
  rw [← hiff, ScopeTree.lookup]
  cases (s.view.chain i).findSome? fun scope => scope.find? x <;> simp

theorem InOrder.lookup_eq_error_iff (hs : s.InOrder) {path : List Nat} (h : s.Path i path) :
    s.view.lookup i x = .error .notFound ↔ ∀ j ∈ path, s.find? j x = none := by
  have hiff : (s.view.chain i).findSome? (fun scope => scope.find? x) = none ↔
      ∀ j ∈ path, s.find? j x = none := by
    rw [hs.findSome?_chain h, ← List.findSome?_eq_none_iff, Option.bind_eq_none_iff]
    constructor
    · intro hnone
      cases hfound : path.findSome? fun j => s.find? j x with
      | none => rfl
      | some n =>
        obtain ⟨j, _, hj⟩ := List.exists_of_findSome?_eq_some hfound
        obtain ⟨symbol, hsymbol⟩ := hs.exists_symbol hj
        cases (hnone n hfound).symm.trans hsymbol
    · intro hnone n hn
      cases hnone.symm.trans hn
  rw [← hiff, ScopeTree.lookup]
  cases (s.view.chain i).findSome? fun scope => scope.find? x <;> simp

/-- An insertion into a scope that is not around another one changes no look-up from that one. -/
theorem InOrder.lookup_insert (hs : s.InOrder) (hi : i < s.scopes.length)
    (hsymbol : s.symbols[n]? = some symbol) (hn : s.Unplaced n) {j : Nat} {path : List Nat}
    (h : s.Path j path) (hout : i ∉ path) :
    (s.insert i n).2.view.lookup j x = s.view.lookup j x := by
  have hfind : ∀ k ∈ path, (s.insert i n).2.find? k x = s.find? k x := by
    intro k hk
    apply find?_insert_of_ne
    rintro rfl
    exact hout hk
  have hfirst : path.findSome? (fun k => (s.insert i n).2.find? k x) =
      path.findSome? fun k => s.find? k x := by
    rw [← List.head?_filterMap, List.filterMap_congr hfind, List.head?_filterMap]
  have hshown : (path.findSome? fun k => s.find? k x).bind (fun m => (s.insert i n).2.symbols[m]?) =
      (path.findSome? fun k => s.find? k x).bind fun m => s.symbols[m]? := by
    cases hfound : path.findSome? fun k => s.find? k x with
    | none => rfl
    | some m =>
      obtain ⟨k, _, hk⟩ := List.exists_of_findSome?_eq_some hfound
      obtain ⟨scope, hscope, hx⟩ := Option.bind_eq_some_iff.mp hk
      exact hn.symbols_insert (List.mem_of_getElem? hscope) hx i
  rw [ScopeTree.lookup, ScopeTree.lookup, (hs.insert hi hsymbol hn).findSome?_chain (h.insert i),
    hs.findSome?_chain h, hfirst, hshown]

/-- A store and a tree to which the same has been done. Scopes are opened inside earlier ones, and
the symbols that are inserted are in no scope yet. -/
inductive Runs : ScopeStore → ScopeTree → Prop
  | start : Runs {} []
  | openScope {s : ScopeStore} {t : ScopeTree} (run : Runs s t) (name : String)
      (parent : Option Nat) (hparent : ∀ p ∈ parent, p < s.scopes.length) :
      Runs (s.openScope name parent) (t.openScope name parent)
  | create {s : ScopeStore} {t : ScopeTree} (run : Runs s t) (symbol : Symbol) :
      Runs (s.create symbol) t
  | insert {s : ScopeStore} {t : ScopeTree} {i n : Nat} {symbol : Symbol} (run : Runs s t)
      (hi : i < s.scopes.length) (hsymbol : s.symbols[n]? = some symbol) (hn : s.Unplaced n) :
      Runs (s.insert i n).2 ((t.insert i symbol).toOption.getD t)

/-- A scope either has the name of a symbol, and then nothing happens, or it takes the symbol, and
then the tree takes it as well. -/
theorem InOrder.insert_cases (hs : s.InOrder) (hi : i < s.scopes.length)
    (hsymbol : s.symbols[n]? = some symbol) (hn : s.Unplaced n) :
    (s.find? i symbol.name ≠ none ∧ s.insert i n = (some .alreadyDefined, s) ∧
        s.view.insert i symbol = .error .alreadyDefined) ∨
      (s.find? i symbol.name = none ∧ (s.insert i n).1 = none ∧
        s.view.insert i symbol = .ok (s.insert i n).2.view) := by
  have hscope := List.getElem?_eq_getElem hi
  rw [find?_of_scope hscope]
  cases htaken : s.scopes[i].directory symbol.name with
  | some m =>
    exact .inl ⟨Option.some_ne_none m, insert_of_taken hscope hsymbol htaken,
      hs.insert_view_of_taken hscope htaken⟩
  | none =>
    exact .inr ⟨rfl, by rw [insert_of_new hscope hsymbol htaken],
      hs.insert_view_of_new hscope hsymbol hn htaken⟩

theorem Runs.inOrder {t : ScopeTree} (h : Runs s t) : s.InOrder ∧ t = s.view := by
  induction h with
  | start => exact ⟨inOrder_empty, rfl⟩
  | openScope _ name parent hparent ih =>
    obtain ⟨hs, rfl⟩ := ih
    exact ⟨hs.openScope name hparent, (view_openScope _ name parent).symm⟩
  | create _ symbol ih =>
    obtain ⟨hs, rfl⟩ := ih
    exact ⟨hs.create symbol, (hs.view_create symbol).symm⟩
  | insert _ hi hsymbol hn ih =>
    obtain ⟨hs, rfl⟩ := ih
    refine ⟨hs.insert hi hsymbol hn, ?_⟩
    rcases hs.insert_cases hi hsymbol hn with ⟨_, hrefused, htree⟩ | ⟨_, _, htree⟩
    · rw [hrefused, htree]
      rfl
    · rw [htree]
      rfl

/-- Whatever is done, the scopes stay in order, and their levels count the scopes around them. A
look-up finds the symbol of the nearest scope that has the name. A refused insertion changes
nothing, and any other one only the look-ups from its scope and from those inside it. -/
theorem scope_trees_stay_in_order {t : ScopeTree} (h : Runs s t) :
    t = s.view ∧
    (∀ (i : Nat) (scope : IndexedScope), s.scopes[i]? = some scope →
      scope.InOrder s.symbols ∧
      (scope.node s.symbols).scope.symbols.map Symbol.name = scope.order ∧
      (∀ symbol ∈ (scope.node s.symbols).scope.symbols, symbol.level = scope.level) ∧
      ∃ ancestors : List Nat, s.Path i (i :: ancestors) ∧ scope.level = 1 + ancestors.length ∧
        ∀ x, (∀ symbol, t.lookup i x = .ok symbol ↔
            ∃ n, s.Nearest (i :: ancestors) x n ∧ s.symbols[n]? = some symbol) ∧
          (t.lookup i x = .error .notFound ↔ ∀ j ∈ i :: ancestors, s.find? j x = none)) ∧
    ∀ (i n : Nat) (symbol : Symbol), i < s.scopes.length → s.symbols[n]? = some symbol →
      s.Unplaced n →
      ((s.find? i symbol.name ≠ none ∧ s.insert i n = (some .alreadyDefined, s) ∧
          t.insert i symbol = .error .alreadyDefined) ∨
        (s.find? i symbol.name = none ∧ (s.insert i n).1 = none ∧
          t.insert i symbol = .ok (s.insert i n).2.view)) ∧
      ∀ (j : Nat) (path : List Nat) (x : String), s.Path j path → i ∉ path →
        (s.insert i n).2.view.lookup j x = t.lookup j x := by
  obtain ⟨hs, rfl⟩ := h.inOrder
  refine ⟨rfl, ?_, ?_⟩
  · intro i scope hscope
    have hin := hs.scopes scope (List.mem_of_getElem? hscope)
    obtain ⟨ancestors, hpath, hlevel⟩ := hs.exists_path hscope
    refine ⟨hin, hin.map_name_node, fun _ => hin.level_of_mem_node, ancestors, hpath, hlevel, ?_⟩
    intro x
    exact ⟨fun _ => hs.lookup_eq_ok_iff hpath, hs.lookup_eq_error_iff hpath⟩
  · intro i n symbol hi hsymbol hn
    refine ⟨hs.insert_cases hi hsymbol hn, ?_⟩
    intro j path x hpath hout
    exact hs.lookup_insert hi hsymbol hn hpath hout

/-- An inner variable hides an outer one, and its scope refuses a third one of the name. -/
theorem scope_trees_stay_in_order_hidden :
    let x : Symbol := .variable { name := "x" }
    let outer := ((({} : ScopeStore).openScope "global" none).create x).insert 0 0
    let inner := ((outer.2.openScope "inner" (some 0)).create x).insert 1 1
    let s := inner.2.create x
    ∃ t, Runs s t ∧ s.Unplaced 2 ∧ t.lookup 1 "x" = .ok (x.atLevel 2) ∧
      s.insert 1 2 = (some .alreadyDefined, s) ∧ t.insert 1 x = .error .alreadyDefined ∧
      s.symbols[2]? = some x := by
  intro x outer inner s
  have hglobal : Runs (({} : ScopeStore).openScope "global" none) _ :=
    .openScope .start "global" none (by simp)
  have houter : Runs outer.2 _ :=
    .insert (hglobal.create x) Nat.one_pos rfl (hglobal.inOrder.1.unplaced_create x)
  have hnested : Runs (outer.2.openScope "inner" (some 0)) _ :=
    houter.openScope "inner" (some 0) (by decide)
  have hinner : Runs inner.2 _ :=
    .insert (hnested.create x) Nat.one_lt_two rfl (hnested.inOrder.1.unplaced_create x)
  have hrun := hinner.create x
  have hnew : s.Unplaced 2 := hinner.inOrder.1.unplaced_create x
  obtain ⟨_, hscopes, hinsert⟩ := scope_trees_stay_in_order hrun
  obtain ⟨_, _, _, ancestors, _, _, hlookup⟩ := hscopes 1 _ rfl
  obtain ⟨hcases, _⟩ := hinsert 1 2 x Nat.one_lt_two rfl hnew
  have hfound : s.find? 1 "x" = some 1 := rfl
  refine ⟨_, hrun, hnew, ?_, ?_⟩
  · apply ((hlookup "x").1 _).mpr
    exact ⟨1, ⟨[], 1, ancestors, rfl, hfound, by simp⟩, rfl⟩
  · rcases hcases with ⟨_, hrefused, htree⟩ | ⟨hnone, _⟩
    · exact ⟨hrefused, htree, rfl⟩
    · cases hnone.symm.trans hfound

end ScopeStore
end MiniPascal
