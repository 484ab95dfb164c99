import Mathlib.Data.List.Nodup
import MiniPascal.Resolution

/-!
# Chains of scopes

Scopes around a point have the levels of their depth, and every symbol has the level of its scope.
Inserting symbols with new names appends them to the innermost scope. A name then stands for the
appended symbol, and other names for what they stood for before.
-/
namespace MiniPascal

def Param.symbols (level : Int) (params : List Param) : List Symbol :=
  params.map fun p => .variable (.declared level p.name p.type)

namespace Decl

def procedureSymbols (level : Int) : List Decl → List Symbol
  | [] => []
  | .variable .. :: rest => procedureSymbols level rest
  | .procedure name params block :: rest =>
    .procedure (.declared level name params block) :: procedureSymbols level rest

def variableSymbols (level : Int) : List Decl → List Symbol
  | [] => []
  | .variable name type :: rest =>
    .variable (.declared level name type) :: variableSymbols level rest
  | .procedure .. :: rest => variableSymbols level rest

theorem symbols_perm (level : Int) (decls : List Decl) :
    ((procedureSymbols level decls ++ variableSymbols level decls).map Symbol.name).Perm
      (decls.map fun d => d.name.name) := by
  induction decls with
  | nil => exact .nil
  | cons d rest ih =>
    match d with
    | .variable name type =>
      simp only [procedureSymbols, variableSymbols, List.map_append, List.map_cons] at ih ⊢
      exact List.perm_middle.trans (ih.cons _)
    | .procedure name params block => exact ih.cons _

theorem level_of_mem_procedureSymbols {level : Int} {decls : List Decl} {symbol : Symbol}
    (h : symbol ∈ procedureSymbols level decls) : symbol.level = level := by
  induction decls with
  | nil => cases h
  | cons d rest ih =>
    match d with
    | .variable name type => exact ih h
    | .procedure name params block =>
      rcases List.mem_cons.mp h with rfl | h
      · rfl
      · exact ih h

theorem level_of_mem_variableSymbols {level : Int} {decls : List Decl} {symbol : Symbol}
    (h : symbol ∈ variableSymbols level decls) : symbol.level = level := by
  induction decls with
  | nil => cases h
  | cons d rest ih =>
    match d with
    | .procedure name params block => exact ih h
    | .variable name type =>
      rcases List.mem_cons.mp h with rfl | h
      · rfl
      · exact ih h

end Decl

theorem Param.level_of_mem_symbols {level : Int} {params : List Param} {symbol : Symbol}
    (h : symbol ∈ symbols level params) : symbol.level = level := by
  obtain ⟨p, _, rfl⟩ := List.mem_map.mp h
  rfl

namespace Symbol

theorem atLevel_self (symbol : Symbol) : symbol.atLevel symbol.level = symbol := by
  cases symbol <;> rfl

@[simp] theorem name_atLevel (level : Int) (symbol : Symbol) :
    (symbol.atLevel level).name = symbol.name := by
  cases symbol <;> rfl

@[simp] theorem level_atLevel (level : Int) (symbol : Symbol) :
    (symbol.atLevel level).level = level := by
  cases symbol <;> rfl

end Symbol

namespace Scope

theorem find?_eq_none_iff {s : Scope} {name : String} :
    s.find? name = none ↔ name ∉ s.symbols.map Symbol.name := by
  simp only [find?, List.find?_eq_none, beq_iff_eq, List.mem_map, not_exists, not_and]

theorem mem_of_find? {s : Scope} {name : String} {symbol : Symbol}
    (h : s.find? name = some symbol) : symbol ∈ s.symbols ∧ symbol.name = name := by
  obtain ⟨hname, _⟩ := List.find?_eq_some_iff_append.mp h
  exact ⟨List.mem_of_find?_eq_some h, beq_iff_eq.mp hname⟩

theorem find?_of_mem {s : Scope} {symbol : Symbol} (hn : (s.symbols.map Symbol.name).Nodup)
    (h : symbol ∈ s.symbols) : s.find? symbol.name = some symbol := by
  cases hfind : s.find? symbol.name with
  | none => exact absurd (List.mem_map_of_mem h) (find?_eq_none_iff.mp hfind)
  | some found =>
    obtain ⟨hmem, hname⟩ := mem_of_find? hfind
    rw [List.inj_on_of_nodup_map hn hmem h hname]

/-- The levels of scopes, from the inside out, count down to one, and symbols have the level of
their scope. -/
def Leveled : List Scope → Prop
  | [] => True
  | s :: outer =>
    s.level = outer.length + 1 ∧ (∀ symbol ∈ s.symbols, symbol.level = s.level) ∧ Leveled outer

end Scope

namespace Scopes

variable {S : Scopes} {symbol : Symbol} {x : String}

def toList (S : Scopes) : List Scope := S.current :: S.enclosing

def Leveled (S : Scopes) : Prop := Scope.Leveled S.toList

def insertAll (S : Scopes) (symbols : List Symbol) : Scopes := symbols.foldl insert S

def append (S : Scopes) (symbols : List Symbol) : Scopes :=
  { S with current := { S.current with symbols := S.current.symbols ++ symbols } }

def Fresh (S : Scopes) (names : List String) : Prop :=
  names.Nodup ∧ ∀ x ∈ names, S.current.find? x = none

theorem append_nil (S : Scopes) : S.append [] = S := by
  simp only [append, List.append_nil]

theorem append_append (S : Scopes) (first second : List Symbol) :
    (S.append first).append second = S.append (first ++ second) := by
  simp only [append, List.append_assoc]

theorem find?_append_eq_none {symbols : List Symbol} :
    (S.append symbols).current.find? x = none ↔
      S.current.find? x = none ∧ x ∉ symbols.map Symbol.name := by
  simp only [Scope.find?_eq_none_iff, append, List.map_append, List.mem_append, not_or]

theorem Fresh.append (symbols : List Symbol) {names : List String}
    (h : S.Fresh (symbols.map Symbol.name ++ names)) : (S.append symbols).Fresh names := by
  obtain ⟨hnodup, hnone⟩ := h
  obtain ⟨_, hnames, hdisjoint⟩ := List.nodup_append.mp hnodup
  refine ⟨hnames, fun x hx => find?_append_eq_none.mpr ⟨hnone x (List.mem_append_right _ hx), ?_⟩⟩
  intro hx'
  exact hdisjoint x hx' x hx rfl

theorem Fresh.cons {names : List String} (hx : S.current.find? symbol.name = none)
    (h : (S.append [symbol]).Fresh names) : S.Fresh (symbol.name :: names) := by
  refine ⟨List.nodup_cons.mpr ⟨fun hmem => ?_, h.1⟩, List.forall_mem_cons.mpr ⟨hx, fun y hy => ?_⟩⟩
  · exact (find?_append_eq_none.mp (h.2 _ hmem)).2 (List.mem_singleton.mpr rfl)
  · exact (find?_append_eq_none.mp (h.2 y hy)).1

theorem Fresh.perm {names names' : List String} (h : S.Fresh names) (hp : names.Perm names') :
    S.Fresh names' :=
  ⟨hp.nodup_iff.mp h.1, fun x hx => h.2 x (hp.mem_iff.mpr hx)⟩

theorem Fresh.left {names names' : List String} (h : S.Fresh (names ++ names')) :
    S.Fresh names :=
  ⟨(List.nodup_append.mp h.1).1, fun x hx => h.2 x (List.mem_append_left _ hx)⟩

theorem Fresh.nodup_append {symbols : List Symbol} (h : S.Fresh (symbols.map Symbol.name))
    (hn : (S.current.symbols.map Symbol.name).Nodup) :
    ((S.append symbols).current.symbols.map Symbol.name).Nodup := by
  rw [Scopes.append, List.map_append, List.nodup_append]
  refine ⟨hn, h.1, ?_⟩
  rintro x hold _ hx rfl
  exact Scope.find?_eq_none_iff.mp (h.2 x hx) hold

theorem fresh_enter (name : String) {names : List String} :
    (S.enter name).Fresh names ↔ names.Nodup :=
  ⟨fun h => h.1, fun h => ⟨h, fun _ _ => rfl⟩⟩

theorem level_insert (S : Scopes) (symbol : Symbol) :
    (S.insert symbol).current.level = S.current.level := by
  unfold insert Scope.insert?
  cases S.current.find? symbol.name <;> rfl

theorem insert_eq_append (hx : S.current.find? symbol.name = none)
    (hl : symbol.level = S.current.level) : S.insert symbol = S.append [symbol] := by
  have h : S.current.insert? symbol =
      some { S.current with symbols := S.current.symbols ++ [symbol] } := by
    simp only [Scope.insert?, hx]
    rw [← hl, Symbol.atLevel_self]
  rw [insert, h]
  rfl

theorem insertAll_eq_append {symbols : List Symbol} (hf : S.Fresh (symbols.map Symbol.name))
    (hl : ∀ symbol ∈ symbols, symbol.level = S.current.level) :
    S.insertAll symbols = S.append symbols := by
  unfold insertAll
  induction symbols generalizing S with
  | nil => rw [List.foldl_nil, append_nil]
  | cons symbol rest ih =>
    obtain ⟨hsymbol, hrest⟩ := List.forall_mem_cons.mp hl
    rw [List.foldl_cons, insert_eq_append (hf.2 _ List.mem_cons_self) hsymbol, ih, append_append]
    · rfl
    · exact Fresh.append [symbol] hf
    · exact hrest

theorem lookup_append_of_ne (h : symbol.name ≠ x) : (S.append [symbol]).lookup x = S.lookup x := by
  have hfind : (S.append [symbol]).current.find? x = S.current.find? x := by
    simp only [append, Scope.find?, List.find?_append]
    rw [List.find?_singleton, if_neg (by simpa using h), Option.or_none]
  simp only [lookup, List.findSome?_cons, hfind]
  rfl

theorem lookup_append_self (h : S.current.find? symbol.name = none) :
    (S.append [symbol]).lookup symbol.name = some symbol := by
  have hfind : (S.append [symbol]).current.find? symbol.name = some symbol := by
    simp only [append, Scope.find?, List.find?_append]
    rw [Scope.find?] at h
    rw [h, Option.none_or, List.find?_singleton, if_pos (by simp)]
  simp only [lookup, List.findSome?_cons, hfind]

/-- New symbols are found before those of the scopes further out. -/
theorem lookup_append {symbols : List Symbol}
    (h : ∀ y ∈ symbols.map Symbol.name, S.current.find? y = none) :
    (S.append symbols).lookup x =
      (symbols.find? fun symbol => symbol.name == x).or (S.lookup x) := by
  have hfind : (S.append symbols).current.find? x =
      (S.current.find? x).or (symbols.find? fun symbol => symbol.name == x) :=
    List.find?_append
  simp only [lookup, List.findSome?_cons, hfind]
  cases hx : symbols.find? fun symbol => symbol.name == x with
  | none =>
    rw [Option.or_none, Option.none_or]
    rfl
  | some symbol =>
    have hname : symbol.name = x := by simpa using List.find?_some hx
    have hnone := h x (hname ▸ List.mem_map_of_mem (List.mem_of_find?_eq_some hx))
    rw [hnone, Option.none_or, Option.some_or]

theorem lookup_insert_of_ne (h : symbol.name ≠ x) : (S.insert symbol).lookup x = S.lookup x := by
  unfold insert Scope.insert?
  cases S.current.find? symbol.name with
  | some found => rfl
  | none =>
    apply lookup_append_of_ne
    rw [Symbol.name_atLevel]
    exact h

theorem name_of_lookup (h : S.lookup x = some symbol) : symbol.name = x := by
  obtain ⟨s, _, hs⟩ := List.exists_of_findSome?_eq_some h
  exact (Scope.mem_of_find? hs).2

/-- Where there is only one scope, it holds what a name stands for. -/
theorem mem_of_lookup (hS : S.enclosing = []) (h : S.lookup x = some symbol) :
    symbol ∈ S.current.symbols := by
  obtain ⟨s, hs, hfind⟩ := List.exists_of_findSome?_eq_some h
  rw [hS, List.mem_singleton] at hs
  subst hs
  exact (Scope.mem_of_find? hfind).1

theorem lookup_of_mem (hn : (S.current.symbols.map Symbol.name).Nodup)
    (h : symbol ∈ S.current.symbols) : S.lookup symbol.name = some symbol := by
  simp only [lookup, List.findSome?_cons, Scope.find?_of_mem hn h]

theorem Leveled.current_level (h : S.Leveled) : S.current.level = S.enclosing.length + 1 := h.1

theorem Leveled.enter (h : S.Leveled) (name : String) : (S.enter name).Leveled := by
  refine ⟨?_, ?_, h⟩
  · simp only [Scopes.enter, h.current_level, List.length_cons]
    omega
  · intro symbol hs
    cases hs

theorem Leveled.append (h : S.Leveled) {symbols : List Symbol}
    (hl : ∀ symbol ∈ symbols, symbol.level = S.current.level) : (S.append symbols).Leveled :=
  ⟨h.1, List.forall_mem_append.mpr ⟨h.2.1, hl⟩, h.2.2⟩

theorem Leveled.insert (h : S.Leveled) (symbol : Symbol) : (S.insert symbol).Leveled := by
  unfold Scopes.insert Scope.insert?
  cases S.current.find? symbol.name with
  | some found => exact h
  | none =>
    have hl : ∀ symbol' ∈ [symbol.atLevel S.current.level], symbol'.level = S.current.level := by
      intro symbol' hs
      rw [List.mem_singleton.mp hs, Symbol.level_atLevel]
    exact h.append hl

end Scopes

theorem Scope.Leveled.level_le {scopes : List Scope} (h : Leveled scopes) {x : String}
    {symbol : Symbol} (hx : scopes.findSome? (fun s => s.find? x) = some symbol) :
    symbol.level ≤ scopes.length := by
  induction scopes with
  | nil => cases hx
  | cons s outer ih =>
    obtain ⟨hs, hsymbols, houter⟩ := h
    rw [List.findSome?_cons] at hx
    rw [List.length_cons]
    split at hx
    · next found hfind =>
      cases hx
      rw [hsymbols _ (mem_of_find? hfind).1, hs]
      omega
    · have := ih houter hx
      omega

/-- A symbol of level one is found in the outermost scope, and no scope further in has its name. -/
theorem Scope.Leveled.exists_outermost {scopes : List Scope} (h : Leveled scopes) {x : String}
    {symbol : Symbol} (hx : scopes.findSome? (fun s => s.find? x) = some symbol)
    (hl : symbol.level = 1) :
    ∃ inner outermost, scopes = inner ++ [outermost] ∧ (∀ s ∈ inner, s.find? x = none) ∧
      outermost.find? x = some symbol := by
  induction scopes with
  | nil => cases hx
  | cons s outer ih =>
    obtain ⟨hs, hsymbols, houter⟩ := h
    rw [List.findSome?_cons] at hx
    cases hfind : s.find? x with
    | some found =>
      rw [hfind] at hx
      cases hx
      have hlevel := hsymbols _ (mem_of_find? hfind).1
      have hlength : outer.length = 0 := by omega
      rw [List.length_eq_zero_iff] at hlength
      subst hlength
      exact ⟨[], s, rfl, List.forall_mem_nil _, hfind⟩
    | none =>
      rw [hfind] at hx
      obtain ⟨inner, outermost, rfl, hinner, hfound⟩ := ih houter hx
      exact ⟨s :: inner, outermost, rfl, List.forall_mem_cons.mpr ⟨hfind, hinner⟩, hfound⟩

/-- What a name stands for is declared at the current level or further out. -/
theorem Scopes.Leveled.lookup_level_le {S : Scopes} (h : S.Leveled) {x : String} {symbol : Symbol}
    (hx : S.lookup x = some symbol) : symbol.level ≤ S.current.level := by
  have hle := Scope.Leveled.level_le h hx
  rw [h.current_level]
  exact hle

end MiniPascal
