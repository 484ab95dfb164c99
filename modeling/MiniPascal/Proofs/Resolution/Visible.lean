import MiniPascal.Proofs.Resolution
import MiniPascal.Proofs.Syntax.Names

/-!
# Visible declarations

The program and its procedures are its routines. In the block of a routine all procedures of the
block are visible, the variables declared so far, the parameters of the routine, and what was
visible where the routine is declared.

The scopes of the resolver show the visible declarations: a name stands for the symbol of its
innermost visible declaration, and the names of the built-in types, which nothing declares, stand
for these types.
-/
namespace MiniPascal

def Param.decl (p : Param) : Decl := .variable p.name p.type

namespace Decl

def isProcedure : Decl → Bool
  | .procedure .. => true
  | .variable .. => false

def isVariable (d : Decl) : Bool := !d.isProcedure

/-- What is visible in a block behind the declarations `before`. The declarations of the routine
itself come before those around it. -/
def visible (outer : List Decl) (params : List Param) (decls before : List Decl) : List Decl :=
  (decls.filter isProcedure ++ before.filter isVariable) ++ (params.map Param.decl ++ outer)

def innermost? (visible : List Decl) (x : String) : Option Decl :=
  visible.find? fun d => d.name.name == x

def symbol (level : Int) : Decl → Symbol
  | .variable name type => .variable (.declared level name type)
  | .procedure name params block => .procedure (.declared level name params block)

theorem name_symbol (level : Int) (d : Decl) : (d.symbol level).name = d.name.name := by
  cases d <;> rfl

theorem map_name_symbol (level : Int) (ds : List Decl) :
    (ds.map (symbol level)).map Symbol.name = ds.map fun d => d.name.name := by
  rw [List.map_map]
  exact List.map_congr_left fun d _ => d.name_symbol level

theorem procedureSymbols_eq (level : Int) (decls : List Decl) :
    procedureSymbols level decls = (decls.filter isProcedure).map (symbol level) := by
  induction decls with
  | nil => rfl
  | cons d rest ih =>
    rcases d with ⟨name, type⟩ | ⟨name, params, block⟩
    · exact ih
    · exact congrArg (_ :: ·) ih

theorem variableSymbols_eq (level : Int) (decls : List Decl) :
    variableSymbols level decls = (decls.filter isVariable).map (symbol level) := by
  induction decls with
  | nil => rfl
  | cons d rest ih =>
    rcases d with ⟨name, type⟩ | ⟨name, params, block⟩
    · exact congrArg (_ :: ·) ih
    · exact ih

theorem find?_symbol (level : Int) (ds : List Decl) (x : String) :
    (ds.map (symbol level)).find? (fun symbol => symbol.name == x) =
      (innermost? ds x).map (symbol level) := by
  rw [List.find?_map, innermost?]
  simp only [Function.comp_def, name_symbol]

end Decl

theorem Param.symbols_eq (level : Int) (params : List Param) :
    Param.symbols level params = (params.map Param.decl).map (Decl.symbol level) := by
  rw [List.map_map]
  rfl

/-- What a name stands for in some scopes is its innermost visible declaration; names that are not
declared can be built in. -/
inductive Decl.Shown : Option Decl → Option Symbol → Prop
  | declared (d : Decl) (level : Int) : Shown (some d) (some (d.symbol level))
  | builtin (name : String) (level : Int) : Shown none (some (.builtinType name level))
  | nothing : Shown none none

namespace Decl.Shown

variable {d : Option Decl} {symbol : Option Symbol}

theorem variable_iff (h : Shown d symbol) :
    (∃ name type, d = some (.variable name type)) ↔ ∃ v, symbol = some (.variable v) := by
  cases h with
  | declared d level => cases d <;> simp [Decl.symbol]
  | builtin | nothing => simp

theorem procedure_iff (h : Shown d symbol) (arity : Nat) :
    (∃ name params block, d = some (.procedure name params block) ∧ arity = params.length) ↔
      ∃ p : Procedure, symbol = some (.procedure p) ∧ arity = p.params.length := by
  cases h with
  | declared d level => cases d <;> simp [Decl.symbol, Procedure.declared]
  | builtin | nothing => simp

end Decl.Shown

namespace Scopes

variable {S : Scopes} {visible : List Decl} {outer : List Decl} {params : List Param}

def KnowsTypes (S : Scopes) : Prop :=
  ∀ symbol ∈ globals.current.symbols, S.lookup symbol.name = some symbol

theorem isBuiltin_of_mem_globals {symbol : Symbol} (h : symbol ∈ globals.current.symbols) :
    IsBuiltin symbol.name := by
  have hnames : globals.current.symbols.map Symbol.name = Resolver.builtins.map Symbol.name := rfl
  rw [IsBuiltin, ← hnames]
  exact List.mem_map_of_mem h

theorem KnowsTypes.insert (h : S.KnowsTypes) {symbol : Symbol} (hname : ¬ IsBuiltin symbol.name) :
    (S.insert symbol).KnowsTypes := by
  intro type htype
  have hne : symbol.name ≠ type.name := by
    intro heq
    rw [heq] at hname
    exact hname (isBuiltin_of_mem_globals htype)
  rw [lookup_insert_of_ne hne]
  exact h type htype

theorem KnowsTypes.lookup_type (h : S.KnowsTypes) {t : Token}
    (ht : t.kind.isBasicType = true) :
    S.lookup t.kind.text = some (.builtinType t.kind.text 1) := by
  rw [Kind.isBasicType, Bool.or_eq_true, beq_iff_eq, beq_iff_eq] at ht
  rcases ht with ht | ht
  · rw [ht]
    exact h _ List.mem_cons_self
  · rw [ht]
    exact h _ (List.mem_cons_of_mem _ List.mem_cons_self)

structure Shows (S : Scopes) (visible : List Decl) : Prop where
  lookup : ∀ x, Decl.Shown (Decl.innermost? visible x) (S.lookup x)
  types : S.KnowsTypes

theorem Shows.append (h : S.Shows visible) {more : List Decl} (level : Int)
    (hfresh : S.Fresh (more.map fun d => d.name.name))
    (hnames : ∀ d ∈ more, ¬ IsBuiltin d.name.name) :
    (S.append (more.map (Decl.symbol level))).Shows (more ++ visible) := by
  have hlookup (x : String) : (S.append (more.map (Decl.symbol level))).lookup x =
      ((Decl.innermost? more x).map (Decl.symbol level)).or (S.lookup x) := by
    rw [lookup_append, Decl.find?_symbol]
    rw [Decl.map_name_symbol]
    exact hfresh.2
  constructor
  · intro x
    rw [hlookup, Decl.innermost?, List.find?_append]
    cases hx : more.find? fun d => d.name.name == x with
    | some d =>
      rw [Decl.innermost?, hx]
      exact .declared d level
    | none =>
      rw [Decl.innermost?, hx]
      exact h.lookup x
  · intro type htype
    have hnone : Decl.innermost? more type.name = none := by
      refine List.find?_eq_none.mpr fun d hd heq => hnames d hd ?_
      rw [beq_iff_eq.mp heq]
      exact isBuiltin_of_mem_globals htype
    rw [hlookup, hnone]
    exact h.types type htype

theorem Shows.enter (h : S.Shows visible) (name : String) : (S.enter name).Shows visible :=
  ⟨h.lookup, h.types⟩

/-- The scopes at the beginning of the block of a routine. Beside its parameters only the built-in
types can be in the innermost scope, if that is the scope of the program. -/
structure Opens (S : Scopes) (outer : List Decl) (params : List Param) : Prop where
  shows : S.Shows (params.map Param.decl ++ outer)
  distinct : (params.map fun p => p.name.name).Nodup
  current : ∀ x, ¬ IsBuiltin x → (S.current.find? x = none ↔ x ∉ params.map fun p => p.name.name)

theorem opens_inside (h : S.Shows visible) (name : Token)
    (hdistinct : (params.map fun p => p.name.name).Nodup)
    (hnames : ∀ p ∈ params, ¬ IsBuiltin p.name.name) :
    (S.inside name params).Opens visible params := by
  have hmap : (params.map Param.decl).map (fun d => d.name.name) =
      params.map fun p => p.name.name := by
    rw [List.map_map]
    rfl
  rw [inside_eq_append name hdistinct, Param.symbols_eq]
  refine ⟨?_, hdistinct, fun x _ => ?_⟩
  · refine (h.enter name.name).append _ ?_ ?_
    · rw [hmap]
      exact (fresh_enter _).mpr hdistinct
    · rintro d hd
      obtain ⟨p, hp, rfl⟩ := List.mem_map.mp hd
      exact hnames p hp
  · rw [find?_append_eq_none, Decl.map_name_symbol, hmap]
    exact and_iff_right rfl

theorem opens_globals : globals.Opens [] [] := by
  refine ⟨⟨fun x => ?_, ?_⟩, List.nodup_nil, fun x hx => ?_⟩
  · cases hx : globals.lookup x with
    | none => exact .nothing
    | some symbol =>
      obtain ⟨name, level, rfl⟩ := builtin_of_mem_globals (mem_of_lookup rfl hx)
      exact .builtin name level
  · intro symbol hsymbol
    exact lookup_of_mem (by decide) hsymbol
  · exact iff_of_true (Scope.find?_eq_none_iff.mpr hx) List.not_mem_nil

theorem Opens.fresh_iff (h : S.Opens outer params) {decls : List Decl}
    (hnames : ∀ d ∈ decls, ¬ IsBuiltin d.name.name) :
    S.Fresh (decls.map fun d => d.name.name) ↔
      (params.map (fun p => p.name.name) ++ decls.map fun d => d.name.name).Nodup := by
  have hcurrent (x : String) (hx : x ∈ decls.map fun d => d.name.name) :
      S.current.find? x = none ↔ x ∉ params.map fun p => p.name.name := by
    obtain ⟨d, hd, rfl⟩ := List.mem_map.mp hx
    exact h.current _ (hnames d hd)
  rw [List.nodup_append]
  constructor
  · rintro ⟨hnodup, hnone⟩
    refine ⟨h.distinct, hnodup, ?_⟩
    rintro x hparam _ hx rfl
    exact (hcurrent x hx).mp (hnone x hx) hparam
  · rintro ⟨_, hnodup, hdisjoint⟩
    exact ⟨hnodup, fun x hx => (hcurrent x hx).mpr fun hparam => hdisjoint x hparam x hx rfl⟩

/-- Behind some declarations of a block the innermost scope has its procedures and then the
variables among these declarations, all with new names. -/
theorem declared_behind {decls before after : List Decl} (hdecls : decls = before ++ after)
    (hfresh : S.Fresh (decls.map fun d => d.name.name)) :
    let more := decls.filter Decl.isProcedure ++ before.filter Decl.isVariable
    S.Fresh (more.map fun d => d.name.name) ∧
      before.foldl declare (S.withProcedures decls) =
        S.append (more.map (Decl.symbol S.current.level)) := by
  intro more
  have hperm : (more ++ after.filter Decl.isVariable).Perm decls := by
    rw [List.append_assoc, ← List.filter_append, ← hdecls]
    exact List.filter_append_perm Decl.isProcedure decls
  have hmore : S.Fresh (more.map fun d => d.name.name) := by
    have hall := hfresh.perm (hperm.map _).symm
    rw [List.map_append] at hall
    exact hall.left
  have hvariables : (S.append (Decl.procedureSymbols S.current.level decls)).Fresh
      ((Decl.variableSymbols S.current.level before).map Symbol.name) := by
    have hnew := hmore
    rw [List.map_append, ← Decl.map_name_symbol S.current.level, ← Decl.procedureSymbols_eq,
      ← Decl.map_name_symbol S.current.level (before.filter _), ← Decl.variableSymbols_eq] at hnew
    exact hnew.append
  refine ⟨hmore, ?_⟩
  rw [withProcedures_eq_append hfresh, foldl_declare_eq_append hvariables, append_append,
    List.map_append, ← Decl.procedureSymbols_eq, ← Decl.variableSymbols_eq]
  rfl

/-- Behind some declarations of a block the scopes show what is visible there. -/
theorem Opens.shows_behind (h : S.Opens outer params) {decls before after : List Decl}
    (hdecls : decls = before ++ after) (hnames : ∀ d ∈ decls, ¬ IsBuiltin d.name.name)
    (hfresh : S.Fresh (decls.map fun d => d.name.name)) :
    (before.foldl declare (S.withProcedures decls)).Shows
      (Decl.visible outer params decls before) := by
  obtain ⟨hmore, hscopes⟩ := declared_behind hdecls hfresh
  rw [hscopes]
  refine h.shows.append _ hmore fun d hd => hnames d ?_
  rcases List.mem_append.mp hd with hd | hd
  · exact (List.mem_filter.mp hd).1
  · rw [hdecls]
    exact List.mem_append_left _ (List.mem_filter.mp hd).1

end Scopes

end MiniPascal
