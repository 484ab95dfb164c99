import Mathlib.Data.List.Forall2
import Mathlib.Data.List.Nodup
import MiniPascal.Proofs.CallStack
import MiniPascal.Proofs.Resolution
import MiniPascal.Proofs.Semantics

/-!
# How records represent a store

Each location has an owner: a record and a symbol that the routine of the record declares. A
variable of a record has the value that is at its location, and a procedure is at its location as a
closure over an environment that matches the scopes at its declaration.

An environment matches scopes, seen from a record, if each name is bound to the location of the
symbol that it stands for, in the record at the level of that symbol on the static chain. This is
kept when a record is entered, when declarations are elaborated, and when a variable is assigned.
-/
namespace MiniPascal

namespace Bindings

variable {b : Bindings} {x y : String} {v : Value}

theorem get?_set_self (b : Bindings) (x : String) (v : Value) : (b.set x v).get? x = some v := by
  unfold get?
  induction b with
  | nil => simp only [set, List.lookup_cons_self]
  | cons entry rest ih =>
    obtain ⟨n, w⟩ := entry
    by_cases hn : n = x
    · rw [set, if_pos hn, hn, List.lookup_cons_self]
    · have hx : (x == n) = false := beq_eq_false_iff_ne.mpr (Ne.symm hn)
      rw [set, if_neg hn, List.lookup_cons, hx, ih]

theorem get?_set_of_ne (b : Bindings) (v : Value) (h : y ≠ x) : (b.set x v).get? y = b.get? y := by
  unfold get?
  induction b with
  | nil =>
    have hy : (y == x) = false := beq_eq_false_iff_ne.mpr h
    rw [set, List.lookup_cons, hy]
  | cons entry rest ih =>
    obtain ⟨n, w⟩ := entry
    by_cases hn : n = x
    · have hy : (y == n) = false := beq_eq_false_iff_ne.mpr (hn ▸ h)
      rw [set, if_pos hn, List.lookup_cons, List.lookup_cons, hy]
    · rw [set, if_neg hn, List.lookup_cons, List.lookup_cons, ih]

theorem get?_foldl_set_of_not_mem {items : List (String × Value)} (h : x ∉ items.map Prod.fst) :
    (items.foldl (fun b (name, value) => set name value b) b).get? x = b.get? x := by
  induction items generalizing b with
  | nil => rfl
  | cons item rest ih =>
    rw [List.map_cons, List.mem_cons, not_or] at h
    rw [List.foldl_cons, ih h.2]
    exact get?_set_of_ne b item.2 h.1

/-- Each of some different names has the value that stands beside it. -/
theorem get?_ofList_of_mem {items : List (String × Value)} (hn : (items.map Prod.fst).Nodup)
    (h : (x, v) ∈ items) : (ofList items).get? x = some v := by
  unfold ofList
  suffices ∀ b, (items.foldl (fun b (name, value) => set name value b) b).get? x = some v from
    this []
  intro b
  induction items generalizing b with
  | nil => cases h
  | cons item rest ih =>
    obtain ⟨hitem, hrest⟩ := List.nodup_cons.mp hn
    rw [List.foldl_cons]
    rcases List.mem_cons.mp h with rfl | h
    · rw [get?_foldl_set_of_not_mem hitem]
      exact get?_set_self b x v
    · exact ih hrest h _

theorem get?_ofList_of_not_mem {items : List (String × Value)} (h : x ∉ items.map Prod.fst) :
    (ofList items).get? x = none :=
  get?_foldl_set_of_not_mem h

end Bindings

namespace Semantics

/-- The owner of each location: a record and a symbol that its routine declares. -/
abbrev Owners := List (Nat × Symbol)

structure Matches (own : Owners) (s : CallStack) (S : Scopes) (id : Nat) (env : Environment) :
    Prop where
  leveled : S.Leveled
  current : ∃ record, s.get? id = some record ∧ record.level = S.current.level
  bound : ∀ x symbol, S.lookup x = some symbol →
    (∀ name level, symbol ≠ .builtinType name level) → ∃ l, env.lookup x = some l
  found : ∀ x l, env.lookup x = some l → ∃ symbol owner, S.lookup x = some symbol ∧
    s.enclosing id symbol.level = some owner ∧ own[l]? = some (owner, symbol)

def memberCell (record : Record) (x : String) : Cell :=
  match record.members.get? x with
  | some v => .value v
  | none => .unwritten

def Represents (r : Resolution) (own : Owners) (s : CallStack) (id : Nat) (record : Record) :
    Symbol → Cell → Prop
  | .variable v, cell => cell = memberCell record v.name
  | .procedure q, cell => ∃ (S : Scopes) (name : Token) (params : List Param) (block : Block)
      (env : Environment), cell = .closure params block env ∧
      q = .declared S.current.level name params block ∧ Matches own s S id env ∧
      (Decl.procedure name params block).Resolved r S ∧ ∀ node ∈ block.nodes, node.Known
  | _, _ => False

def Holds (r : Resolution) (own : Owners) (s : CallStack) (owner : Nat × Symbol) (cell : Cell) :
    Prop :=
  ∃ record, s.get? owner.1 = some record ∧ Represents r own s owner.1 record owner.2 cell

structure Simulates (r : Resolution) (own : Owners) (s : CallStack) (σ : Store) : Prop where
  cells : List.Forall₂ (Holds r own s) own σ
  nodup : (own.map fun owner => (owner.1, owner.2.name)).Nodup
  members : ∀ id record x v, s.get? id = some record → record.members.get? x = some v →
    ∃ u, (id, .variable u) ∈ own ∧ u.name = x

/-- The innermost record, seen in the scopes of its routine, represents an environment and a
store. -/
structure Mirrors (r : Resolution) (own : Owners) (s : CallStack) (S : Scopes) (id : Nat)
    (env : Environment) (σ : Store) : Prop where
  store : Simulates r own s σ
  top : s.top? = some id
  environment : Matches own s S id env
  owned : ∀ symbol, (id, symbol) ∈ own → symbol ∈ S.current.symbols

section

variable {r : Resolution} {own own' : Owners} {s s' : CallStack} {S : Scopes} {id j : Nat}
  {env : Environment} {σ : Store} {record : Record} {symbol : Symbol} {cell : Cell}

theorem getElem?_of_isPrefix {α : Type} {front l : List α} (h : front <+: l) {i : Nat} {a : α}
    (ha : front[i]? = some a) : l[i]? = some a := by
  obtain ⟨back, rfl⟩ := h
  rw [List.getElem?_append_left (List.getElem?_eq_some_iff.mp ha).1]
  exact ha

theorem Matches.mono (h : Matches own s S id env) (hown : own <+: own') (hs : s.Extends s') :
    Matches own' s' S id env := by
  refine ⟨h.leveled, ?_, h.bound, fun x l hx => ?_⟩
  · obtain ⟨record, hr, hl⟩ := h.current
    obtain ⟨members, hm⟩ := hs id record hr
    exact ⟨_, hm, hl⟩
  · obtain ⟨symbol, owner, hsymbol, howner, ho⟩ := h.found x l hx
    exact ⟨symbol, owner, hsymbol, hs.enclosing howner, getElem?_of_isPrefix hown ho⟩

/-- The location of what a name stands for. -/
theorem Matches.location (h : Matches own s S id env) {x : String} (hx : S.lookup x = some symbol)
    (hsymbol : ∀ name level, symbol ≠ .builtinType name level) :
    ∃ owner l, s.enclosing id symbol.level = some owner ∧ env.lookup x = some l ∧
      own[l]? = some (owner, symbol) := by
  obtain ⟨l, hl⟩ := h.bound x symbol hx hsymbol
  obtain ⟨found, owner, hfound, howner, ho⟩ := h.found x l hl
  obtain rfl : symbol = found := Option.some.inj (hx.symm.trans hfound)
  exact ⟨owner, l, howner, hl, ho⟩

theorem Matches.enclosing_of_mem (h : Matches own s S id env) (hs : symbol ∈ S.current.symbols) :
    s.enclosing id symbol.level = some id := by
  obtain ⟨record, hr, hlevel⟩ := h.current
  exact CallStack.enclosing_self hr (hlevel.trans (h.leveled.2.1 symbol hs).symm)

/-- A new symbol of the record itself. -/
theorem Matches.insert {l : Nat} (h : Matches own s S id env)
    (hnew : S.current.find? symbol.name = none) (hlevel : symbol.level = S.current.level)
    (hl : own[l]? = some (id, symbol)) :
    Matches own s (S.append [symbol]) id ((symbol.name, l) :: env) := by
  refine ⟨h.leveled.append (List.forall_mem_singleton.mpr hlevel), h.current, ?_, ?_⟩
  · intro x found hx hfound
    by_cases hname : x = symbol.name
    · exact ⟨l, by rw [hname, List.lookup_cons_self]⟩
    · rw [Scopes.lookup_append_of_ne (Ne.symm hname)] at hx
      rw [List.lookup_cons, beq_eq_false_iff_ne.mpr hname]
      exact h.bound x found hx hfound
  · intro x l' hx
    by_cases hname : x = symbol.name
    · subst hname
      rw [List.lookup_cons_self] at hx
      cases hx
      obtain ⟨record, hr, hlevel'⟩ := h.current
      exact ⟨symbol, id, Scopes.lookup_append_self hnew,
        CallStack.enclosing_self hr (hlevel'.trans hlevel.symm), hl⟩
    · rw [Scopes.lookup_append_of_ne (Ne.symm hname)]
      rw [List.lookup_cons, beq_eq_false_iff_ne.mpr hname] at hx
      exact h.found x l' hx

theorem Matches.bindFrom {first : Nat} {symbols : List Symbol} (h : Matches own s S id env)
    (hfresh : S.Fresh (symbols.map Symbol.name))
    (hlevel : ∀ symbol ∈ symbols, symbol.level = S.current.level)
    (hown : ∀ i symbol, symbols[i]? = some symbol → own[first + i]? = some (id, symbol)) :
    Matches own s (S.append symbols) id (bindFrom first (symbols.map Symbol.name) env) := by
  induction symbols generalizing S env first with
  | nil =>
    rw [Scopes.append_nil]
    exact h
  | cons symbol rest ih =>
    obtain ⟨hsymbol, hrest⟩ := List.forall_mem_cons.mp hlevel
    have hfirst := h.insert (hfresh.2 _ List.mem_cons_self) hsymbol (hown 0 symbol rfl)
    have hothers := ih hfirst (Scopes.Fresh.append [symbol] hfresh) hrest fun i found hi => by
      rw [Nat.add_assoc, Nat.add_comm 1 i]
      exact hown (i + 1) found hi
    rw [Scopes.append_append] at hothers
    exact hothers

/-- The scopes inside a procedure, seen from a record that is linked to the record outside. -/
theorem Matches.enter (h : Matches own s S j env) (hs : s.Extends s')
    (hrecord : s'.get? id = some record) (hlink : record.link = some j) (hj : j < id)
    (hlevel : record.level = S.current.level + 1) (name : String) :
    Matches own s' (S.enter name) id env := by
  refine ⟨h.leveled.enter name, ⟨record, hrecord, hlevel⟩, h.bound, fun x l hx => ?_⟩
  obtain ⟨symbol, owner, hsymbol, howner, ho⟩ := h.found x l hx
  have hle := h.leveled.lookup_level_le hsymbol
  refine ⟨symbol, owner, hsymbol, ?_, ho⟩
  rw [CallStack.enclosing_link hrecord (by omega) hlink hj]
  exact hs.enclosing howner

theorem Represents.mono (h : Represents r own s id record symbol cell) (hown : own <+: own')
    (hs : s.Extends s') : Represents r own' s' id record symbol cell := by
  match symbol with
  | .variable v => exact h
  | .procedure q =>
    obtain ⟨S, name, params, block, env, hcell, hq, hmatches, hrest⟩ := h
    exact ⟨S, name, params, block, env, hcell, hq, hmatches.mono hown hs, hrest⟩
  | .builtinType .. | .other .. => exact h.elim

theorem memberCell_eq_value {x : String} {v : Value} :
    memberCell record x = .value v ↔ record.members.get? x = some v := by
  unfold memberCell
  split
  · next w hw => rw [hw, Cell.value.injEq, Option.some.injEq]
  · next hnone =>
    rw [hnone]
    constructor
    · intro h
      cases h
    · intro h
      cases h

theorem Represents.get?_of_value {v : Value}
    (h : Represents r own s id record symbol (.value v)) :
    record.members.get? symbol.name = some v := by
  match symbol with
  | .variable u => exact memberCell_eq_value.mp (Eq.symm h)
  | .procedure q =>
    obtain ⟨S, name, params, block, env, hcell, _⟩ := h
    cases hcell
  | .builtinType .. | .other .. => exact h.elim

theorem Simulates.length_eq (h : Simulates r own s σ) : own.length = σ.length := h.cells.length_eq

theorem Simulates.exists_cell (h : Simulates r own s σ) {l : Nat}
    (hl : own[l]? = some (id, symbol)) :
    ∃ record cell, s.get? id = some record ∧ σ[l]? = some cell ∧
      Represents r own s id record symbol cell := by
  obtain ⟨hlt, hget⟩ := List.getElem?_eq_some_iff.mp hl
  have hlt' : l < σ.length := h.length_eq ▸ hlt
  obtain ⟨record, hr, hrep⟩ := h.cells.get hlt hlt'
  rw [List.get_eq_getElem, hget] at hr hrep
  exact ⟨record, σ[l], hr, List.getElem?_eq_getElem hlt', hrep⟩

/-- Two locations of a record with the same name are one. -/
theorem Simulates.location_unique (h : Simulates r own s σ) {l l' : Nat} {symbol' : Symbol}
    (hl : own[l]? = some (id, symbol)) (hl' : own[l']? = some (id, symbol'))
    (hname : symbol.name = symbol'.name) : l = l' := by
  have hlt : l < (own.map fun owner => (owner.1, owner.2.name)).length := by
    rw [List.length_map]
    exact (List.getElem?_eq_some_iff.mp hl).1
  refine (List.getElem?_inj hlt h.nodup).mp ?_
  rw [List.getElem?_map, List.getElem?_map, hl, hl', Option.map_some, Option.map_some, hname]

theorem memberCell_set_self (record : Record) (x : String) (v : Value) :
    memberCell (record.set x v) x = .value v := by
  simp only [memberCell, Record.set, Bindings.get?_set_self]

theorem memberCell_set_of_ne (record : Record) {x y : String} (v : Value) (h : y ≠ x) :
    memberCell (record.set x v) y = memberCell record y := by
  simp only [memberCell, Record.set, Bindings.get?_set_of_ne _ _ h]

theorem Represents.set (h : Represents r own s id record symbol cell) (hs : s.Extends s')
    {x : String} (v : Value) (hne : ∀ u, symbol = .variable u → u.name ≠ x) :
    Represents r own s' id (record.set x v) symbol cell := by
  match symbol with
  | .variable u =>
    have hcell : cell = memberCell record u.name := h
    rw [hcell, ← memberCell_set_of_ne record v (hne u rfl)]
    rfl
  | .procedure q =>
    have hq : Represents r own s id record (.procedure q) cell := h
    exact hq.mono (List.prefix_refl own) hs
  | .builtinType .. | .other .. => exact h.elim

/-- An assignment writes the location of its variable, and no other variable changes. -/
theorem Simulates.set (h : Simulates r own s σ) {l : Nat} {u : Variable}
    (hl : own[l]? = some (j, .variable u)) (v : Value) :
    Simulates r own (s.set j u.name v) (σ.set l (.value v)) := by
  have hext := CallStack.extends_set s j u.name v
  refine ⟨?_, h.nodup, ?_⟩
  · refine List.forall₂_of_length_eq_of_get (by rw [h.length_eq, List.length_set]) ?_
    intro i hi hi'
    have howni : own[i]? = some (own[i].1, own[i].2) := List.getElem?_eq_getElem hi
    obtain ⟨record, cell, hrecord, hcell, hrep⟩ := h.exists_cell howni
    by_cases hil : i = l
    · subst hil
      obtain ⟨rfl, hu⟩ := Prod.mk.inj (Option.some.inj (howni.symm.trans hl))
      refine ⟨record.set u.name v, ?_, ?_⟩
      · rw [List.get_eq_getElem, CallStack.get?_set, if_pos rfl, hrecord]
        rfl
      · rw [List.get_eq_getElem, List.get_eq_getElem, hu, List.getElem_set_self]
        exact (memberCell_set_self record u.name v).symm
    · have hsame : (σ.set l (.value v)).get ⟨i, hi'⟩ = cell := by
        rw [List.get_eq_getElem, List.getElem_set_ne (Ne.symm hil)]
        exact (List.getElem?_eq_some_iff.mp hcell).2
      rw [hsame]
      -- another location of the same record has another name
      by_cases hid : j = own[i].1
      · refine ⟨record.set u.name v, ?_, hrep.set hext v fun w hw hname => hil ?_⟩
        · rw [List.get_eq_getElem, CallStack.get?_set, if_pos hid, hrecord]
          rfl
        · rw [hid] at hl
          refine h.location_unique howni hl ?_
          rw [hw]
          exact hname
      · refine ⟨record, ?_, hrep.mono (List.prefix_refl own) hext⟩
        rw [List.get_eq_getElem, CallStack.get?_set, if_neg hid, hrecord]
  · intro id record x w hrecord hx
    rw [CallStack.get?_set] at hrecord
    split at hrecord
    · next hid =>
      subst hid
      obtain ⟨old, hold, rfl⟩ := Option.map_eq_some_iff.mp hrecord
      by_cases hname : x = u.name
      · exact ⟨u, List.mem_of_getElem? hl, hname.symm⟩
      · rw [Record.set, Bindings.get?_set_of_ne _ _ hname] at hx
        exact h.members _ old x w hold hx
    · exact h.members id record x w hrecord hx

theorem Simulates.lt_nextId (h : Simulates r own s σ) {owner : Nat × Symbol} (ho : owner ∈ own) :
    owner.1 < s.nextId := by
  obtain ⟨l, hl⟩ := List.mem_iff_getElem?.mp ho
  obtain ⟨record, _, hr, _⟩ := h.exists_cell hl
  exact CallStack.lt_nextId_of_get? hr

theorem Simulates.pop (h : Simulates r own s σ) : Simulates r own s.pop σ := by
  have hs : s.Extends s.pop := .refl s
  refine ⟨h.cells.imp ?_, h.nodup, h.members⟩
  rintro owner cell ⟨record, hrecord, hrep⟩
  exact ⟨record, hrecord, hrep.mono (List.prefix_refl own) hs⟩

/-- Symbols of one record are added at new locations. -/
theorem nodup_append_owners {symbols : List Symbol}
    (h : (own.map fun owner => (owner.1, owner.2.name)).Nodup)
    (hn : (symbols.map Symbol.name).Nodup)
    (hnew : ∀ symbol ∈ symbols, ∀ owner ∈ own, owner.1 = id → owner.2.name ≠ symbol.name) :
    ((own ++ symbols.map fun symbol => (id, symbol)).map fun owner =>
      (owner.1, owner.2.name)).Nodup := by
  rw [List.map_append, List.map_map, List.nodup_append]
  refine ⟨h, ?_, ?_⟩
  · have hmap : symbols.map ((fun owner : Nat × Symbol => (owner.1, owner.2.name)) ∘
        fun symbol => (id, symbol)) = (symbols.map Symbol.name).map fun name => (id, name) := by
      rw [List.map_map]
      rfl
    rw [hmap]
    exact List.Nodup.map (fun a b hab => (Prod.mk.inj hab).2) hn
  · rintro _ ho _ hs rfl
    obtain ⟨owner, howner, ho⟩ := List.mem_map.mp ho
    obtain ⟨symbol, hsymbol, hs⟩ := List.mem_map.mp hs
    obtain ⟨hid, hname⟩ := Prod.mk.inj (ho.trans hs.symm)
    exact hnew symbol hsymbol owner howner hid hname

/-- A new record has new locations for the variables that it starts with. -/
theorem Simulates.enter (h : Simulates r own s σ) {vars : List Variable} {cells : List Cell}
    (hcells : List.Forall₂ (fun u cell => cell = memberCell record u.name) vars cells)
    (hn : (vars.map Variable.name).Nodup)
    (hmembers : ∀ x v, record.members.get? x = some v → x ∈ vars.map Variable.name) :
    Simulates r (own ++ (vars.map Symbol.variable).map fun symbol => (s.nextId, symbol))
      (s.enter record) (σ ++ cells) := by
  have hprefix := List.prefix_append own
    ((vars.map Symbol.variable).map fun symbol => (s.nextId, symbol))
  have hext := CallStack.extends_enter s record
  refine ⟨List.rel_append (h.cells.imp ?_) ?_, nodup_append_owners h.nodup ?_ ?_, ?_⟩
  · rintro owner cell ⟨old, hold, hrep⟩
    refine ⟨old, ?_, hrep.mono hprefix hext⟩
    rw [CallStack.get?_enter_of_lt record (CallStack.lt_nextId_of_get? hold), hold]
  · rw [List.forall₂_map_left_iff, List.forall₂_map_left_iff]
    exact hcells.imp fun u cell hu => ⟨record, CallStack.get?_enter_self s record, hu⟩
  · rw [List.map_map]
    exact hn
  · intro symbol _ owner ho hid
    exact absurd (h.lt_nextId ho) (by omega)
  · intro id found x v hfound hx
    rw [CallStack.get?_enter] at hfound
    split at hfound
    · next hid =>
      cases hfound
      obtain ⟨u, hu, hname⟩ := List.mem_map.mp (hmembers x v hx)
      refine ⟨u, List.mem_append_right _ ?_, hname⟩
      rw [hid, List.map_map]
      exact List.mem_map.mpr ⟨u, hu, rfl⟩
    · obtain ⟨u, hu, hname⟩ := h.members id found x v hfound hx
      exact ⟨u, List.mem_append_left _ hu, hname⟩

/-- Locations are only added, and new ones belong to new records. -/
def Grows (s : CallStack) (own own' : Owners) : Prop :=
  own <+: own' ∧ ∀ owner ∈ own', owner ∈ own ∨ s.nextId ≤ owner.1

theorem Grows.refl (s : CallStack) (own : Owners) : Grows s own own :=
  ⟨List.prefix_refl own, fun _ => .inl⟩

theorem Grows.trans {own'' : Owners} (h : Grows s own own') (h' : Grows s' own' own'')
    (hs : s.nextId ≤ s'.nextId) : Grows s own own'' := by
  refine ⟨h.1.trans h'.1, fun owner ho => ?_⟩
  rcases h'.2 owner ho with ho | hle
  · exact h.2 owner ho
  · exact .inr (Nat.le_trans hs hle)

/-- What happened outside the environment of a record is no matter to it. -/
theorem Mirrors.next {σ' : Store} (h : Mirrors r own s S id env σ) (hgrows : Grows s own own')
    (hs : s.Extends s') (hlive : s'.live = s.live) (hstore : Simulates r own' s' σ') :
    Mirrors r own' s' S id env σ' := by
  refine ⟨hstore, ?_, h.environment.mono hgrows.1 hs, fun symbol hsymbol => ?_⟩
  · rw [CallStack.top?, hlive]
    exact h.top
  · rcases hgrows.2 _ hsymbol with hold | hle
    · exact h.owned symbol hold
    · obtain ⟨record, hrecord, _⟩ := h.environment.current
      exact absurd (CallStack.lt_nextId_of_get? hrecord) (Nat.not_lt.mpr hle)

/-- A name that a routine sees has a location, and the record that the name is looked for in
represents what is there. -/
theorem Mirrors.cell_of_lookup (h : Mirrors r own s S id env σ) {x : String}
    (hx : S.lookup x = some symbol) (hsymbol : ∀ name level, symbol ≠ .builtinType name level) :
    ∃ owner record l cell, s.visible symbol.level = some owner ∧ s.get? owner = some record ∧
      env.lookup x = some l ∧ own[l]? = some (owner, symbol) ∧ σ[l]? = some cell ∧
      Represents r own s owner record symbol cell := by
  obtain ⟨owner, l, howner, hl, ho⟩ := h.environment.location hx hsymbol
  obtain ⟨record, cell, hrecord, hcell, hrep⟩ := h.store.exists_cell ho
  refine ⟨owner, record, l, cell, ?_, hrecord, hl, ho, hcell, hrep⟩
  rw [CallStack.visible, h.top]
  exact howner

end

end Semantics

end MiniPascal
