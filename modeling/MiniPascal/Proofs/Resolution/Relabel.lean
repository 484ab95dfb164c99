import MiniPascal.Proofs.Parser.Agreement
import MiniPascal.Proofs.Stateful
import MiniPascal.Proofs.Syntax.Bare
import MiniPascal.Resolution.Rendering

/-!
# Resolving other tokens

Resolution depends on the kinds and texts of tokens only, and on no empty statement. On the bare
program each function of the resolver gives the same answer with the tokens in it replaced, or an
error for the same cause at the token that replaces the one at fault. If tokens keep their indices,
the tables have the same entries with the tokens in them replaced, so that the annotated text of a
program is the same whatever its tokens are.
-/
namespace MiniPascal

variable (f : Relabeling)

def Variable.relabel (v : Variable) : Variable := { v with token := v.token.map f.toFun }

def Procedure.relabel (p : Procedure) : Procedure :=
  { p with
    token := p.token.map f.toFun
    params := p.params.map (Variable.relabel f)
    block := p.block.bare f }

def Symbol.relabel : Symbol → Symbol
  | .builtinType name level => .builtinType name level
  | .variable v => .variable (v.relabel f)
  | .procedure p => .procedure (p.relabel f)
  | .other number name level => .other number name level

def Scope.relabel (s : Scope) : Scope := { s with symbols := s.symbols.map (Symbol.relabel f) }

def Scopes.relabel (s : Scopes) : Scopes :=
  { current := s.current.relabel f, enclosing := s.enclosing.map (Scope.relabel f) }

theorem Symbol.name_relabel (s : Symbol) : (s.relabel f).name = s.name := by
  cases s <;> rfl

theorem Symbol.atLevel_relabel (level : Int) (s : Symbol) :
    (s.relabel f).atLevel level = (s.atLevel level).relabel f := by
  cases s <;> rfl

theorem Scope.find?_relabel (s : Scope) (x : String) :
    (s.relabel f).find? x = (s.find? x).map (Symbol.relabel f) := by
  rw [find?, relabel, List.find?_map, find?]
  simp only [Function.comp_def, Symbol.name_relabel]

theorem Scope.insert?_relabel (s : Scope) (symbol : Symbol) :
    (s.relabel f).insert? (symbol.relabel f) = (s.insert? symbol).map (Scope.relabel f) := by
  rw [insert?, insert?, Symbol.name_relabel, find?_relabel]
  cases s.find? symbol.name with
  | some found => rfl
  | none =>
    simp only [Option.map_none, Option.map_some, relabel, Symbol.atLevel_relabel, List.map_append,
      List.map_cons, List.map_nil]

namespace Scopes

theorem lookup_relabel (s : Scopes) (x : String) :
    (s.relabel f).lookup x = (s.lookup x).map (Symbol.relabel f) := by
  have hscopes (scopes : List Scope) :
      (scopes.map (Scope.relabel f)).findSome? (fun c => c.find? x) =
        (scopes.findSome? fun c => c.find? x).map (Symbol.relabel f) := by
    rw [List.findSome?_map, List.map_findSome?]
    simp only [Function.comp_def, Scope.find?_relabel]
  exact hscopes (s.current :: s.enclosing)

theorem insert_relabel (s : Scopes) (symbol : Symbol) :
    (s.relabel f).insert (symbol.relabel f) = (s.insert symbol).relabel f := by
  rw [insert, insert, relabel, Scope.insert?_relabel]
  cases s.current.insert? symbol <;> rfl

theorem enter_relabel (s : Scopes) (name : String) :
    (s.relabel f).enter name = (s.enter name).relabel f :=
  rfl

theorem level_relabel (s : Scopes) : (s.relabel f).current.level = s.current.level := rfl

end Scopes

theorem Variable.declared_relabel (level : Int) (name type : Token) :
    declared level (f.toFun name) (f.toFun type) = (declared level name type).relabel f := by
  rw [declared, declared, f.name, f.kind]
  rfl

theorem Procedure.declared_relabel (level : Int) (name : Token) (params : List Param)
    (block : Block) :
    declared level (f.toFun name) (params.map (Param.relabel f)) (block.bare f) =
      (declared level name params block).relabel f := by
  rw [declared, declared, relabel, f.name, List.map_map, List.map_map]
  simp only [Function.comp_def, Param.relabel, Variable.declared_relabel]
  rfl

namespace Table

variable {α β : Type}

def mapEntries (g : α → β) (t : Table α) : Table β := t.map fun entry => (entry.1, g entry.2)

theorem find?_mapEntries (g : α → β) (t : Table α) (i : Nat) :
    (t.mapEntries g).find? i = (t.find? i).map g := by
  induction t with
  | nil => rfl
  | cons entry t ih =>
    obtain ⟨j, a⟩ := entry
    simp only [find?, mapEntries, List.map_cons, List.lookup_cons] at ih ⊢
    split
    · rfl
    · exact ih

theorem insert_mapEntries (g : α → β) (t : Table α) (i : Nat) (a : α) :
    (t.mapEntries g).insert i (g a) = (t.insert i a).mapEntries g := by
  simp only [insert, mapEntries, List.filter_map, List.map_cons, Function.comp_def]

end Table

/-- If tokens keep their indices, the tables have the entries with other tokens. -/
def Findings.Carries (F F' : Findings) : Prop :=
  f.KeepsIndex →
    F'.references = F.references.mapEntries (Variable.relabel f) ∧
      F'.calls = F.calls.mapEntries (Procedure.relabel f)

namespace Resolver

variable {f} {α β : Type}

/-- With other tokens, `y` gives the answer of `x`, changed by `g`, and makes the same entries. -/
def Carries (f : Relabeling) (g : α → β) (x : Resolver α) (y : Resolver β) : Prop :=
  ∀ ⦃F F'⦄, F.Carries f F' →
    f.Carries (fun a b => b = g a) (x F).1 (y F').1 ∧ (x F).2.Carries f (y F').2

section

variable {g : α → β} {x : Resolver α} {y : Resolver β}

theorem Carries.bind {γ δ : Type} {h : γ → δ} {k : α → Resolver γ} {k' : β → Resolver δ}
    (hx : Carries f g x y) (hk : ∀ a, Carries f h (k a) (k' (g a))) :
    Carries f h (x >>= k) (y >>= k') := by
  intro F F' hF
  obtain ⟨hanswer, hstate⟩ := hx hF
  rcases hxF : x F with ⟨answer, F₁⟩
  rcases hyF : y F' with ⟨answer', F₁'⟩
  rw [hxF, hyF] at hanswer hstate
  cases hanswer with
  | ok h =>
    subst h
    rw [Stateful.bind_of_ok hxF, Stateful.bind_of_ok hyF]
    exact hk _ hstate
  | error t c =>
    rw [Stateful.bind_of_error hxF, Stateful.bind_of_error hyF]
    exact ⟨.error t c, hstate⟩

theorem carries_pure {a : α} {b : β} (h : b = g a) : Carries f g (pure a) (pure b) :=
  fun _ _ hF => ⟨.ok h, hF⟩

theorem carries_fail (t : Token) (c : Cause) : Carries f g (fail t c) (fail (f.toFun t) c) :=
  fun _ _ hF => ⟨.error t c, hF⟩

theorem Carries.last {γ δ : Type} {h : γ → δ} {c : γ} {d : δ} (hx : Carries f g x y)
    (hd : d = h c) : Carries f h (x >>= fun _ => pure c) (y >>= fun _ => pure d) :=
  hx.bind fun _ => carries_pure hd

/-- Events are of no account. -/
theorem carries_note (e e' : ScopeEvent) : Carries f id (note e) (note e') :=
  fun _ _ hF => ⟨.ok rfl, hF⟩

theorem carries_insert (S : Scopes) (symbol : Symbol) :
    Carries f (Scopes.relabel f) (insert S symbol) (insert (S.relabel f) (symbol.relabel f)) :=
  (carries_note _ _).last (S.insert_relabel f symbol)

theorem carries_enter (S : Scopes) (name : String) :
    Carries f (Scopes.relabel f) (enter S name) (enter (S.relabel f) name) :=
  (carries_note _ _).last (S.enter_relabel f name)

theorem carries_type (S : Scopes) (t : Token) :
    Carries f id (type S t) (type (S.relabel f) (f.toFun t)) := by
  unfold type
  rw [f.kind, S.lookup_relabel]
  rcases S.lookup t.kind.text with _ | ⟨_, _⟩ | _ | _ | ⟨_, _, _⟩
  case some.builtinType => exact carries_pure rfl
  all_goals exact carries_fail t _

theorem carries_reference (S : Scopes) (t : Token) :
    Carries f id (reference S t) (reference (S.relabel f) (f.toFun t)) := by
  unfold reference
  refine (carries_note _ _).bind fun _ => ?_
  rw [f.name, S.lookup_relabel]
  rcases S.lookup t.name with _ | ⟨_, _⟩ | v | _ | ⟨_, _, _⟩
  case some.variable =>
    intro F F' hF
    refine ⟨.ok rfl, fun hindex => ?_⟩
    obtain ⟨hreferences, hcalls⟩ := hF hindex
    refine ⟨?_, hcalls⟩
    change F'.references.insert _ _ = _
    rw [hreferences, hindex t, Table.insert_mapEntries]
    rfl
  all_goals exact carries_fail t _

theorem carries_expression (S : Scopes) : ∀ e : Expr,
    Carries f id (expression S e) (expression (S.relabel f) (e.relabel f))
  | .number .. => carries_pure rfl
  | .variable t => carries_reference S t
  | .unary _ e => carries_expression S e
  | .binary l _ r => (carries_expression S l).bind fun _ => carries_expression S r

theorem carries_expressions (S : Scopes) (es : List Expr) :
    Carries f id (expressions S es) (expressions (S.relabel f) (es.map (Expr.relabel f))) := by
  induction es with
  | nil => exact carries_pure rfl
  | cons e rest ih => exact (carries_expression S e).bind fun _ => ih

theorem carries_call (S : Scopes) (name : Token) (args : List Expr) :
    Carries f id (call S name args)
      (call (S.relabel f) (f.toFun name) (args.map (Expr.relabel f))) := by
  unfold call
  refine (carries_note _ _).bind fun _ => ?_
  rw [f.name, S.lookup_relabel, List.length_map]
  rcases S.lookup name.name with _ | ⟨_, _⟩ | _ | p | ⟨_, _, _⟩
  case some.procedure =>
    have hlength : (p.relabel f).params.length = p.params.length := List.length_map _
    simp only [Option.map_some, Symbol.relabel, hlength]
    split
    · refine (carries_expressions S args).bind fun _ F F' hF => ⟨.ok rfl, fun hindex => ?_⟩
      obtain ⟨hreferences, hcalls⟩ := hF hindex
      refine ⟨hreferences, ?_⟩
      change F'.calls.insert _ _ = _
      rw [hcalls, hindex name, Table.insert_mapEntries]
      rfl
    · exact carries_fail name _
  all_goals exact carries_fail name _

theorem carries_statements (S : Scopes) : ∀ ss : List Stmt,
    Carries f id (statements S ss) (statements (S.relabel f) (Stmt.bareAll f ss))
  | [] => carries_pure rfl
  | .compound _ children :: rest =>
    (carries_statements S children).bind fun _ => carries_statements S rest
  | .assign target _ value :: rest =>
    ((carries_expression S value).bind fun _ => carries_reference S target).bind fun _ =>
      carries_statements S rest
  | .call name args :: rest =>
    (carries_call S name args).bind fun _ => carries_statements S rest
  | .empty :: rest => carries_statements S rest

theorem firstRepeated_relabel (taken : List String) (names : List Token) :
    firstRepeated taken (names.map f.toFun) = (firstRepeated taken names).map f.toFun := by
  induction names generalizing taken with
  | nil => rfl
  | cons t rest ih =>
    rw [List.map_cons, firstRepeated, firstRepeated, f.name, ih]
    split <;> rfl

theorem map_name_bareAll (decls : List Decl) :
    (Decl.bareAll f decls).map Decl.name = (decls.map Decl.name).map f.toFun := by
  induction decls with
  | nil => rfl
  | cons d rest ih =>
    rw [Decl.bareAll, List.map_cons, List.map_cons, List.map_cons, ih]
    cases d <;> rfl

theorem carries_noRepetition (S : Scopes) (decls : List Decl) :
    Carries f id (noRepetition S decls) (noRepetition (S.relabel f) (Decl.bareAll f decls)) := by
  have hnames : (S.relabel f).current.symbols.map Symbol.name =
      S.current.symbols.map Symbol.name := by
    change (S.current.symbols.map (Symbol.relabel f)).map Symbol.name = _
    rw [List.map_map]
    exact List.map_congr_left fun s _ => s.name_relabel f
  unfold noRepetition
  rw [hnames, map_name_bareAll, firstRepeated_relabel]
  cases firstRepeated (S.current.symbols.map Symbol.name) (decls.map Decl.name) with
  | none => exact carries_pure rfl
  | some t =>
    rw [Option.map_some]
    dsimp only
    rw [f.name]
    exact carries_fail t _

theorem carries_types (S : Scopes) (ps : List Param) :
    Carries f id (types S ps) (types (S.relabel f) (ps.map (Param.relabel f))) := by
  induction ps with
  | nil => exact carries_pure rfl
  | cons p rest ih => exact (carries_type S p.type).bind fun _ => ih

theorem carries_procedures (S : Scopes) (decls : List Decl) :
    Carries f (Scopes.relabel f) (procedures S decls)
      (procedures (S.relabel f) (Decl.bareAll f decls)) := by
  induction decls generalizing S with
  | nil => exact carries_pure rfl
  | cons d rest ih =>
    cases d with
    | «variable» name type => exact ih S
    | procedure name params block =>
      refine (carries_types S params).bind fun _ => ?_
      rw [Procedure.declared_relabel]
      exact (carries_insert S (.procedure _)).bind ih

theorem carries_params (S : Scopes) (ps : List Param) :
    Carries f (Scopes.relabel f) (params S ps)
      (params (S.relabel f) (ps.map (Param.relabel f))) := by
  induction ps generalizing S with
  | nil => exact carries_pure rfl
  | cons p rest ih =>
    have hname : (p.relabel f).name.name = p.name.name := f.name p.name
    have hfound : ((S.relabel f).current.find? p.name.name).isSome =
        (S.current.find? p.name.name).isSome := by
      rw [show (S.relabel f).current = S.current.relabel f from rfl, Scope.find?_relabel,
        Option.isSome_map]
    rw [List.map_cons, params, params, hname, hfound]
    split
    · exact carries_fail p.name _
    · refine Carries.bind ?_ ih
      have hdeclared := Variable.declared_relabel f S.current.level p.name p.type
      change Carries f _ _ (insert _ (.variable (.declared _ (f.toFun p.name) (f.toFun p.type))))
      rw [S.level_relabel, hdeclared]
      exact carries_insert S (.variable _)

mutual

theorem carries_declarations (S : Scopes) : ∀ decls : List Decl,
    Carries f (Scopes.relabel f) (declarations S decls)
      (declarations (S.relabel f) (Decl.bareAll f decls))
  | [] => carries_pure rfl
  | .variable name type :: rest => by
    refine Carries.bind ?_ fun S' => carries_declarations S' rest
    refine (carries_type S type).bind fun _ => ?_
    rw [S.level_relabel, Variable.declared_relabel]
    exact carries_insert S (.variable _)
  | .procedure name params block :: rest => by
    refine Carries.bind ?_ fun S' => carries_declarations S' rest
    change Carries f _ _ (do
      let inner ← enter (S.relabel f) (f.toFun name).name
      let inner ← Resolver.params inner (params.map (Param.relabel f))
      let inner ← Resolver.block inner (block.bare f)
      leave inner
      return S.relabel f)
    rw [f.name]
    refine (carries_enter S name.name).bind fun S₁ => ?_
    refine (carries_params S₁ params).bind fun S₂ => ?_
    refine (carries_block S₂ block).bind fun S₃ => ?_
    exact (carries_note _ _).last rfl

theorem carries_block (S : Scopes) : ∀ b : Block,
    Carries f (Scopes.relabel f) (block S b) (block (S.relabel f) (b.bare f))
  | .mk decls _ body => by
    refine (carries_noRepetition S decls).bind fun _ => ?_
    refine (carries_procedures S decls).bind fun S₁ => ?_
    refine (carries_declarations S₁ decls).bind fun S₂ => ?_
    exact (carries_statements S₂ body).last rfl

end

theorem carries_program (p : Program) :
    Carries f (Scope.relabel f) (program p) (program (p.bare f)) := by
  refine (carries_note _ _).bind fun _ => ?_
  refine Carries.bind (g := Scopes.relabel f) ?_ fun S => ?_
  · exact (carries_insert _ _).bind fun S => (carries_insert S _).bind fun S => carries_pure rfl
  · exact (carries_block S p.block).bind fun S => (carries_note _ _).last rfl

end

end Resolver

def Resolution.Carries (r r' : Resolution) : Prop :=
  f.KeepsIndex →
    r'.references = r.references.mapEntries (Variable.relabel f) ∧
      r'.calls = r.calls.mapEntries (Procedure.relabel f)

/-- What is left of a program without its empty statements, with other tokens, is resolved as the
program is. -/
theorem Program.resolve_bare (p : Program) :
    f.Carries (Resolution.Carries f) p.resolve.1 (p.bare f).resolve.1 := by
  have hstart : Findings.Carries f {} {} := fun _ => ⟨rfl, rfl⟩
  obtain ⟨hanswer, hstate⟩ := Resolver.carries_program p hstart
  unfold resolve
  have hrun (q : Program) : (Resolver.program q).run.run {} = Resolver.program q {} := rfl
  rw [hrun p, hrun (p.bare f)]
  generalize Resolver.program p {} = x at hanswer hstate ⊢
  generalize Resolver.program (p.bare f) {} = y at hanswer hstate ⊢
  obtain ⟨answer, F⟩ := x
  obtain ⟨answer', F'⟩ := y
  cases hanswer with
  | ok h => exact .ok hstate
  | error t c => exact .error t c

/-- Answers that are carried over to one and the same answer, one of them with its tokens kept, are
carried over to each other. -/
theorem Relabeling.Carries.trans_id {α β γ : Type} {f : Relabeling} {rel : α → γ → Prop}
    {rel' : β → γ → Prop} {x : Except Diagnostic α} {y : Except Diagnostic β}
    {z : Except Diagnostic γ} (h : f.Carries rel x z) (h' : Relabeling.id.Carries rel' y z) :
    f.Carries (fun a b => ∃ c, rel a c ∧ rel' b c) x y := by
  cases h with
  | ok h =>
    cases h' with
    | ok h' => exact .ok ⟨_, h, h'⟩
  | error t c =>
    generalize hz : Except.error (Diagnostic.atToken (f.toFun t) c) = z at h'
    cases h' with
    | ok => cases hz
    | error u c' =>
      have hu : Diagnostic.atToken (f.toFun t) c = .atToken u c' := Except.error.inj hz
      rw [← hu]
      exact .error t c

/-- With other tokens a program is resolved as before, since both are bare in the same way. -/
theorem Program.resolve_relabel (p : Program) :
    f.Carries (fun r r' => ∃ r₀, r.Carries f r₀ ∧ r'.Carries .id r₀) p.resolve.1
      (p.relabel f).resolve.1 := by
  have hrelabel := (p.relabel f).resolve_bare .id
  rw [bare_relabel] at hrelabel
  exact (p.resolve_bare f).trans_id hrelabel

structure Labelling.Carries (l l' : Labelling) : Prop where
  declared (t : Token) (level : Int) : l'.declared (f.toFun t) level = l.declared t level
  reference (t : Token) : l'.reference (f.toFun t) = l.reference t
  call (t : Token) : l'.call (f.toFun t) = l.call t

theorem Resolution.Carries.labelling {f : Relabeling} {r r' : Resolution} (h : r.Carries f r')
    (hindex : f.KeepsIndex) : r.labelling.Carries f r'.labelling := by
  obtain ⟨hreferences, hcalls⟩ := h hindex
  constructor
  · intro t level
    simp only [Resolution.labelling, f.name]
  · intro t
    simp only [Resolution.labelling, f.name, hindex t, hreferences, Table.find?_mapEntries]
    cases r.references.find? t.index <;> rfl
  · intro t
    simp only [Resolution.labelling, f.name, hindex t, hcalls, Table.find?_mapEntries]
    cases r.calls.find? t.index <;> rfl

theorem Expr.precedence_relabel (e : Expr) : (e.relabel f).precedence = e.precedence := by
  cases e with
  | binary left op right => rw [relabel, precedence, precedence, f.kind]
  | number | «variable» | unary => rfl

section Rendering

variable {f} {l l' : Labelling}

theorem Expr.render_relabel (h : l.Carries f l') (e : Expr) :
    (e.relabel f).render l' = e.render l := by
  induction e with
  | number t v => exact f.text t
  | «variable» t => exact h.reference t
  | unary op e ih => rw [relabel, render, render, ih, f.kind, e.precedence_relabel f]
  | binary left op right ihl ihr =>
    have hp := (Expr.binary left op right).precedence_relabel f
    rw [relabel] at hp
    simp only [relabel, render, ihl, ihr, f.kind, left.precedence_relabel,
      right.precedence_relabel, hp]

mutual

theorem Stmt.render_relabel (h : l.Carries f l') (indent : Nat) : ∀ s : Stmt,
    (s.relabel f).render l' indent = s.render l indent
  | .compound _ children => by
    rw [Stmt.relabel, Stmt.render, Stmt.render, Stmt.renderAll_relabel h (indent + 1) children]
  | .assign target _ value => by
    rw [Stmt.relabel, Stmt.render, Stmt.render, h.reference, value.render_relabel h]
  | .call name args => by
    have hargs : (args.map (Expr.relabel f)).map (fun e => e.render l') =
        args.map fun e => e.render l := by
      rw [List.map_map]
      exact List.map_congr_left fun e _ => e.render_relabel h
    rw [Stmt.relabel, Stmt.render, Stmt.render, h.call, hargs]
  | .empty => rfl

theorem Stmt.renderAll_relabel (h : l.Carries f l') (indent : Nat) : ∀ ss : List Stmt,
    Stmt.renderAll l' indent (Stmt.relabelAll f ss) = Stmt.renderAll l indent ss
  | [] => rfl
  | s :: rest => by
    rw [Stmt.relabelAll, Stmt.renderAll, Stmt.renderAll, Stmt.render_relabel h indent s,
      Stmt.renderAll_relabel h indent rest]

end

theorem renderParams_relabel (h : l.Carries f l') (level : Int) (ps : List Param) :
    renderParams l' level (ps.map (Param.relabel f)) = renderParams l level ps := by
  have hparams : (ps.map (Param.relabel f)).map
      (fun p => l'.declared p.name level ++ " : " ++ p.type.kind.text) =
        ps.map fun p => l.declared p.name level ++ " : " ++ p.type.kind.text := by
    rw [List.map_map]
    refine List.map_congr_left fun p _ => ?_
    simp only [Function.comp_apply, Param.relabel, h.declared, f.kind]
  rw [renderParams, renderParams, hparams, List.isEmpty_map]

mutual

theorem Decl.renderAll_relabel (h : l.Carries f l') (level : Int) (indent : Nat) : ∀ ds : List Decl,
    Decl.renderAll l' level indent (Decl.relabelAll f ds) = Decl.renderAll l level indent ds
  | [] => rfl
  | .variable name type :: rest => by
    rw [Decl.relabelAll, Decl.renderAll, Decl.renderAll, Decl.renderAll_relabel h level indent rest,
      Decl.relabel, Decl.render, Decl.render, h.declared, f.kind]
  | .procedure name params block :: rest => by
    rw [Decl.relabelAll, Decl.renderAll, Decl.renderAll, Decl.renderAll_relabel h level indent rest,
      Decl.relabel, Decl.render, Decl.render, h.declared, renderParams_relabel h,
      Block.render_relabel h (level + 1) (indent + 1) (indent + 1) block, endComment, endComment,
      f.name]

theorem Block.render_relabel (h : l.Carries f l') (level : Int) (declIndent bodyIndent : Nat) :
    ∀ b : Block,
    (b.relabel f).render l' level declIndent bodyIndent = b.render l level declIndent bodyIndent
  | .mk decls _ body => by
    rw [Block.relabel, Block.render, Block.render, Decl.renderAll_relabel h level declIndent decls,
      Stmt.renderAll_relabel h]

end

theorem Program.render_relabel (h : l.Carries f l') (p : Program) :
    (p.relabel f).render l' = p.render l := by
  rw [relabel, render, render, h.declared, p.block.render_relabel h, endComment, endComment, f.name]

end Rendering

end MiniPascal
