import MiniPascal.Proofs.Parser.Relabel
import MiniPascal.Proofs.Semantics
import MiniPascal.Proofs.Syntax.Bare

/-!
# Runs of bare programs

What a run gives depends on the kinds and texts of tokens only, and on no empty statement. The bare
program runs in the same environments and with the same values at the same locations, where the
closures are bare as well. It leaves the same bindings, or it fails for the same cause at the token
that replaces the one at fault.
-/
namespace MiniPascal.Semantics

variable {f : Relabeling}

def Cell.bare (f : Relabeling) : Cell → Cell
  | .unwritten => .unwritten
  | .value v => .value v
  | .closure params block env => .closure (params.map (Param.relabel f)) (block.bare f) env

def Store.bare (f : Relabeling) (σ : Store) : Store := σ.map (Cell.bare f)

theorem Store.length_bare (σ : Store) : (σ.bare f).length = σ.length := List.length_map _

theorem Store.getElem?_bare (σ : Store) (l : Nat) : (σ.bare f)[l]? = σ[l]?.map (Cell.bare f) :=
  List.getElem?_map

theorem Store.set_bare (σ : Store) (l : Nat) (v : Value) :
    (σ.bare f).set l (.value v) = Store.bare f (σ.set l (.value v)) := by
  rw [bare, bare, List.map_set]
  rfl

section Elaboration

theorem procedureNames_bareAll (decls : List Decl) :
    procedureNames (Decl.bareAll f decls) = procedureNames decls := by
  induction decls with
  | nil => rfl
  | cons d rest ih =>
    cases d with
    | «variable» => exact ih
    | procedure name params block =>
      rw [Decl.bareAll, Decl.bare, procedureNames, procedureNames, ih, f.name]

theorem variableNames_bareAll (decls : List Decl) :
    variableNames (Decl.bareAll f decls) = variableNames decls := by
  induction decls with
  | nil => rfl
  | cons d rest ih =>
    cases d with
    | «variable» name type =>
      rw [Decl.bareAll, Decl.bare, variableNames, variableNames, ih, f.name]
    | procedure => exact ih

theorem closures_bareAll (next : Nat) (decls : List Decl) (env : Environment) :
    closures next (Decl.bareAll f decls) env = (closures next decls env).map (Cell.bare f) := by
  induction decls generalizing next env with
  | nil => rfl
  | cons d rest ih =>
    cases d with
    | «variable» name type => rw [Decl.bareAll, Decl.bare, closures, closures, f.name, ih]
    | procedure name params block =>
      rw [Decl.bareAll, Decl.bare, closures, closures, ih, List.map_cons, Cell.bare]

theorem elaborate_bareAll (decls : List Decl) (env : Environment) (σ : Store) :
    elaborate (Decl.bareAll f decls) env (σ.bare f) =
      ((elaborate decls env σ).1, Store.bare f (elaborate decls env σ).2) := by
  have hunwritten : (variableNames decls).map (fun _ => Cell.unwritten) =
      ((variableNames decls).map fun _ => Cell.unwritten).map (Cell.bare f) := by
    rw [List.map_map]
    rfl
  simp only [elaborate, procedureNames_bareAll, variableNames_bareAll, closures_bareAll,
    Store.length_bare]
  simp only [Store.bare, List.map_append, ← hunwritten]

theorem invoke_bare (params : List Param) (values : List Value) (block : Block)
    (env : Environment) (σ : Store) :
    invoke (params.map (Param.relabel f)) values (block.bare f) env (σ.bare f) =
      ((invoke params values block env σ).1,
        Store.bare f (invoke params values block env σ).2) := by
  have hnames : (params.map (Param.relabel f)).map (fun p => p.name.name) =
      params.map fun p => p.name.name := by
    rw [List.map_map]
    exact List.map_congr_left fun p _ => f.name p.name
  have hvalues : σ.bare f ++ values.map .value = Store.bare f (σ ++ values.map .value) := by
    rw [Store.bare, Store.bare, List.map_append, List.map_map]
    rfl
  rw [invoke, hnames, hvalues, block.decls_bare, Store.length_bare, elaborate_bareAll]
  rfl

end Elaboration

section

variable {env : Environment} {σ : Store}

theorem Applies.relabel {op : Token} {answer : Except Value.OperationError Value}
    {o : Except Diagnostic Value} (h : Applies op answer o) :
    ∃ o', Applies (f.toFun op) answer o' ∧ f.Carries (· = ·) o o' := by
  cases h with
  | value => exact ⟨_, .value, .ok rfl⟩
  | cause => exact ⟨_, .cause, .error op _⟩

theorem Evaluates.relabel {e : Expr} {o : Except Diagnostic Value} (h : Evaluates env σ e o) :
    ∃ o', Evaluates env (σ.bare f) (e.relabel f) o' ∧ f.Carries (· = ·) o o' := by
  induction h with
  | number => exact ⟨_, .number, .ok rfl⟩
  | @written t l v bound cell =>
    rw [← f.name] at bound
    refine ⟨_, .written bound ?_, .ok rfl⟩
    rw [Store.getElem?_bare, cell]
    rfl
  | @unwritten t l bound cell =>
    rw [← f.name] at bound ⊢
    refine ⟨_, .unwritten bound ?_, .error t _⟩
    rw [Store.getElem?_bare, cell]
    rfl
  | unary operand applied ih =>
    obtain ⟨_, hoperand, ⟨rfl⟩⟩ := ih
    rw [← f.kind] at applied
    obtain ⟨o', happlied, hcarries⟩ := applied.relabel (f := f)
    exact ⟨o', .unary hoperand happlied, hcarries⟩
  | unaryFails operand ih =>
    obtain ⟨_, hoperand, _ | ⟨t, c⟩⟩ := ih
    exact ⟨_, .unaryFails hoperand, .error t c⟩
  | binary first second applied ihf ihs =>
    obtain ⟨_, hfirst, ⟨rfl⟩⟩ := ihf
    obtain ⟨_, hsecond, ⟨rfl⟩⟩ := ihs
    rw [← f.kind] at applied
    obtain ⟨o', happlied, hcarries⟩ := applied.relabel (f := f)
    exact ⟨o', .binary hfirst hsecond happlied, hcarries⟩
  | leftFails first ih =>
    obtain ⟨_, hfirst, _ | ⟨t, c⟩⟩ := ih
    exact ⟨_, .leftFails hfirst, .error t c⟩
  | rightFails first second ihf ihs =>
    obtain ⟨_, hfirst, ⟨rfl⟩⟩ := ihf
    obtain ⟨_, hsecond, _ | ⟨t, c⟩⟩ := ihs
    exact ⟨_, .rightFails hfirst hsecond, .error t c⟩

theorem EvaluatesAll.relabel {es : List Expr} {o : Except Diagnostic (List Value)}
    (h : EvaluatesAll env σ es o) :
    ∃ o', EvaluatesAll env (σ.bare f) (es.map (Expr.relabel f)) o' ∧ f.Carries (· = ·) o o' := by
  induction h with
  | nil => exact ⟨_, .nil, .ok rfl⟩
  | cons first others ih =>
    obtain ⟨_, hfirst, ⟨rfl⟩⟩ := first.relabel (f := f)
    obtain ⟨_, hothers, ⟨rfl⟩⟩ := ih
    exact ⟨_, .cons hfirst hothers, .ok rfl⟩
  | firstFails first =>
    obtain ⟨_, hfirst, _ | ⟨t, c⟩⟩ := first.relabel (f := f)
    exact ⟨_, .firstFails hfirst, .error t c⟩
  | othersFail first others ih =>
    obtain ⟨_, hfirst, ⟨rfl⟩⟩ := first.relabel (f := f)
    obtain ⟨_, hothers, _ | ⟨t, c⟩⟩ := ih
    exact ⟨_, .othersFail hfirst hothers, .error t c⟩

theorem Callee.bare {name : Token} {args : List Expr} {params : List Param} {block : Block}
    {outer : Environment} (h : Callee env σ name args params block outer) :
    Callee env (σ.bare f) (f.toFun name) (args.map (Expr.relabel f))
      (params.map (Param.relabel f)) (block.bare f) outer := by
  obtain ⟨l, bound, cell, hlength⟩ := h
  refine ⟨l, ?_, ?_, ?_⟩
  · rw [f.name, bound]
  · rw [Store.getElem?_bare, cell]
    rfl
  · rw [List.length_map, List.length_map, hlength]

end

theorem Executes.bare {limit : Int} {live : Nat} {env : Environment} {σ : Store} {ss : List Stmt}
    {o : Except Diagnostic Store} (h : Executes limit live env σ ss o) :
    ∃ o', Executes limit live env (σ.bare f) (Stmt.bareAll f ss) o' ∧
      f.Carries (fun σ σ' => σ' = Store.bare f σ) o o' := by
  induction h with
  | nil => exact ⟨_, .nil, .ok rfl⟩
  | empty others ih => exact ih
  | compound inner others ihi iho =>
    obtain ⟨_, hinner, ⟨rfl⟩⟩ := ihi
    obtain ⟨o', hothers, hcarries⟩ := iho
    exact ⟨o', .compound hinner hothers, hcarries⟩
  | compoundFails inner ih =>
    obtain ⟨_, hinner, _ | ⟨t, c⟩⟩ := ih
    exact ⟨_, .compoundFails hinner, .error t c⟩
  | assign evaluated bound others ih =>
    obtain ⟨_, hevaluated, ⟨rfl⟩⟩ := evaluated.relabel (f := f)
    obtain ⟨o', hothers, hcarries⟩ := ih
    rw [← f.name] at bound
    rw [← Store.set_bare] at hothers
    exact ⟨o', .assign hevaluated bound hothers, hcarries⟩
  | assignFails evaluated =>
    obtain ⟨_, hevaluated, _ | ⟨t, c⟩⟩ := evaluated.relabel (f := f)
    exact ⟨_, .assignFails hevaluated, .error t c⟩
  | call callee evaluated room body others ihb iho =>
    obtain ⟨_, hevaluated, ⟨rfl⟩⟩ := evaluated.relabel (f := f)
    obtain ⟨_, hbody, ⟨rfl⟩⟩ := ihb
    obtain ⟨o', hothers, hcarries⟩ := iho
    refine ⟨o', .call callee.bare hevaluated room ?_ hothers, hcarries⟩
    rw [invoke_bare, Block.body_bare]
    exact hbody
  | callFails callee evaluated room body ih =>
    obtain ⟨_, hevaluated, ⟨rfl⟩⟩ := evaluated.relabel (f := f)
    obtain ⟨_, hbody, _ | ⟨t, c⟩⟩ := ih
    refine ⟨_, .callFails callee.bare hevaluated room ?_, .error t c⟩
    rw [invoke_bare, Block.body_bare]
    exact hbody
  | argumentFails callee evaluated =>
    obtain ⟨_, hevaluated, _ | ⟨t, c⟩⟩ := evaluated.relabel (f := f)
    exact ⟨_, .argumentFails callee.bare hevaluated, .error t c⟩
  | @tooDeep live env outer σ name args rest params block values callee evaluated full =>
    obtain ⟨_, hevaluated, ⟨rfl⟩⟩ := evaluated.relabel (f := f)
    rw [← f.name]
    exact ⟨_, .tooDeep callee.bare hevaluated full, .error name _⟩

theorem bindings_bare (env : Environment) (σ : Store) :
    bindings env (σ.bare f) = bindings env σ := by
  funext x
  unfold bindings
  cases env.lookup x with
  | none => rfl
  | some l =>
    simp only [Option.bind_some, Store.getElem?_bare]
    rcases σ[l]? with _ | _ | _ | _ <;> rfl

/-- The bare program runs as the program does. -/
theorem Runs.bare {limit : Int} {p : Program} {o : Except Diagnostic (String → Option Value)}
    (h : Runs limit p o) : ∃ o', Runs limit (p.bare f) o' ∧ f.Carries (· = ·) o o' := by
  obtain ⟨final, hfinal, rfl⟩ := h
  obtain ⟨final', hfinal', hcarries⟩ := hfinal.bare (f := f)
  have hstart : elaborate (p.bare f).block.decls [] [] =
      ((elaborate p.block.decls [] []).1, Store.bare f (elaborate p.block.decls [] []).2) := by
    rw [show (p.bare f).block = p.block.bare f from rfl, p.block.decls_bare]
    exact elaborate_bareAll p.block.decls [] []
  refine ⟨final'.map (bindings (elaborate p.block.decls [] []).1), ?_, ?_⟩
  · rw [Runs, hstart]
    refine ⟨final', ?_, rfl⟩
    rw [show (p.bare f).block = p.block.bare f from rfl, p.block.body_bare]
    exact hfinal'
  · cases hcarries with
    | ok h =>
      subst h
      exact .ok (bindings_bare _ _).symm
    | error t c => exact .error t c

/-- Two programs with the same bare program run alike. -/
theorem Runs.carries {limit : Int} {p q : Program}
    {o o' : Except Diagnostic (String → Option Value)} (h : Runs limit p o) (h' : Runs limit q o')
    {g : Relabeling} (hbare : p.bare f = q.bare g) :
    ∃ o₀, f.Carries (· = ·) o o₀ ∧ g.Carries (· = ·) o' o₀ := by
  obtain ⟨o₀, hrun, hcarries⟩ := h.bare (f := f)
  obtain ⟨o₁, hrun', hcarries'⟩ := h'.bare (f := g)
  rw [← hbare] at hrun'
  rw [hrun'.deterministic hrun] at hcarries'
  exact ⟨o₀, hcarries, hcarries'⟩

end MiniPascal.Semantics
