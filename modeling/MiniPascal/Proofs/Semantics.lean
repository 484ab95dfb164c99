import MiniPascal.Proofs.Syntax.Nodes
import MiniPascal.Proofs.Value

/-!
# A reference semantics

Big-step rules for programs that know nothing of levels, tables and static links. An environment
binds names to locations, and a store holds what is at the locations. Each invocation of a routine
gets a new location for each parameter, procedure and variable. A procedure is a closure over the
environment at its declaration: the one around the block, all procedures of the block, and the
variables of the block declared before it.

The rules are deterministic, and a program can only fail for one of five causes. Where a name is
not bound or an operator is none, there is no rule.
-/
namespace MiniPascal.Semantics

abbrev Environment := List (String × Nat)

/-- What is at a location: a variable without a value, the value of one, or a procedure. -/
inductive Cell
  | unwritten
  | value (v : Value)
  | closure (params : List Param) (block : Block) (env : Environment)

abbrev Store := List Cell

def bindFrom (first : Nat) : List String → Environment → Environment
  | [], env => env
  | x :: rest, env => bindFrom (first + 1) rest ((x, first) :: env)

def procedureNames : List Decl → List String
  | [] => []
  | .variable .. :: rest => procedureNames rest
  | .procedure name _ _ :: rest => name.name :: procedureNames rest

def variableNames : List Decl → List String
  | [] => []
  | .variable name _ :: rest => name.name :: variableNames rest
  | .procedure .. :: rest => variableNames rest

/-- The procedures among some declarations. `env` is the environment before the declarations, and
`next` the location of the first variable among them. -/
def closures (next : Nat) : List Decl → Environment → List Cell
  | [], _ => []
  | .variable name _ :: rest, env => closures (next + 1) rest ((name.name, next) :: env)
  | .procedure _ params block :: rest, env => .closure params block env :: closures next rest env

/-- The environment and the store that the declarations of a block lead to: procedures get the
first new locations, variables those behind them. -/
def elaborate (decls : List Decl) (env : Environment) (σ : Store) : Environment × Store :=
  let known := bindFrom σ.length (procedureNames decls) env
  let next := σ.length + (procedureNames decls).length
  (bindFrom next (variableNames decls) known,
    σ ++ closures next decls known ++ (variableNames decls).map fun _ => .unwritten)

def invoke (params : List Param) (values : List Value) (block : Block) (env : Environment)
    (σ : Store) : Environment × Store :=
  elaborate block.decls (bindFrom σ.length (params.map fun p => p.name.name) env)
    (σ ++ values.map .value)

inductive Applies (op : Token) : Except Value.OperationError Value → Except Diagnostic Value → Prop
  | value {v : Value} : Applies op (.ok v) (.ok v)
  | cause {c : Cause} : Applies op (.error (.cause c)) (.error (.atToken op c))

inductive Evaluates (env : Environment) (σ : Store) : Expr → Except Diagnostic Value → Prop
  | number {t : Token} {v : Value} : Evaluates env σ (.number t v) (.ok v)
  | written {t : Token} {l : Nat} {v : Value} (bound : env.lookup t.name = some l)
      (cell : σ[l]? = some (.value v)) : Evaluates env σ (.variable t) (.ok v)
  | unwritten {t : Token} {l : Nat} (bound : env.lookup t.name = some l)
      (cell : σ[l]? = some .unwritten) :
      Evaluates env σ (.variable t) (.error (.atToken t (.unbound t.name)))
  | unary {op : Token} {e : Expr} {v : Value} {o : Except Diagnostic Value}
      (operand : Evaluates env σ e (.ok v)) (applied : Applies op (Value.unary op.kind v) o) :
      Evaluates env σ (.unary op e) o
  | unaryFails {op : Token} {e : Expr} {d : Diagnostic} (operand : Evaluates env σ e (.error d)) :
      Evaluates env σ (.unary op e) (.error d)
  | binary {left right : Expr} {op : Token} {a b : Value} {o : Except Diagnostic Value}
      (first : Evaluates env σ left (.ok a)) (second : Evaluates env σ right (.ok b))
      (applied : Applies op (Value.binary op.kind a b) o) :
      Evaluates env σ (.binary left op right) o
  | leftFails {left right : Expr} {op : Token} {d : Diagnostic}
      (first : Evaluates env σ left (.error d)) : Evaluates env σ (.binary left op right) (.error d)
  | rightFails {left right : Expr} {op : Token} {a : Value} {d : Diagnostic}
      (first : Evaluates env σ left (.ok a)) (second : Evaluates env σ right (.error d)) :
      Evaluates env σ (.binary left op right) (.error d)

inductive EvaluatesAll (env : Environment) (σ : Store) :
    List Expr → Except Diagnostic (List Value) → Prop
  | nil : EvaluatesAll env σ [] (.ok [])
  | cons {e : Expr} {rest : List Expr} {v : Value} {vs : List Value}
      (first : Evaluates env σ e (.ok v)) (others : EvaluatesAll env σ rest (.ok vs)) :
      EvaluatesAll env σ (e :: rest) (.ok (v :: vs))
  | firstFails {e : Expr} {rest : List Expr} {d : Diagnostic}
      (first : Evaluates env σ e (.error d)) : EvaluatesAll env σ (e :: rest) (.error d)
  | othersFail {e : Expr} {rest : List Expr} {v : Value} {d : Diagnostic}
      (first : Evaluates env σ e (.ok v)) (others : EvaluatesAll env σ rest (.error d)) :
      EvaluatesAll env σ (e :: rest) (.error d)

def Callee (env : Environment) (σ : Store) (name : Token) (args : List Expr)
    (params : List Param) (block : Block) (outer : Environment) : Prop :=
  ∃ l, env.lookup name.name = some l ∧ σ[l]? = some (.closure params block outer) ∧
    args.length = params.length

/-- Statements run one after the other. `live` is the number of live invocations, the program
included, and `limit` the greatest number that there may be. -/
inductive Executes (limit : Int) :
    Nat → Environment → Store → List Stmt → Except Diagnostic Store → Prop
  | nil {live : Nat} {env : Environment} {σ : Store} : Executes limit live env σ [] (.ok σ)
  | empty {live : Nat} {env : Environment} {σ : Store} {rest : List Stmt}
      {o : Except Diagnostic Store} (others : Executes limit live env σ rest o) :
      Executes limit live env σ (.empty :: rest) o
  | compound {live : Nat} {env : Environment} {σ σ' : Store} {start : Token}
      {children rest : List Stmt} {o : Except Diagnostic Store}
      (inner : Executes limit live env σ children (.ok σ'))
      (others : Executes limit live env σ' rest o) :
      Executes limit live env σ (.compound start children :: rest) o
  | compoundFails {live : Nat} {env : Environment} {σ : Store} {start : Token}
      {children rest : List Stmt} {d : Diagnostic}
      (inner : Executes limit live env σ children (.error d)) :
      Executes limit live env σ (.compound start children :: rest) (.error d)
  | assign {live : Nat} {env : Environment} {σ : Store} {target op : Token} {value : Expr}
      {rest : List Stmt} {v : Value} {l : Nat} {o : Except Diagnostic Store}
      (evaluated : Evaluates env σ value (.ok v)) (bound : env.lookup target.name = some l)
      (others : Executes limit live env (σ.set l (.value v)) rest o) :
      Executes limit live env σ (.assign target op value :: rest) o
  | assignFails {live : Nat} {env : Environment} {σ : Store} {target op : Token} {value : Expr}
      {rest : List Stmt} {d : Diagnostic} (evaluated : Evaluates env σ value (.error d)) :
      Executes limit live env σ (.assign target op value :: rest) (.error d)
  | call {live : Nat} {env outer : Environment} {σ σ' : Store} {name : Token} {args : List Expr}
      {rest : List Stmt} {params : List Param} {block : Block} {values : List Value}
      {o : Except Diagnostic Store} (callee : Callee env σ name args params block outer)
      (evaluated : EvaluatesAll env σ args (.ok values)) (room : live < limit)
      (body : Executes limit (live + 1) (invoke params values block outer σ).1
        (invoke params values block outer σ).2 block.body (.ok σ'))
      (others : Executes limit live env σ' rest o) :
      Executes limit live env σ (.call name args :: rest) o
  | callFails {live : Nat} {env outer : Environment} {σ : Store} {name : Token} {args : List Expr}
      {rest : List Stmt} {params : List Param} {block : Block} {values : List Value}
      {d : Diagnostic} (callee : Callee env σ name args params block outer)
      (evaluated : EvaluatesAll env σ args (.ok values)) (room : live < limit)
      (body : Executes limit (live + 1) (invoke params values block outer σ).1
        (invoke params values block outer σ).2 block.body (.error d)) :
      Executes limit live env σ (.call name args :: rest) (.error d)
  | argumentFails {live : Nat} {env outer : Environment} {σ : Store} {name : Token}
      {args : List Expr} {rest : List Stmt} {params : List Param} {block : Block} {d : Diagnostic}
      (callee : Callee env σ name args params block outer)
      (evaluated : EvaluatesAll env σ args (.error d)) :
      Executes limit live env σ (.call name args :: rest) (.error d)
  | tooDeep {live : Nat} {env outer : Environment} {σ : Store} {name : Token} {args : List Expr}
      {rest : List Stmt} {params : List Param} {block : Block} {values : List Value}
      (callee : Callee env σ name args params block outer)
      (evaluated : EvaluatesAll env σ args (.ok values)) (full : limit ≤ live) :
      Executes limit live env σ (.call name args :: rest)
        (.error (.atToken name (.depthExceeded name.name limit)))

def bindings (env : Environment) (σ : Store) (x : String) : Option Value :=
  match (env.lookup x).bind fun l => σ[l]? with
  | some (.value v) => some v
  | _ => none

/-- A program runs in the environment of its block and leaves the values of its variables. -/
def Runs (limit : Int) (p : Program) (o : Except Diagnostic (String → Option Value)) : Prop :=
  let (env, σ) := elaborate p.block.decls [] []
  ∃ final, Executes limit 1 env σ p.block.body final ∧ o = final.map (bindings env)

section

variable {env : Environment} {σ : Store}

theorem bindings_eq_some {x : String} {v : Value} :
    bindings env σ x = some v ↔ ∃ l, env.lookup x = some l ∧ σ[l]? = some (.value v) := by
  rw [← Option.bind_eq_some_iff, bindings]
  split
  · next found hfound => rw [hfound, Option.some.injEq, Option.some.injEq, Cell.value.injEq]
  · next hnone =>
    constructor
    · intro h
      cases h
    · intro h
      exact absurd h (hnone v)

theorem Applies.deterministic {op : Token} {answer : Except Value.OperationError Value}
    {o o' : Except Diagnostic Value} (h : Applies op answer o) (h' : Applies op answer o') :
    o = o' := by
  cases h with
  | value =>
    cases h'
    rfl
  | cause =>
    cases h'
    rfl

theorem Evaluates.deterministic {e : Expr} {o o' : Except Diagnostic Value}
    (h : Evaluates env σ e o) (h' : Evaluates env σ e o') : o = o' := by
  induction h generalizing o' with
  | number =>
    cases h'
    rfl
  | written bound cell =>
    cases h' with
    | written bound' cell' =>
      cases bound.symm.trans bound'
      cases cell.symm.trans cell'
      rfl
    | unwritten bound' cell' =>
      cases bound.symm.trans bound'
      cases cell.symm.trans cell'
  | unwritten bound cell =>
    cases h' with
    | written bound' cell' =>
      cases bound.symm.trans bound'
      cases cell.symm.trans cell'
    | unwritten bound' cell' => rfl
  | unary operand applied ih =>
    cases h' with
    | unary operand' applied' =>
      cases ih operand'
      exact applied.deterministic applied'
    | unaryFails operand' => cases ih operand'
  | unaryFails operand ih =>
    cases h' with
    | unary operand' applied' => cases ih operand'
    | unaryFails operand' => exact congrArg _ (Except.error.inj (ih operand'))
  | binary first second applied ihf ihs =>
    cases h' with
    | binary first' second' applied' =>
      cases ihf first'
      cases ihs second'
      exact applied.deterministic applied'
    | leftFails first' => cases ihf first'
    | rightFails first' second' => cases ihs second'
  | leftFails first ih =>
    cases h' with
    | binary first' second' applied' => cases ih first'
    | leftFails first' => exact congrArg _ (Except.error.inj (ih first'))
    | rightFails first' second' => cases ih first'
  | rightFails first second ihf ihs =>
    cases h' with
    | binary first' second' applied' => cases ihs second'
    | leftFails first' => cases ihf first'
    | rightFails first' second' => exact congrArg _ (Except.error.inj (ihs second'))

theorem EvaluatesAll.deterministic {es : List Expr} {o o' : Except Diagnostic (List Value)}
    (h : EvaluatesAll env σ es o) (h' : EvaluatesAll env σ es o') : o = o' := by
  induction h generalizing o' with
  | nil =>
    cases h'
    rfl
  | cons first others ih =>
    cases h' with
    | cons first' others' =>
      cases first.deterministic first'
      cases ih others'
      rfl
    | firstFails first' => cases first.deterministic first'
    | othersFail first' others' => cases ih others'
  | firstFails first =>
    cases h' with
    | cons first' others' => cases first.deterministic first'
    | firstFails first' => exact congrArg _ (Except.error.inj (first.deterministic first'))
    | othersFail first' others' => cases first.deterministic first'
  | othersFail first others ih =>
    cases h' with
    | cons first' others' => cases ih others'
    | firstFails first' => cases first.deterministic first'
    | othersFail first' others' => exact ih others'

theorem EvaluatesAll.length_eq {es : List Expr} {vs : List Value}
    (h : EvaluatesAll env σ es (.ok vs)) : vs.length = es.length := by
  induction es generalizing vs with
  | nil =>
    cases h
    rfl
  | cons e rest ih =>
    cases h with
    | cons first others => rw [List.length_cons, List.length_cons, ih others]

theorem Callee.length_eq {name : Token} {args : List Expr} {params : List Param} {block : Block}
    {outer : Environment} (h : Callee env σ name args params block outer) :
    args.length = params.length := by
  obtain ⟨_, _, _, hlen⟩ := h
  exact hlen

theorem Callee.unique {name : Token} {args : List Expr} {params params' : List Param}
    {block block' : Block} {outer outer' : Environment}
    (h : Callee env σ name args params block outer)
    (h' : Callee env σ name args params' block' outer') :
    params = params' ∧ block = block' ∧ outer = outer' := by
  obtain ⟨l, bound, cell, _⟩ := h
  obtain ⟨l', bound', cell', _⟩ := h'
  cases bound.symm.trans bound'
  cases cell.symm.trans cell'
  exact ⟨rfl, rfl, rfl⟩

end

theorem Executes.cons_of_ok {limit : Int} {live : Nat} {env : Environment} {σ σ' : Store}
    {s : Stmt} {rest : List Stmt} {o : Except Diagnostic Store}
    (h : Executes limit live env σ [s] (.ok σ')) (hrest : Executes limit live env σ' rest o) :
    Executes limit live env σ (s :: rest) o := by
  cases h with
  | empty others =>
    cases others
    exact .empty hrest
  | compound inner others =>
    cases others
    exact .compound inner hrest
  | assign evaluated bound others =>
    cases others
    exact .assign evaluated bound hrest
  | call callee evaluated room body others =>
    cases others
    exact .call callee evaluated room body hrest

theorem Executes.cons_of_error {limit : Int} {live : Nat} {env : Environment} {σ : Store}
    {s : Stmt} {d : Diagnostic} (h : Executes limit live env σ [s] (.error d)) (rest : List Stmt) :
    Executes limit live env σ (s :: rest) (.error d) := by
  cases h with
  | empty others => cases others
  | compound inner others => cases others
  | compoundFails inner => exact .compoundFails inner
  | assign evaluated bound others => cases others
  | assignFails evaluated => exact .assignFails evaluated
  | call callee evaluated room body others => cases others
  | callFails callee evaluated room body => exact .callFails callee evaluated room body
  | argumentFails callee evaluated => exact .argumentFails callee evaluated
  | tooDeep callee evaluated full => exact .tooDeep callee evaluated full

theorem Executes.deterministic {limit : Int} {live : Nat} {env : Environment} {σ : Store}
    {ss : List Stmt} {o o' : Except Diagnostic Store} (h : Executes limit live env σ ss o)
    (h' : Executes limit live env σ ss o') : o = o' := by
  induction h generalizing o' with
  | nil =>
    cases h'
    rfl
  | empty others ih =>
    cases h' with
    | empty others' => exact ih others'
  | compound inner others ihi iho =>
    cases h' with
    | compound inner' others' =>
      cases ihi inner'
      exact iho others'
    | compoundFails inner' => cases ihi inner'
  | compoundFails inner ih =>
    cases h' with
    | compound inner' others' => cases ih inner'
    | compoundFails inner' => exact ih inner'
  | assign evaluated bound others ih =>
    cases h' with
    | assign evaluated' bound' others' =>
      cases evaluated.deterministic evaluated'
      cases bound.symm.trans bound'
      exact ih others'
    | assignFails evaluated' => cases evaluated.deterministic evaluated'
  | assignFails evaluated =>
    cases h' with
    | assign evaluated' bound' others' => cases evaluated.deterministic evaluated'
    | assignFails evaluated' =>
      exact congrArg _ (Except.error.inj (evaluated.deterministic evaluated'))
  | call callee evaluated room body others ihb iho =>
    cases h' with
    | call callee' evaluated' room' body' others' =>
      obtain ⟨rfl, rfl, rfl⟩ := callee.unique callee'
      cases evaluated.deterministic evaluated'
      cases ihb body'
      exact iho others'
    | callFails callee' evaluated' room' body' =>
      obtain ⟨rfl, rfl, rfl⟩ := callee.unique callee'
      cases evaluated.deterministic evaluated'
      cases ihb body'
    | argumentFails callee' evaluated' => cases evaluated.deterministic evaluated'
    | tooDeep callee' evaluated' full => omega
  | callFails callee evaluated room body ih =>
    cases h' with
    | call callee' evaluated' room' body' others' =>
      obtain ⟨rfl, rfl, rfl⟩ := callee.unique callee'
      cases evaluated.deterministic evaluated'
      cases ih body'
    | callFails callee' evaluated' room' body' =>
      obtain ⟨rfl, rfl, rfl⟩ := callee.unique callee'
      cases evaluated.deterministic evaluated'
      exact ih body'
    | argumentFails callee' evaluated' => cases evaluated.deterministic evaluated'
    | tooDeep callee' evaluated' full => omega
  | argumentFails callee evaluated =>
    cases h' with
    | call callee' evaluated' room' body' others' => cases evaluated.deterministic evaluated'
    | callFails callee' evaluated' room' body' => cases evaluated.deterministic evaluated'
    | argumentFails callee' evaluated' =>
      exact congrArg _ (Except.error.inj (evaluated.deterministic evaluated'))
    | tooDeep callee' evaluated' full => cases evaluated.deterministic evaluated'
  | tooDeep callee evaluated full =>
    cases h' with
    | call callee' evaluated' room' body' others' => omega
    | callFails callee' evaluated' room' body' => omega
    | argumentFails callee' evaluated' => cases evaluated.deterministic evaluated'
    | tooDeep callee' evaluated' full' => rfl

theorem Runs.deterministic {limit : Int} {p : Program}
    {o o' : Except Diagnostic (String → Option Value)} (h : Runs limit p o)
    (h' : Runs limit p o') : o = o' := by
  obtain ⟨final, hfinal, rfl⟩ := h
  obtain ⟨final', hfinal', rfl⟩ := h'
  rw [hfinal.deterministic hfinal']

def failureCodes : List Code :=
  [.unboundVariable, .typeMismatch, .divisionByZero, .integerOverflow, .stackOverflow]

theorem failureCodes_of_operation {c : Code} (h : c ∈ Value.operationCodes) : c ∈ failureCodes := by
  have hsubset : Value.operationCodes ⊆ failureCodes := by decide
  exact hsubset h

theorem Evaluates.code {env : Environment} {σ : Store} {e : Expr} {d : Diagnostic}
    (h : Evaluates env σ e (.error d)) : d.code ∈ failureCodes := by
  generalize ho : Except.error d = o at h
  induction h with
  | number | written => cases ho
  | unwritten bound cell =>
    cases ho
    exact (by decide : Code.unboundVariable ∈ failureCodes)
  | unary operand applied ih =>
    subst ho
    generalize ha : Value.unary _ _ = answer at applied
    cases applied
    exact failureCodes_of_operation (Value.code_of_unary ha)
  | unaryFails operand ih => exact ih ho
  | binary first second applied ihf ihs =>
    subst ho
    generalize ha : Value.binary _ _ _ = answer at applied
    cases applied
    exact failureCodes_of_operation (Value.code_of_binary ha)
  | leftFails first ih => exact ih ho
  | rightFails first second ihf ihs => exact ihs ho

theorem EvaluatesAll.code {env : Environment} {σ : Store} {es : List Expr} {d : Diagnostic}
    (h : EvaluatesAll env σ es (.error d)) : d.code ∈ failureCodes := by
  generalize ho : Except.error d = o at h
  induction h with
  | nil | cons => cases ho
  | firstFails first =>
    cases ho
    exact first.code
  | othersFail first others ih => exact ih (by cases ho; rfl)

/-- A run fails with one of these codes only. -/
theorem Executes.code {limit : Int} {live : Nat} {env : Environment} {σ : Store} {ss : List Stmt}
    {d : Diagnostic} (h : Executes limit live env σ ss (.error d)) : d.code ∈ failureCodes := by
  generalize ho : Except.error d = o at h
  induction h with
  | nil => cases ho
  | empty others ih => exact ih ho
  | compound inner others ihi iho => exact iho ho
  | compoundFails inner ih => exact ih ho
  | assign evaluated bound others ih => exact ih ho
  | assignFails evaluated =>
    cases ho
    exact evaluated.code
  | call callee evaluated room body others ihb iho => exact iho ho
  | callFails callee evaluated room body ih => exact ih ho
  | argumentFails callee evaluated =>
    cases ho
    exact evaluated.code
  | tooDeep callee evaluated full =>
    cases ho
    exact (by decide : Code.stackOverflow ∈ failureCodes)

theorem Runs.code {limit : Int} {p : Program} {d : Diagnostic} (h : Runs limit p (.error d)) :
    d.code ∈ failureCodes := by
  obtain ⟨final, hfinal, ho⟩ := h
  cases final with
  | ok σ => cases ho
  | error d' =>
    cases ho
    exact hfinal.code

end MiniPascal.Semantics
