import MiniPascal.Proofs.Resolution

/-!
# Watching the resolver

The resolver inserts symbols without asking whether the scope took them, and it looks types up
although only built-in types can be mentioned. Under watch it does the same, and beside that notes
every insertion and every look-up of a type with the scopes in which it takes place, also if it
fails later.
-/
namespace MiniPascal

/-- What the resolver takes for granted in some scopes: that the innermost one takes a symbol, or
that a type is known. -/
inductive Reliance
  | taken (S : Scopes) (symbol : Symbol)
  | known (S : Scopes) (type : Token)

/-- What has been found out under watch, and what has been relied on, in order. -/
structure Watch where
  found : Findings := {}
  relied : List Reliance := []

abbrev Watched := ExceptT Diagnostic (StateM Watch)

namespace Watched

variable {α β : Type}

def lift (x : Resolver α) : Watched α := fun w =>
  let (result, found) := x w.found
  (result, { w with found })

def rely (r : Reliance) : Watched Unit :=
  modify fun w => { w with relied := w.relied ++ [r] }

def insert (S : Scopes) (symbol : Symbol) : Watched Scopes := do
  rely (.taken S symbol)
  lift (Resolver.insert S symbol)

def type (S : Scopes) (t : Token) : Watched Unit := do
  rely (.known S t)
  lift (Resolver.type S t)

def types (S : Scopes) : List Param → Watched Unit
  | [] => return
  | p :: rest => do
    type S p.type
    types S rest

def procedures (S : Scopes) : List Decl → Watched Scopes
  | [] => return S
  | .variable .. :: rest => procedures S rest
  | .procedure name params block :: rest => do
    types S params
    let p := Procedure.declared S.current.level name params block
    procedures (← insert S (.procedure p)) rest

def params (S : Scopes) : List Param → Watched Scopes
  | [] => return S
  | p :: rest => do
    if (S.current.find? p.name.name).isSome then
      lift (Resolver.fail p.name (.duplicate p.name.name))
    else
      let v := Variable.declared S.current.level p.name p.type
      params (← insert S (.variable v)) rest

mutual

def declaration (S : Scopes) : Decl → Watched Scopes
  | .variable name type => do
    Watched.type S type
    insert S (.variable (.declared S.current.level name type))
  | .procedure name params block => do
    let inner ← lift (Resolver.enter S name.name)
    let inner ← Watched.params inner params
    let inner ← Watched.block inner block
    lift (Resolver.leave inner)
    return S

def declarations (S : Scopes) : List Decl → Watched Scopes
  | [] => return S
  | d :: rest => do
    let S ← declaration S d
    declarations S rest

def block (S : Scopes) : Block → Watched Scopes
  | .mk decls _ body => do
    lift (Resolver.noRepetition S decls)
    let S ← procedures S decls
    let S ← declarations S decls
    lift (Resolver.statements S body)
    return S

end

def inserts (S : Scopes) : List Symbol → Watched Scopes
  | [] => return S
  | s :: rest => do inserts (← insert S s) rest

def program (p : Program) : Watched Scope := do
  lift (Resolver.note (.entered "global"))
  let S ← inserts { current := { name := "global" } } Resolver.builtins
  let S ← block S p.block
  lift (Resolver.leave S)
  return S.current

end Watched

/-- Resolves a program under watch: the answer, the events, and what was relied on. -/
def Program.watch (p : Program) :
    (Except Diagnostic Resolution × List ScopeEvent) × List Reliance :=
  match Watched.program p {} with
  | (.ok globals, w) =>
    ((.ok { globals, references := w.found.references, calls := w.found.calls },
      w.found.events.reverse), w.relied)
  | (.error d, w) => ((.error d, w.found.events.reverse), w.relied)

namespace Watched

section

variable {α β : Type} {x : Resolver α} {x' : Watched α} {w w' : Watch}

def Follows (x' : Watched α) (x : Resolver α) : Prop :=
  ∀ w, x w.found = ((x' w).1, (x' w).2.found)

theorem Follows.answer (h : Follows x' x) {a : α} (hw : x' w = (.ok a, w')) :
    x w.found = (.ok a, w'.found) := by
  rw [h w, hw]

theorem Follows.bind {g : α → Resolver β} {g' : α → Watched β} (hx : Follows x' x)
    (hg : ∀ a, Follows (g' a) (g a)) : Follows (x' >>= g') (x >>= g) := by
  intro w
  have hfollows := hx w
  rcases hw : x' w with ⟨d | a, w₁⟩
  · rw [hw] at hfollows
    rw [Stateful.bind_of_error hw, Stateful.bind_of_error hfollows]
  · rw [hw] at hfollows
    rw [Stateful.bind_of_ok hw, Stateful.bind_of_ok hfollows]
    exact hg a w₁

theorem follows_pure (a : α) : Follows (pure a) (pure a) := fun _ => rfl

theorem follows_lift (x : Resolver α) : Follows (lift x) x := fun _ => rfl

theorem follows_insert (S : Scopes) (symbol : Symbol) :
    Follows (insert S symbol) (Resolver.insert S symbol) := fun _ => rfl

theorem follows_type (S : Scopes) (t : Token) : Follows (type S t) (Resolver.type S t) :=
  fun _ => rfl

end

theorem follows_types (S : Scopes) (ps : List Param) :
    Follows (types S ps) (Resolver.types S ps) := by
  induction ps with
  | nil => exact follows_pure ()
  | cons p rest ih => exact (follows_type S p.type).bind fun _ => ih

theorem follows_procedures (S : Scopes) (decls : List Decl) :
    Follows (procedures S decls) (Resolver.procedures S decls) := by
  induction decls generalizing S with
  | nil => exact follows_pure S
  | cons d rest ih =>
    cases d with
    | «variable» => exact ih S
    | procedure name params block =>
      exact (follows_types S params).bind fun _ => (follows_insert S _).bind ih

theorem follows_params (S : Scopes) (ps : List Param) :
    Follows (params S ps) (Resolver.params S ps) := by
  induction ps generalizing S with
  | nil => exact follows_pure S
  | cons p rest ih =>
    rw [params, Resolver.params]
    by_cases h : (S.current.find? p.name.name).isSome
    · rw [if_pos h, if_pos h]
      exact follows_lift _
    · rw [if_neg h, if_neg h]
      exact (follows_insert S _).bind ih

mutual

theorem follows_declaration (S : Scopes) : ∀ d : Decl,
    Follows (declaration S d) (Resolver.declaration S d)
  | .variable _ type => (follows_type S type).bind fun _ => follows_insert S _
  | .procedure _ params block =>
    (follows_lift _).bind fun inner => (follows_params inner params).bind fun inner =>
      (follows_block inner block).bind fun inner =>
        (follows_lift (Resolver.leave inner)).bind fun _ => follows_pure S

theorem follows_declarations (S : Scopes) : ∀ decls : List Decl,
    Follows (declarations S decls) (Resolver.declarations S decls)
  | [] => follows_pure S
  | d :: rest => (follows_declaration S d).bind fun S => follows_declarations S rest

theorem follows_block (S : Scopes) : ∀ b : Block, Follows (block S b) (Resolver.block S b)
  | .mk decls _ body =>
    (follows_lift _).bind fun _ => (follows_procedures S decls).bind fun S =>
      (follows_declarations S decls).bind fun S =>
        (follows_lift (Resolver.statements S body)).bind fun _ => follows_pure S

end

theorem follows_inserts (S : Scopes) (symbols : List Symbol) :
    Follows (inserts S symbols) (Resolver.inserts S symbols) := by
  induction symbols generalizing S with
  | nil => exact follows_pure S
  | cons symbol rest ih => exact (follows_insert S symbol).bind ih

theorem follows_program (p : Program) : Follows (program p) (Resolver.program p) :=
  (follows_lift _).bind fun _ => (follows_inserts _ _).bind fun S =>
    (follows_block S p.block).bind fun S =>
      (follows_lift (Resolver.leave S)).bind fun _ => follows_pure S.current

end Watched

end MiniPascal
