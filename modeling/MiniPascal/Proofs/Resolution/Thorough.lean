import MiniPascal.Proofs.Resolution

/-!
# Checks before insertion

A thorough resolver makes sure right before it inserts the name of a procedure or variable that the
name is still new. It does the same as the resolver, which looks for repetitions at the beginning of
a block only: a block that passes has names that are new when their turn comes.
-/
namespace MiniPascal.Resolver

namespace Thorough

def ifNew (S : Scopes) (t : Token) (x : Resolver Scopes) : Resolver Scopes :=
  if (S.current.find? t.name).isSome then fail t (.duplicate t.name) else x

def procedures (S : Scopes) : List Decl → Resolver Scopes
  | [] => return S
  | .variable .. :: rest => procedures S rest
  | .procedure name params block :: rest => do
    let S ← ifNew S name do
      types S params
      insert S (.procedure (.declared S.current.level name params block))
    procedures S rest

mutual

def declaration (S : Scopes) : Decl → Resolver Scopes
  | .variable name type => do
    Resolver.type S type
    ifNew S name (insert S (.variable (.declared S.current.level name type)))
  | .procedure name params block => do
    let inner ← enter S name.name
    let inner ← Resolver.params inner params
    let inner ← Thorough.block inner block
    leave inner
    return S

def declarations (S : Scopes) : List Decl → Resolver Scopes
  | [] => return S
  | d :: rest => do
    let S ← declaration S d
    declarations S rest

def block (S : Scopes) : Block → Resolver Scopes
  | .mk decls _ body => do
    noRepetition S decls
    let S ← procedures S decls
    let S ← declarations S decls
    statements S body
    return S

end

def program (p : Program) : Resolver Scope := do
  note (.entered "global")
  let S ← inserts { current := { name := "global" } } builtins
  let S ← block S p.block
  leave S
  return S.current

variable {S : Scopes}

theorem ifNew_of_new {t : Token} (h : S.current.find? t.name = none) (x : Resolver Scopes) :
    ifNew S t x = x := by
  rw [ifNew, h, Option.isSome_none, if_neg Bool.false_ne_true]

theorem ifNew_bind (S : Scopes) (t : Token) (x : Resolver Scopes)
    (f : Scopes → Resolver Scopes) : ifNew S t x >>= f = ifNew S t (x >>= f) := by
  unfold ifNew
  split <;> rfl

theorem procedures_eq {decls : List Decl} (h : S.Fresh (decls.map fun d => d.name.name)) :
    procedures S decls = Resolver.procedures S decls := by
  induction decls generalizing S with
  | nil => rfl
  | cons d rest ih =>
    match d with
    | .variable name type =>
      exact ih ⟨(List.nodup_cons.mp h.1).2, (List.forall_mem_cons.mp h.2).2⟩
    | .procedure name params block =>
      let symbol : Symbol := .procedure (.declared S.current.level name params block)
      have hfind : S.current.find? name.name = none := h.2 _ List.mem_cons_self
      have happend : S.insert symbol = S.append [symbol] := Scopes.insert_eq_append hfind rfl
      have hrest := ih (S := S.insert symbol) (happend ▸ Scopes.Fresh.append [symbol] h)
      rw [procedures, Resolver.procedures, ifNew_of_new hfind]
      simp only [insert, bind_assoc, pure_bind]
      rw [hrest]

mutual

theorem declarations_eq (S : Scopes) : ∀ decls : List Decl,
    S.Fresh ((Decl.variableSymbols S.current.level decls).map Symbol.name) →
      declarations S decls = Resolver.declarations S decls
  | [], _ => rfl
  | .variable name type :: rest, h => by
    let symbol : Symbol := .variable (.declared S.current.level name type)
    have hfind : S.current.find? name.name = none := h.2 _ List.mem_cons_self
    have happend : S.insert symbol = S.append [symbol] := Scopes.insert_eq_append hfind rfl
    have hrest := declarations_eq (S.append [symbol]) rest (Scopes.Fresh.append [symbol] h)
    rw [← happend] at hrest
    rw [declarations, Resolver.declarations, declaration, Resolver.declaration,
      ifNew_of_new hfind]
    simp only [insert, bind_assoc, pure_bind]
    rw [hrest]
  | .procedure name params block :: rest, h => by
    rw [declarations, Resolver.declarations, declaration, Resolver.declaration]
    simp only [bind_assoc, pure_bind, block_eq _ block, declarations_eq S rest h]

theorem block_eq (S : Scopes) : ∀ b : Block, block S b = Resolver.block S b
  | .mk decls start body => by
    rw [block, Resolver.block]
    refine Stateful.bind_congr_of_ok fun f _ f' hpass => ?_
    have hfresh :=
      (noRepetition_settles S decls hpass).2 List.nodup_nil default (List.forall_mem_nil _)
    rw [procedures_eq hfresh]
    refine Stateful.bind_congr_of_ok fun f S' f' hknown => ?_
    have hS' : S' = S.append (Decl.procedureSymbols S.current.level decls) :=
      ((procedures_settles S decls hknown).2 List.nodup_nil default (List.forall_mem_nil _)).trans
        (Scopes.withProcedures_eq_append hfresh)
    subst hS'
    -- no variable has the name of a procedure that is known by now
    rw [declarations_eq _ decls hfresh.symbols.append]

end

theorem program_eq (p : Program) : program p = Resolver.program p := by
  simp only [program, Resolver.program, block_eq]

end Thorough

end MiniPascal.Resolver
