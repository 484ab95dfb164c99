import MiniPascal.Proofs.Syntax.Nodes
import MiniPascal.Resolution

/-!
# Resolving bodies

Resolving a body looks names up and enters what they stand for in the tables. It fails where a name
stands for nothing that fits its use, or where a call has the wrong number of arguments. What all
these steps have in common, and computations made of them one after the other, whole bodies have.
-/
namespace MiniPascal.Resolver

/-- The steps of resolving a body have the property, and with two computations the one made of both
has it. -/
structure HoldsOfSteps (P : Resolver Unit → Prop) : Prop where
  nothing : P (pure ())
  sequence {x y : Resolver Unit} : P x → P y → P (x >>= fun _ => y)
  lookUp (name scope : String) : P (note (.lookedUp name scope))
  enterReference (i : Nat) (v : Variable) :
    P (modify fun f => { f with references := f.references.insert i v })
  enterCall (i : Nat) (p : Procedure) : P (modify fun f => { f with calls := f.calls.insert i p })
  noVariable (t : Token) (name : String) : P (fail t (.variableNotFound name))
  noProcedure (t : Token) (name : String) : P (fail t (.procedureNotFound name))
  wrongArity (t : Token) (name : String) (expected found : Nat) :
    P (fail t (.arity name expected found))

namespace HoldsOfSteps

variable {P : Resolver Unit → Prop} (h : HoldsOfSteps P) (S : Scopes)
include h

theorem reference (t : Token) : P (Resolver.reference S t) := by
  unfold Resolver.reference
  apply h.sequence (h.lookUp _ _)
  split
  · exact h.enterReference _ _
  · exact h.noVariable t _

theorem expression : ∀ e : Expr, P (Resolver.expression S e)
  | .number .. => h.nothing
  | .variable t => h.reference S t
  | .unary _ e => expression e
  | .binary left _ right => h.sequence (expression left) (expression right)

theorem expressions (es : List Expr) : P (Resolver.expressions S es) := by
  induction es with
  | nil => exact h.nothing
  | cons e rest ih => exact h.sequence (h.expression S e) ih

theorem call (name : Token) (args : List Expr) : P (Resolver.call S name args) := by
  unfold Resolver.call
  apply h.sequence (h.lookUp _ _)
  split
  · split
    · exact h.sequence (h.expressions S args) (h.enterCall _ _)
    · exact h.wrongArity name _ _ _
  · exact h.noProcedure name _

theorem statements (ss : List Stmt) : P (Resolver.statements S ss) := by
  induction ss using Stmt.sequence_induction with
  | nil => exact h.nothing
  | compound start children rest ihc ihr => exact h.sequence ihc ihr
  | assign target op value rest ih =>
    apply h.sequence (h.sequence (h.expression S value) (h.reference S target)) ih
  | call name args rest ih => exact h.sequence (h.call S name args) ih
  | empty rest ih => exact h.sequence h.nothing ih

end HoldsOfSteps

end MiniPascal.Resolver
