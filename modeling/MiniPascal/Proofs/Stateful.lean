import MiniPascal.Execution

/-!
# Computations with a state and a failure

Resolving and running keep a state also when they fail. A computation is applied to a state and
gives an answer with the next state; these are the steps of such applications.
-/
namespace MiniPascal.Stateful

variable {ε σ α β : Type} {x : ExceptT ε (StateM σ) α} {f : α → ExceptT ε (StateM σ) β}
  {s s' : σ}

theorem bind_of_ok {a : α} (h : x s = (.ok a, s')) : (x >>= f) s = f a s' := by
  change (match x s with | (a, s) => ExceptT.bindCont f a s) = _
  rw [h]
  rfl

theorem bind_of_error {e : ε} (h : x s = (.error e, s')) : (x >>= f) s = (.error e, s') := by
  change (match x s with | (a, s) => ExceptT.bindCont f a s) = _
  rw [h]
  rfl

theorem bind_eq_ok {b : β} :
    (x >>= f) s = (.ok b, s') ↔ ∃ a s₁, x s = (.ok a, s₁) ∧ f a s₁ = (.ok b, s') := by
  rcases hx : x s with ⟨e | a, s₁⟩
  case error =>
    rw [bind_of_error hx]
    constructor
    · intro h
      cases h
    · rintro ⟨a, s₁, h, _⟩
      cases h
  case ok =>
    rw [bind_of_ok hx]
    constructor
    · intro h
      exact ⟨a, s₁, rfl, h⟩
    · rintro ⟨a', s₁', h, hf⟩
      cases h
      exact hf

theorem bind_eq_error {e : ε} :
    (x >>= f) s = (.error e, s') ↔
      x s = (.error e, s') ∨ ∃ a s₁, x s = (.ok a, s₁) ∧ f a s₁ = (.error e, s') := by
  rcases hx : x s with ⟨e' | a, s₁⟩
  case error =>
    rw [bind_of_error hx]
    constructor
    · intro h
      cases h
      exact .inl rfl
    · rintro (h | ⟨a, s₁, h, _⟩)
      · cases h
        rfl
      · cases h
  case ok =>
    rw [bind_of_ok hx]
    constructor
    · intro h
      exact .inr ⟨a, s₁, rfl, h⟩
    · rintro (h | ⟨a', s₁', h, hf⟩)
      · cases h
      · cases h
        exact hf

/-- What comes behind a computation matters only for the answers that it can give. -/
theorem bind_congr_of_ok {g : α → ExceptT ε (StateM σ) β}
    (h : ∀ s a s', x s = (.ok a, s') → f a = g a) : x >>= f = x >>= g := by
  funext s
  rcases hx : x s with ⟨e | a, s₁⟩
  · rw [bind_of_error hx, bind_of_error hx]
  · rw [bind_of_ok hx, bind_of_ok hx, h s a s₁ hx]

theorem pure_eq_ok {a b : α} :
    (pure a : ExceptT ε (StateM σ) α) s = (.ok b, s') ↔ a = b ∧ s = s' := by
  change (Except.ok a, s) = _ ↔ _
  simp only [Prod.mk.injEq, Except.ok.injEq]

theorem modify_eq_ok {g : σ → σ} {u : Unit} :
    (modify g : ExceptT ε (StateM σ) Unit) s = (.ok u, s') ↔ g s = s' := by
  change (Except.ok (), g s) = _ ↔ _
  simp only [Prod.mk.injEq, true_and]

theorem throw_ne_ok {e : ε} {a : α} :
    (throw e : ExceptT ε (StateM σ) α) s ≠ (.ok a, s') := by
  intro h
  cases h

theorem tryCatch_of_ok {handler : ε → ExceptT ε (StateM σ) α} {a : α} (h : x s = (.ok a, s')) :
    (tryCatch x handler) s = (.ok a, s') := by
  change (match x s with | (a, s) => (match a with
    | .ok a => (pure (.ok a) : StateM σ (Except ε α))
    | .error e => handler e) s) = _
  rw [h]
  rfl

theorem tryCatch_of_error {handler : ε → ExceptT ε (StateM σ) α} {e : ε}
    (h : x s = (.error e, s')) : (tryCatch x handler) s = handler e s' := by
  change (match x s with | (a, s) => (match a with
    | .ok a => (pure (.ok a) : StateM σ (Except ε α))
    | .error e => handler e) s) = _
  rw [h]

end MiniPascal.Stateful
