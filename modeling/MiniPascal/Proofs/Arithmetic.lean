import MiniPascal.Execution
import MiniPascal.Proofs.CallStack

/-!
# Integer arithmetic

Integer operations are carried out on words of 64 bits, which wrap, and are checked afterwards. Each
check refuses exactly the operands whose result over the integers does not fit. It follows that an
expression over integers has the value that it has over the integers, with division rounding toward
zero, or fails at the first of its operations that divides by zero or does not fit.
-/
namespace MiniPascal

namespace Value

theorem fits_iff (n : Int) :
    fits n = true ↔ -9223372036854775808 ≤ n ∧ n ≤ 9223372036854775807 := by
  rw [fits, Bool.and_eq_true, decide_eq_true_iff, decide_eq_true_iff, least, greatest]

def word? (n : Int) : Option Int64 :=
  if fits n then some (Int64.ofInt n) else none

theorem word?_toInt (w : Int64) : word? w.toInt = some w := by
  have hfits : fits w.toInt = true :=
    (fits_iff _).mpr ⟨w.le_toInt, Int.le_of_lt_add_one w.toInt_lt⟩
  rw [word?, if_pos hfits, Int64.ofInt_toInt]

/-- A check is right if what it lets through is exact and what it refuses does not fit. -/
theorem guarded_eq_word? {refused : Prop} [Decidable refused] {w : Int64} {n : Int}
    (hexact : ¬ refused → w.toInt = n) (hrefused : refused → ¬ fits n) :
    (if refused then none else some w) = word? n := by
  by_cases h : refused
  · rw [if_pos h, word?, if_neg (hrefused h)]
  · rw [if_neg h, ← hexact h, word?_toInt]

/-! ### Sums, differences, quotients and opposites -/

theorem sum?_eq (a b : Int64) : sum? a b = word? (a.toInt + b.toInt) := by
  have ha := a.le_toInt
  have ha' := a.toInt_lt
  have hb := b.le_toInt
  have hb' := b.toInt_lt
  unfold sum?
  simp only [Int64.lt_iff_toInt_lt, Int64.le_iff_toInt_le, Int64.toInt_zero, Int64.toInt_add,
    Int.bmod_def]
  refine guarded_eq_word? (fun h => ?_) (fun h hfits => ?_)
  · rw [Int64.toInt_add, Int.bmod_def]
    omega
  · rw [fits_iff] at hfits
    omega

theorem difference?_eq (a b : Int64) : difference? a b = word? (a.toInt - b.toInt) := by
  have ha := a.le_toInt
  have ha' := a.toInt_lt
  have hb := b.le_toInt
  have hb' := b.toInt_lt
  unfold difference?
  simp only [Int64.lt_iff_toInt_lt, Int64.le_iff_toInt_le, Int64.toInt_zero, Int64.toInt_sub,
    Int.bmod_def]
  refine guarded_eq_word? (fun h => ?_) (fun h hfits => ?_)
  · rw [Int64.toInt_sub, Int.bmod_def]
    omega
  · rw [fits_iff] at hfits
    omega

theorem quotient?_eq (a b : Int64) : quotient? a b = word? (a.toInt.tdiv b.toInt) := by
  refine guarded_eq_word? (fun h => ?_) ?_
  · rcases Classical.not_and_iff_not_or_not.mp h with ha | hb
    · exact Int64.toInt_div_of_ne_left a b ha
    · exact Int64.toInt_div_of_ne_right a b hb
  · rintro ⟨rfl, rfl⟩
    decide

theorem fits_neg_of_ne_minValue {a : Int64} (h : a ≠ Int64.minValue) : fits (-a.toInt) := by
  have hmin : a.toInt ≠ -9223372036854775808 := fun hmin => h (Int64.toInt_inj.mp hmin)
  have hleast := a.le_toInt
  have hgreatest := a.toInt_lt
  rw [fits_iff]
  omega

theorem opposite?_eq (a : Int64) : opposite? a = word? (-a.toInt) := by
  refine guarded_eq_word? (fun h => ?_) ?_
  · obtain ⟨hleast, hgreatest⟩ := (fits_iff _).mp (fits_neg_of_ne_minValue h)
    rw [Int64.toInt_neg]
    exact Int.bmod_eq_of_le (by omega) (by omega)
  · rintro rfl
    decide

/-! ### Products -/

/-- A wrapped result that is off by less than a whole turn is not off at all. -/
theorem bmod_eq_of_near {n d : Int} (h : n + d = n.bmod 18446744073709551616)
    (hleast : -18446744073709551616 < d) (hgreatest : d < 18446744073709551616) :
    n.bmod 18446744073709551616 = n := by
  have hturns := Int.bmod_add_bdiv n 18446744073709551616
  omega

theorem toInt_mul_of_fits {a b : Int64} (h : fits (a.toInt * b.toInt)) :
    (a * b).toInt = a.toInt * b.toInt := by
  obtain ⟨hleast, hgreatest⟩ := (fits_iff _).mp h
  rw [Int64.toInt_mul]
  exact Int.bmod_eq_of_le (by omega) (by omega)

/-- Dividing a wrapped product by a factor gives the other factor only if nothing was lost: what
remains is less than the factor, so less than a turn. -/
theorem toInt_mul_of_div_eq {a b : Int64} (hb : b ≠ 0) (hminus : b ≠ -1) (h : a * b / b = a) :
    (a * b).toInt = a.toInt * b.toInt := by
  have hquotient : (a * b).toInt.tdiv b.toInt = a.toInt := by
    rw [← Int64.toInt_div_of_ne_right _ _ hminus, h]
  have hparts := Int.tmod_add_mul_tdiv (a * b).toInt b.toInt
  rw [hquotient, Int.mul_comm, Int.add_comm] at hparts
  have hsmall : ((a * b).toInt.tmod b.toInt).natAbs < b.toInt.natAbs := by
    rw [Int.natAbs_tmod]
    exact Nat.mod_lt _ (Int.natAbs_pos.mpr fun hzero => hb (Int64.toInt_inj.mp hzero))
  have hleast := b.le_toInt
  have hgreatest := b.toInt_lt
  rw [Int64.toInt_mul] at hparts hsmall ⊢
  exact bmod_eq_of_near hparts (by omega) (by omega)

theorem mul_div_of_fits {a b : Int64} (hb : b ≠ 0) (h : fits (a.toInt * b.toInt)) :
    a * b / b = a := by
  have hb' : b.toInt ≠ 0 := fun hzero => hb (Int64.toInt_inj.mp hzero)
  have hproduct := toInt_mul_of_fits h
  apply Int64.toInt_inj.mp
  by_cases hminus : b = -1
  · have hone : b.toInt = -1 := hminus ▸ rfl
    have hword : a * b ≠ Int64.minValue := by
      intro hmin
      have hmin' : a.toInt * b.toInt = -9223372036854775808 := hproduct ▸ congrArg Int64.toInt hmin
      have hgreatest := a.toInt_lt
      rw [hone] at hmin'
      omega
    rw [Int64.toInt_div_of_ne_left _ _ hword, hproduct, Int.mul_tdiv_cancel _ hb']
  · rw [Int64.toInt_div_of_ne_right _ _ hminus, hproduct, Int.mul_tdiv_cancel _ hb']

theorem product?_eq (a b : Int64) : product? a b = word? (a.toInt * b.toInt) := by
  refine guarded_eq_word? (fun h => ?_) ?_
  · by_cases ha : a = 0
    · rw [ha, Int64.zero_mul, Int64.toInt_zero, Int.zero_mul]
    by_cases hb : b = 0
    · rw [hb, Int64.mul_zero, Int64.toInt_zero, Int.mul_zero]
    have hdivides : a * b / b = a :=
      Decidable.byContradiction fun hne => h ⟨ha, hb, .inl hne⟩
    -- With the factor -1 the division wraps as the product does, so it says nothing.
    by_cases hminus : b = -1
    · have hword : a ≠ Int64.minValue := fun hmin => h ⟨ha, hb, .inr (.inr ⟨hminus, hmin⟩)⟩
      have hone : a.toInt * b.toInt = -a.toInt := by
        rw [hminus, show (-1 : Int64).toInt = -1 from rfl, Int.mul_neg_one]
      exact toInt_mul_of_fits (hone ▸ fits_neg_of_ne_minValue hword)
    · exact toInt_mul_of_div_eq hb hminus hdivides
  · rintro ⟨ha, hb, hne | ⟨rfl, rfl⟩ | ⟨rfl, rfl⟩⟩
    · exact fun hfits => hne (mul_div_of_fits hb hfits)
    · decide
    · decide

end Value

inductive Operation
  | sign (op : Token) (operand : Int)
  | binary (left : Int) (op : Token) (right : Int)

namespace Operation

def token : Operation → Token
  | sign op _ => op
  | binary _ op _ => op

/-- The result over the integers; division rounds toward zero. -/
def result : Operation → Int
  | sign op n => if op.kind = .minus then -n else n
  | binary a op b =>
    match op.kind with
    | .plus => a + b
    | .minus => a - b
    | .star => a * b
    | _ => a.tdiv b

def dividesByZero : Operation → Bool
  | sign .. => false
  | binary _ op b => op.kind == .divWord && b == 0

/-- Whether an operation has no result, or one that does not fit. -/
def offends (o : Operation) : Bool :=
  o.dividesByZero || !Value.fits o.result

theorem offends_eq_false_iff (o : Operation) :
    o.offends = false ↔ o.dividesByZero = false ∧ Value.fits o.result = true := by
  rw [offends, Bool.or_eq_false_iff, Bool.not_eq_false']

def overflow : Operation → Cause
  | sign _ n => .negationOverflow (toString n)
  | binary a op b => .overflow (toString a) op.kind (toString b)

def cause (o : Operation) : Cause :=
  if o.dividesByZero then .divisionByZero else o.overflow

theorem code_overflow (o : Operation) : o.overflow.code = .integerOverflow := by
  cases o <;> rfl

def answer (o : Operation) : Except Value.OperationError Value :=
  if o.offends then .error (.cause o.cause) else .ok (.int (Int64.ofInt o.result))

theorem answer_of_word {o : Operation} (hzero : o.dividesByZero = false) :
    o.answer = match Value.word? o.result with
      | some n => .ok (.int n)
      | none => .error (.cause o.overflow) := by
  rw [answer, offends, cause, hzero, Value.word?]
  cases Value.fits o.result <;> rfl

end Operation

open Execution

theorem Value.unary_eq {op : Token} (n : Int64) :
    Value.unary op.kind (.int n) = (Operation.sign op n.toInt).answer := by
  rw [Operation.answer_of_word rfl]
  by_cases hminus : op.kind = .minus
  · rw [Value.unary, if_pos hminus, Value.negate, Value.opposite?_eq, Operation.result,
      if_pos hminus]
    cases Value.word? (-n.toInt) <;> rfl
  · rw [Value.unary, if_neg hminus, Operation.result, if_neg hminus, Value.word?_toInt]

def Kind.isIntegerOperator (op : Kind) : Prop :=
  op = .plus ∨ op = .minus ∨ op = .star ∨ op = .divWord

theorem Value.binary_eq {op : Token} (hop : op.kind.isIntegerOperator) (a b : Int64) :
    Value.binary op.kind (.int a) (.int b) = (Operation.binary a.toInt op b.toInt).answer := by
  obtain ⟨kind, lexeme, position, index⟩ := op
  rcases hop with rfl | rfl | rfl | rfl
  · rw [Operation.answer_of_word rfl, binary, sum?_eq]
    rfl
  · rw [Operation.answer_of_word rfl, binary, difference?_eq]
    rfl
  · rw [Operation.answer_of_word rfl, binary, product?_eq]
    rfl
  · rw [binary]
    by_cases hzero : b = 0
    · subst hzero
      rfl
    · have hnonzero : (Operation.binary a.toInt ⟨.divWord, lexeme, position, index⟩
          b.toInt).dividesByZero = false :=
        beq_eq_false_iff_ne.mpr fun h => hzero (Int64.toInt_inj.mp h)
      rw [if_neg hzero, Operation.answer_of_word hnonzero, quotient?_eq]
      rfl

namespace Operation

/-- Operations carried out in order and a last result, and what is answered: the result if none of
them offends, and else the first that does. -/
def Settles (operations : List Operation) (result : Int) (answer : Except RunError Value) : Prop :=
  match operations.find? offends with
  | none => ∃ n : Int64, answer = .ok (.int n) ∧ n.toInt = result
  | some o => answer = .error (.diagnostic (.atToken o.token o.cause))

theorem settles_nil (n : Int64) : Settles [] n.toInt (.ok (.int n)) := ⟨n, rfl, rfl⟩

theorem settles_answer (o : Operation) :
    Settles [o] o.result (o.answer.mapError (RunError.ofOperation o.token)) := by
  unfold Settles answer
  cases hoffends : o.offends with
  | true =>
    rw [List.find?_cons_of_pos hoffends]
    rfl
  | false =>
    rw [List.find?_cons_of_neg (by rw [hoffends]; decide)]
    have hfits : Value.fits o.result = true := (o.offends_eq_false_iff.mp hoffends).2
    obtain ⟨hleast, hgreatest⟩ := (Value.fits_iff _).mp hfits
    exact ⟨_, rfl, Int64.toInt_ofInt_of_le hleast (Int.lt_add_one_of_le hgreatest)⟩

theorem Settles.bind {first second : List Operation} {x y : Int} {a : Except RunError Value}
    {f : Value → Except RunError Value} (h : Settles first x a)
    (hf : ∀ n : Int64, n.toInt = x → Settles second y (f (.int n))) :
    Settles (first ++ second) y (a >>= f) := by
  unfold Settles at h ⊢
  rw [List.find?_append]
  cases hfirst : first.find? offends with
  | none =>
    rw [hfirst] at h
    obtain ⟨n, rfl, hn⟩ := h
    exact hf n hn
  | some o =>
    rw [hfirst] at h
    rw [h]
    rfl

theorem Settles.exists_exact {operations : List Operation} {x : Int} {a : Except RunError Value}
    (h : Settles operations x a) (hall : ∀ o ∈ operations, o.offends = false) :
    ∃ n : Int64, a = .ok (.int n) ∧ n.toInt = x := by
  have hnone : operations.find? offends = none :=
    List.find?_eq_none.mpr fun o ho => by rw [hall o ho]; decide
  unfold Settles at h
  rwa [hnone] at h

theorem Settles.eq_error {before after : List Operation} {o : Operation} {x : Int}
    {a : Except RunError Value} (h : Settles (before ++ o :: after) x a)
    (hbefore : ∀ earlier ∈ before, earlier.offends = false) (ho : o.offends = true) :
    a = .error (.diagnostic (.atToken o.token o.cause)) := by
  have hnone : before.find? offends = none :=
    List.find?_eq_none.mpr fun earlier he => by rw [hbefore earlier he]; decide
  unfold Settles at h
  rwa [List.find?_append, hnone, Option.none_or, List.find?_cons_of_pos ho] at h

theorem Settles.exact_of_ok {operations : List Operation} {x : Int} {v : Value}
    (h : Settles operations x (.ok v)) : ∃ n : Int64, v = .int n ∧ n.toInt = x := by
  unfold Settles at h
  split at h
  · obtain ⟨n, hv, hn⟩ := h
    cases hv
    exact ⟨n, rfl, hn⟩
  · cases h

end Operation

def Expr.exact (env : Token → Int64) : Expr → Int
  | .number _ (.int n) => n.toInt
  | .number _ (.real _) => 0
  | .variable t => (env t).toInt
  | .unary op e => (Operation.sign op (e.exact env)).result
  | .binary left op right => (Operation.binary (left.exact env) op (right.exact env)).result

/-- The operations of an expression in the order in which they are carried out: the operands come
first, from left to right. -/
def Expr.operations (env : Token → Int64) : Expr → List Operation
  | .number .. => []
  | .variable _ => []
  | .unary op e => e.operations env ++ [Operation.sign op (e.exact env)]
  | .binary left op right =>
    left.operations env ++ right.operations env ++
      [Operation.binary (left.exact env) op (right.exact env)]

/-- Expressions of integer constants, variables that hold the integers of an environment, signs and
integer operators. -/
def Expr.IsIntegral (r : Resolution) (s : CallStack) (env : Token → Int64) : Expr → Prop
  | .number _ v => ∃ n, v = .int n
  | .variable t => read r s t = .ok (.int (env t))
  | .unary op e => op.kind.isSign = true ∧ e.IsIntegral r s env
  | .binary left op right =>
    op.kind.isIntegerOperator ∧ left.IsIntegral r s env ∧ right.IsIntegral r s env

theorem Expr.settles {r : Resolution} {s : CallStack} {env : Token → Int64} (e : Expr)
    (he : e.IsIntegral r s env) :
    Operation.Settles (e.operations env) (e.exact env) (evaluate r s e) := by
  induction e with
  | number _ v =>
    obtain ⟨n, rfl⟩ := he
    exact Operation.settles_nil n
  | «variable» t =>
    rw [evaluate, show read r s t = .ok (.int (env t)) from he]
    exact Operation.settles_nil (env t)
  | unary op e ih =>
    refine (ih he.2).bind fun n hn => ?_
    rw [Value.unary_eq, hn]
    exact Operation.settles_answer _
  | binary left op right ihl ihr =>
    obtain ⟨hop, hleft, hright⟩ := he
    rw [operations, List.append_assoc]
    refine (ihl hleft).bind fun a ha => (ihr hright).bind fun b hb => ?_
    rw [Value.binary_eq hop, ha, hb]
    exact Operation.settles_answer _

/-- An expression over integers has its value over the integers unless an operation divides by zero
or gives a result that does not fit; then it fails at the first such operation in the order in which
they are carried out. It never has a value that has wrapped. -/
theorem integer_arithmetic_is_exact_or_fails {r : Resolution} {s : CallStack}
    {env : Token → Int64} {e : Expr} (he : e.IsIntegral r s env) :
    ((∀ o ∈ e.operations env, o.dividesByZero = false ∧ Value.fits o.result) →
      ∃ n : Int64, evaluate r s e = .ok (.int n) ∧ n.toInt = e.exact env) ∧
    (∀ before o after, e.operations env = before ++ o :: after →
      (∀ earlier ∈ before, earlier.dividesByZero = false ∧ Value.fits earlier.result) →
      (o.dividesByZero = true →
        evaluate r s e = .error (.diagnostic (.atToken o.token .divisionByZero))) ∧
      (o.dividesByZero = false → ¬ Value.fits o.result →
        evaluate r s e = .error (.diagnostic (.atToken o.token o.overflow)) ∧
        o.overflow.code = .integerOverflow)) ∧
    ∀ v, evaluate r s e = .ok v → ∃ n : Int64, v = .int n ∧ n.toInt = e.exact env := by
  have hsettles := e.settles he
  refine ⟨fun hall => ?_, fun before o after hops hbefore => ?_, fun v hv => ?_⟩
  · exact hsettles.exists_exact fun o ho => o.offends_eq_false_iff.mpr (hall o ho)
  · rw [hops] at hsettles
    have herror := hsettles.eq_error fun earlier hmem =>
      earlier.offends_eq_false_iff.mpr (hbefore earlier hmem)
    refine ⟨fun hzero => ?_, fun hzero hfits => ⟨?_, o.code_overflow⟩⟩
    · rw [herror (by rw [Operation.offends, hzero, Bool.true_or]), Operation.cause, if_pos hzero]
    · have hoffends : o.offends = true :=
        Bool.not_eq_false _ ▸ fun h => hfits (o.offends_eq_false_iff.mp h).2
      rw [herror hoffends, Operation.cause, if_neg (by rw [hzero]; decide)]
  · rw [hv] at hsettles
    exact hsettles.exact_of_ok

/-- The product of -1 and the least integer, which is the least integer when it wraps. -/
theorem integer_arithmetic_is_exact_or_fails_least :
    let token (kind : Kind) : Token := { kind, pos := .start "p.pas" }
    let y : Token := { kind := .identifier, lexeme := some "y", pos := .start "p.pas", index := 1 }
    let e : Expr := .binary (.unary (token .minus) (.number (token .integerConst) (.int 1)))
      (token .star) (.variable y)
    let r : Resolution :=
      { globals := default, references := [(1, { name := "y", level := 1 })], calls := [] }
    let s : CallStack :=
      CallStack.enter {} { name := "p", members := [("y", .int Int64.minValue)] }
    e.IsIntegral r s (fun _ => Int64.minValue) ∧
      evaluate r s e = .error (.diagnostic (.atToken (token .star)
        (.overflow "-1" .star "-9223372036854775808"))) := by
  intro token y e r s
  have hvisible : s.visible 1 = some 0 := CallStack.enclosing_self rfl rfl
  have howner : owner r s y = .ok (0, { name := "y", level := 1 }) := by
    unfold owner
    simp only [r, y, Table.find?, List.lookup_cons_self, hvisible]
  have he : e.IsIntegral r s (fun _ => Int64.minValue) := by
    refine ⟨.inr (.inr (.inl rfl)), ⟨rfl, 1, rfl⟩, ?_⟩
    unfold Expr.IsIntegral Execution.read
    rw [howner]
    rfl
  refine ⟨he, ?_⟩
  have hfirst := (integer_arithmetic_is_exact_or_fails he).2.1
    [.sign (token .minus) 1] (.binary (-1) (token .star) (-9223372036854775808)) [] rfl
    (by decide)
  exact (hfirst.2 rfl (by decide)).1

end MiniPascal
