import MiniPascal.Value

/-!
# What operations give

An operator that is one fails for one of three classes of causes: operands of the wrong type, a
division by zero, or a result that does not fit. The types of the operands decide whether they are
of the wrong type, and which type the result has. Only the other two classes depend on the numbers.
-/
namespace MiniPascal

def Code.numeric : List Code := [.divisionByZero, .integerOverflow]

namespace Value

def operationCodes : List Code :=
  [.typeMismatch, .divisionByZero, .integerOverflow]

theorem code_of_checked {a b : Int64} {op : Kind} {n : Option Int64} {c : Cause}
    (h : checked a op b n = .error (.cause c)) : c.code ∈ operationCodes := by
  unfold checked at h
  split at h
  · cases h
  · cases h
    exact (by decide : Code.integerOverflow ∈ operationCodes)

theorem code_of_binary {op : Kind} {a b : Value} {c : Cause}
    (h : binary op a b = .error (.cause c)) : c.code ∈ operationCodes := by
  unfold binary at h
  split at h
  case h_7 =>
    split at h
    · cases h
      exact (by decide : Code.divisionByZero ∈ operationCodes)
    · exact code_of_checked h
  case h_8 =>
    cases h
    exact (by decide : Code.typeMismatch ∈ operationCodes)
  case h_9 =>
    split at h
    · cases h
      exact (by decide : Code.divisionByZero ∈ operationCodes)
    · cases h
  case h_1 | h_3 | h_5 => exact code_of_checked h
  all_goals cases h

theorem code_of_unary {op : Kind} {v : Value} {c : Cause}
    (h : unary op v = .error (.cause c)) : c.code ∈ operationCodes := by
  unfold unary at h
  split at h
  · unfold negate at h
    split at h
    · cases h
    · split at h
      · cases h
      · cases h
        exact (by decide : Code.integerOverflow ∈ operationCodes)
  · cases h

/-- The type of the result that an operator has for operands of some types, or the cause for which
it has none. -/
def resultType (op left right : Kind) : Except Cause Kind :=
  if left = .integerWord ∧ right = .integerWord then
    .ok (if op = .slash then .realWord else .integerWord)
  else if op = .divWord then .error (.divisionOperands left right)
  else .ok .realWord

/-- The result of an operation has a type, or there is none for a cause, where the numbers of the
operands do not prevent it. -/
inductive Typed : Except OperationError Value → Except Cause Kind → Prop
  | value {v : Value} : Typed (.ok v) (.ok v.type)
  | cause (c : Cause) : Typed (.error (.cause c)) (.error c)
  | numeric {c : Cause} {type : Except Cause Kind} (hc : c.code ∈ Code.numeric) :
      Typed (.error (.cause c)) type
  | unknown (op : Kind) {type : Except Cause Kind} : Typed (.error (.unknownOperator op)) type

theorem typed_checked (a : Int64) (op : Kind) (b : Int64) (n : Option Int64) :
    Typed (checked a op b n) (.ok .integerWord) := by
  cases n with
  | none => exact .numeric (by decide : Code.integerOverflow ∈ Code.numeric)
  | some n => exact .value

theorem not_integers {a b : Value} (h : ∀ n m, a = int n → b = int m → False) :
    ¬ (a.type = .integerWord ∧ b.type = .integerWord) := by
  rintro ⟨ha, hb⟩
  cases a with
  | real => cases ha
  | int n =>
    cases b with
    | real => cases hb
    | int m => exact h n m rfl rfl

theorem resultType_of_not_integers {op : Kind} {a b : Value} (hop : op ≠ .divWord)
    (h : ∀ n m, a = int n → b = int m → False) :
    resultType op a.type b.type = .ok .realWord := by
  rw [resultType, if_neg (not_integers h), if_neg hop]

theorem resultType_slash (left right : Kind) : resultType .slash left right = .ok .realWord := by
  unfold resultType
  split <;> rfl

/-- The types of the operands decide the type of the result, and which of them have none. -/
theorem typed_binary (op : Kind) (a b : Value) :
    Typed (binary op a b) (resultType op a.type b.type) := by
  have hzero : Code.divisionByZero ∈ Code.numeric := by decide
  fun_cases binary op a b with
  | case1 | case3 | case5 | case8 => exact typed_checked _ _ _ _
  | case2 _ _ hreal | case4 _ _ hreal | case6 _ _ hreal =>
    rw [resultType_of_not_integers (by decide) hreal]
    exact .value
  | case7 => exact .numeric hzero
  | case9 _ _ hreal =>
    rw [resultType, if_neg (not_integers hreal), if_pos rfl]
    exact .cause _
  | case10 _ _ hb =>
    rw [if_pos hb]
    exact .numeric hzero
  | case11 _ _ hb =>
    rw [if_neg hb, resultType_slash]
    exact .value
  | case12 => exact .unknown _

theorem typed_unary (op : Kind) (v : Value) : Typed (unary op v) (.ok v.type) := by
  unfold unary negate
  split
  · split
    · exact .value
    · split
      · exact .value
      · exact .numeric (by decide : Code.integerOverflow ∈ Code.numeric)
  · exact .value

end Value

end MiniPascal
