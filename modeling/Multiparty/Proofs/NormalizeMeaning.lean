import Multiparty.Expr.Normalize
import Multiparty.Proofs.Evaluation

/-!
# Normalisation keeps values

Each rewriting step of normalisation is checked on its own: cancelling a
constant, merging constants, and putting an operation together from normal
operands.  A step may give a value to an expression that has none, since merged
constants need fewer intermediate results, but it never changes or loses one.
-/

namespace Multiparty

namespace Operator

theorem apply_zero {op : Operator} (shifts : op ∈ [add, sub, shl, shr])
    (operand : Int64) : op.apply operand 0 = .ok operand := by
  cases op with
  | add => simp [apply_add_iff]
  | sub => simp [apply_sub_iff]
  | shl => simp [apply_eq_ok_iff, divides, result?, shiftAmount?]
  | shr => simp [apply_eq_ok_iff, divides, result?, shiftAmount?]
  | mul | div | mod => simp at shifts

theorem apply_one {op : Operator} (scales : op ∈ [mul, div])
    (operand : Int64) : op.apply operand 1 = .ok operand := by
  cases op with
  | mul => simp [apply_mul_iff]
  | div => simp [apply_eq_ok_iff, divides, result?, fit?_eq_some_iff]
  | add | sub | mod | shl | shr => simp at scales

theorem apply_mul_zero (operand : Int64) : mul.apply operand 0 = .ok 0 := by
  simp [apply_mul_iff]

end Operator

namespace Expr

variable {assignment : Assignment}

theorem fold_of_apply {op : Operator} {left right value : Int64}
    (applied : op.apply left right = .ok value) :
    fold op left right = lit value := by
  simp [fold, applied]

theorem evaluate_fold {op : Operator} {left right value : Int64}
    (evaluated :
      (binary op (lit left) (lit right)).evaluate assignment = .ok value) :
    (fold op left right).evaluate assignment = .ok value := by
  rw [evaluate_binary_lit_eq_ok_iff] at evaluated
  obtain ⟨_, ⟨⟩, applied⟩ := evaluated
  rw [fold_of_apply applied, evaluate_lit]

/-- A cancelled operation is its operand, or zero if it multiplies by zero. -/
theorem cancel?_cases {op : Operator} {operand cancelled : Expr}
    {constant : Int64} (cancels : cancel? op operand constant = some cancelled) :
    (cancelled = operand ∧ ∀ value, op.apply value constant = .ok value) ∨
      (cancelled = lit 0 ∧ ∀ value, op.apply value constant = .ok 0) := by
  unfold cancel? at cancels
  split at cancels
  case h_1 | h_2 | h_3 | h_4 =>
    split at cancels <;> cases cancels
    subst constant
    exact .inl ⟨rfl, Operator.apply_zero (by simp)⟩
  case h_5 =>
    split at cancels
    case isTrue one =>
      cases cancels
      subst one
      exact .inl ⟨rfl, Operator.apply_one (by simp)⟩
    case isFalse =>
      split at cancels <;> cases cancels
      subst constant
      exact .inr ⟨rfl, Operator.apply_mul_zero⟩
  case h_6 =>
    split at cancels <;> cases cancels
    subst constant
    exact .inl ⟨rfl, Operator.apply_one (by simp)⟩
  case h_7 => cases cancels

theorem evaluate_cancel? {op : Operator} {operand cancelled : Expr}
    {constant value : Int64}
    (cancels : cancel? op operand constant = some cancelled)
    (evaluated :
      (binary op operand (lit constant)).evaluate assignment = .ok value) :
    cancelled.evaluate assignment = .ok value := by
  rw [evaluate_binary_lit_eq_ok_iff] at evaluated
  obtain ⟨operandValue, operandEvaluated, applied⟩ := evaluated
  rcases cancel?_cases cancels with ⟨rfl, unit⟩ | ⟨rfl, zero⟩
  · rw [unit operandValue] at applied
    cases applied
    exact operandEvaluated
  · rw [zero operandValue] at applied
    cases applied
    rfl

theorem evaluate_cancel?_getD {op : Operator} {operand : Expr}
    {constant value : Int64}
    (evaluated :
      (binary op operand (lit constant)).evaluate assignment = .ok value) :
    ((cancel? op operand constant).getD
      (binary op operand (lit constant))).evaluate assignment = .ok value := by
  cases cancels : cancel? op operand constant with
  | none => exact evaluated
  | some cancelled => exact evaluate_cancel? cancels evaluated

/-- Merging a constant into an operand keeps the value of the operation. -/
theorem evaluate_attach {op : Operator}
    (commutative : op.isCommutative = true) {operand : Expr}
    {constant value : Int64}
    (evaluated :
      (binary op operand (lit constant)).evaluate assignment = .ok value) :
    (attach op operand constant).evaluate assignment = .ok value := by
  fun_induction attach op operand constant with
  | case1 => exact evaluate_fold evaluated
  | case2 _ _ _ _ _ cancels => exact evaluate_cancel? cancels evaluated
  | case3 left last constant merged merges _ ih =>
      apply ih
      rw [evaluate_binary_lit_eq_ok_iff] at evaluated ⊢
      obtain ⟨middle, innerEvaluated, outer⟩ := evaluated
      rw [evaluate_binary_lit_eq_ok_iff] at innerEvaluated
      obtain ⟨operandValue, operandEvaluated, inner⟩ := innerEvaluated
      exact ⟨operandValue, operandEvaluated,
        Operator.apply_merge commutative inner outer merges⟩
  | case4 => exact evaluated
  | case5 => exact evaluated
  | case6 => exact evaluate_cancel?_getD evaluated

theorem evaluate_rebuild {op : Operator} {left right : Expr} {value : Int64}
    (evaluated : (binary op left right).evaluate assignment = .ok value) :
    (rebuild op left right).evaluate assignment = .ok value := by
  fun_cases rebuild op left right with
  | case1 => exact evaluate_fold evaluated
  | case2 left constant _ negated opposite =>
      apply evaluate_attach rfl
      rw [evaluate_binary_lit_eq_ok_iff] at evaluated ⊢
      obtain ⟨operandValue, operandEvaluated, applied⟩ := evaluated
      rw [fit?_eq_some_iff] at opposite
      exact ⟨operandValue, operandEvaluated,
        Operator.apply_add_of_sub opposite applied⟩
  | case3 => exact evaluated
  | case4 op constant right _ commutative =>
      apply evaluate_attach commutative
      rw [evaluate_binary_eq_ok_iff] at evaluated
      obtain ⟨_, operandValue, ⟨⟩, operandEvaluated, applied⟩ := evaluated
      rw [evaluate_binary_lit_eq_ok_iff]
      exact ⟨operandValue, operandEvaluated,
        Operator.apply_comm commutative applied⟩
  | case5 => exact evaluated
  | case6 op left constant _ _ commutative =>
      exact evaluate_attach commutative evaluated
  | case7 => exact evaluate_cancel?_getD evaluated
  | case8 => exact evaluated

theorem evaluate_normalize {expression : Expr} {value : Int64}
    (evaluated : expression.evaluate assignment = .ok value) :
    expression.normalize.evaluate assignment = .ok value := by
  induction expression generalizing value with
  | lit => exact evaluated
  | var => exact evaluated
  | binary op left right leftIH rightIH =>
      rw [evaluate_binary_eq_ok_iff] at evaluated
      obtain ⟨leftValue, rightValue, leftEvaluated, rightEvaluated, applied⟩ :=
        evaluated
      apply evaluate_rebuild
      rw [evaluate_binary_eq_ok_iff]
      exact ⟨leftValue, rightValue, leftIH leftEvaluated,
        rightIH rightEvaluated, applied⟩
  | seq => exact absurd evaluated evaluate_seq_ne_ok
  | range => exact absurd evaluated evaluate_range_ne_ok

/-- An expression without variables that has a value is normalised to it. -/
theorem normalize_of_value? {expression : Expr} {value : Int64}
    (constant : expression.value? = some value) :
    expression.normalize = lit value := by
  induction expression generalizing value with
  | lit => simpa [normalize] using constant
  | var => simp [value?_eq_some_iff, Assignment.empty] at constant
  | binary op left right leftIH rightIH =>
      rw [value?_binary_eq_some_iff] at constant
      obtain ⟨leftValue, rightValue, leftConstant, rightConstant, applied⟩ :=
        constant
      rw [normalize, leftIH leftConstant, rightIH rightConstant, rebuild,
        fold_of_apply applied]
  | seq => simp [value?_eq_some_iff] at constant
  | range => simp [value?_eq_some_iff] at constant

/-- Normalisation keeps every value, and finds the value of an expression that
needs no variable. -/
theorem normalize_keeps_values (expression : Expr) :
    (∀ (assignment : Assignment) (value : Int64),
      expression.evaluate assignment = .ok value →
        expression.normalize.evaluate assignment = .ok value) ∧
    (∀ value : Int64,
      expression.value? = some value → expression.normalize = lit value) := by
  constructor
  · intro assignment value evaluated
    exact evaluate_normalize evaluated
  · intro value constant
    exact normalize_of_value? constant

/-- The constants of `(i-3)+9223372036854775807` are merged, and `1*(5-7)` is
folded. -/
theorem normalize_keeps_values_at_limit :
    let sum : Expr :=
      binary .add (binary .sub (var "i") (lit 3)) (lit Int64.maxValue)
    let product : Expr := binary .mul (lit 1) (binary .sub (lit 5) (lit 7))
    (sum.evaluate (.ofList [("i", 2)]) = .ok 9223372036854775806 ∧
      sum.normalize.evaluate (.ofList [("i", 2)]) = .ok 9223372036854775806) ∧
    (product.value? = some (-2) ∧ product.normalize = lit (-2)) := by
  refine ⟨⟨rfl, ?_⟩, rfl, ?_⟩
  · exact (normalize_keeps_values _).1 _ _ rfl
  · exact (normalize_keeps_values _).2 _ rfl

end Expr

end Multiparty
