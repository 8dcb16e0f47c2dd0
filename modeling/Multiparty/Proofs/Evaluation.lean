import Multiparty.Expr.Basic

/-!
# Evaluation of expressions

Successful evaluations are described by the exact integers that they compute.
Sums, differences and products that have a result have the exact one, which is
why they can be exchanged and regrouped wherever the regrouped operation has a
result at all.  The value of an expression without variables is its value under
every assignment.
-/

namespace Multiparty

theorem mapError_eq_ok_iff {ε ε' α : Type} {cause : ε → ε'}
    {result : Except ε α} {value : α} :
    result.mapError cause = .ok value ↔ result = .ok value := by
  constructor
  · intro mapped
    cases result with
    | error => cases mapped
    | ok =>
        cases mapped
        rfl
  · rintro rfl
    rfl

namespace Operator

theorem apply_eq_ok_iff {op : Operator} {left right value : Int64} :
    op.apply left right = .ok value ↔
      (op.divides && right == 0) = false ∧
        op.result? left right = some value := by
  unfold apply
  split
  case isTrue meaningless => simp [meaningless]
  case isFalse meaningful =>
    cases op.result? left right <;> simp [meaningful]

theorem apply_add_iff {left right value : Int64} :
    add.apply left right = .ok value ↔
      value.toInt = left.toInt + right.toInt := by
  rw [apply_eq_ok_iff]
  simp [divides, result?, fit?_eq_some_iff]

theorem apply_sub_iff {left right value : Int64} :
    sub.apply left right = .ok value ↔
      value.toInt = left.toInt - right.toInt := by
  rw [apply_eq_ok_iff]
  simp [divides, result?, fit?_eq_some_iff]

theorem apply_mul_iff {left right value : Int64} :
    mul.apply left right = .ok value ↔
      value.toInt = left.toInt * right.toInt := by
  rw [apply_eq_ok_iff]
  simp [divides, result?, fit?_eq_some_iff]

/-- Sums and products may be computed in either order. -/
theorem apply_comm {op : Operator} (commutative : op.isCommutative = true)
    {left right value : Int64} (applied : op.apply left right = .ok value) :
    op.apply right left = .ok value := by
  cases op with
  | add =>
      rw [apply_add_iff] at applied ⊢
      omega
  | mul =>
      rw [apply_mul_iff] at applied ⊢
      rw [applied, Int.mul_comm]
  | sub | div | mod | shl | shr => simp [isCommutative] at commutative

/-- Two constants may be merged before they are applied one after the other,
provided that they can be merged. -/
theorem apply_merge {op : Operator} (commutative : op.isCommutative = true)
    {operand first second merged middle value : Int64}
    (inner : op.apply operand first = .ok middle)
    (outer : op.apply middle second = .ok value)
    (merges : op.apply first second = .ok merged) :
    op.apply operand merged = .ok value := by
  cases op with
  | add =>
      rw [apply_add_iff] at inner outer merges ⊢
      omega
  | mul =>
      rw [apply_mul_iff] at inner outer merges ⊢
      rw [outer, inner, merges, Int.mul_assoc]
  | sub | div | mod | shl | shr => simp [isCommutative] at commutative

/-- Subtracting a constant is adding its opposite. -/
theorem apply_add_of_sub {operand constant negated value : Int64}
    (opposite : negated.toInt = -constant.toInt)
    (applied : sub.apply operand constant = .ok value) :
    add.apply operand negated = .ok value := by
  rw [apply_sub_iff] at applied
  rw [apply_add_iff]
  omega

end Operator

namespace Expr

variable {assignment : Assignment}

@[simp]
theorem evaluate_lit (value : Int64) :
    (lit value).evaluate assignment = .ok value :=
  rfl

@[simp]
theorem evaluate_var_eq_ok_iff {name : String} {value : Int64} :
    (var name).evaluate assignment = .ok value ↔
      assignment name = some value := by
  rw [evaluate]
  cases assignment name <;> simp

@[simp]
theorem evaluate_seq_ne_ok {first second : Expr} {value : Int64} :
    (seq first second).evaluate assignment ≠ .ok value := by
  simp [evaluate]

@[simp]
theorem evaluate_range_ne_ok {low high : Expr} {value : Int64} :
    (range low high).evaluate assignment ≠ .ok value := by
  simp [evaluate]

theorem evaluate_binary_eq_ok_iff {op : Operator} {left right : Expr}
    {value : Int64} :
    (binary op left right).evaluate assignment = .ok value ↔
      ∃ leftValue rightValue,
        left.evaluate assignment = .ok leftValue ∧
          right.evaluate assignment = .ok rightValue ∧
            op.apply leftValue rightValue = .ok value := by
  rw [evaluate]
  cases left.evaluate assignment with
  | error => simp
  | ok leftValue =>
      cases right.evaluate assignment with
      | error => simp
      | ok rightValue => simp [mapError_eq_ok_iff]

theorem evaluate_binary_lit_eq_ok_iff {op : Operator} {operand : Expr}
    {constant value : Int64} :
    (binary op operand (lit constant)).evaluate assignment = .ok value ↔
      ∃ operandValue,
        operand.evaluate assignment = .ok operandValue ∧
          op.apply operandValue constant = .ok value := by
  simp [evaluate_binary_eq_ok_iff]

theorem value?_eq_some_iff {expression : Expr} {value : Int64} :
    expression.value? = some value ↔
      expression.evaluate .empty = .ok value := by
  unfold value?
  cases expression.evaluate .empty <;> simp [Except.toOption]

@[simp]
theorem value?_lit (value : Int64) : (lit value).value? = some value :=
  rfl

theorem value?_binary_eq_some_iff {op : Operator} {left right : Expr}
    {value : Int64} :
    (binary op left right).value? = some value ↔
      ∃ leftValue rightValue,
        left.value? = some leftValue ∧ right.value? = some rightValue ∧
          op.apply leftValue rightValue = .ok value := by
  simp only [value?_eq_some_iff, evaluate_binary_eq_ok_iff]

/-- Bindings that are not needed do not matter. -/
theorem evaluate_of_value? {expression : Expr} {value : Int64}
    (constant : expression.value? = some value) :
    expression.evaluate assignment = .ok value := by
  rw [value?_eq_some_iff] at constant
  induction expression generalizing value with
  | lit => exact constant
  | var name => simp [Assignment.empty] at constant
  | binary op left right leftIH rightIH =>
      rw [evaluate_binary_eq_ok_iff] at constant ⊢
      obtain ⟨leftValue, rightValue, leftConstant, rightConstant, applied⟩ :=
        constant
      exact ⟨leftValue, rightValue, leftIH leftConstant,
        rightIH rightConstant, applied⟩
  | seq => exact absurd constant evaluate_seq_ne_ok
  | range => exact absurd constant evaluate_range_ne_ok

theorem evaluate_binary_of_value?_right {op : Operator} {left right : Expr}
    {constant value : Int64} (rightConstant : right.value? = some constant)
    (evaluated : (binary op left right).evaluate assignment = .ok value) :
    ∃ leftValue, left.evaluate assignment = .ok leftValue ∧
      op.apply leftValue constant = .ok value := by
  rw [evaluate_binary_eq_ok_iff] at evaluated
  obtain ⟨leftValue, rightValue, leftEvaluated, rightEvaluated, applied⟩ :=
    evaluated
  rw [evaluate_of_value? rightConstant] at rightEvaluated
  cases rightEvaluated
  exact ⟨leftValue, leftEvaluated, applied⟩

theorem evaluate_binary_of_value?_left {op : Operator} {left right : Expr}
    {constant value : Int64} (leftConstant : left.value? = some constant)
    (evaluated : (binary op left right).evaluate assignment = .ok value) :
    ∃ rightValue, right.evaluate assignment = .ok rightValue ∧
      op.apply constant rightValue = .ok value := by
  rw [evaluate_binary_eq_ok_iff] at evaluated
  obtain ⟨leftValue, rightValue, leftEvaluated, rightEvaluated, applied⟩ :=
    evaluated
  rw [evaluate_of_value? leftConstant] at leftEvaluated
  cases leftEvaluated
  exact ⟨rightValue, rightEvaluated, applied⟩

/-- An operation on an operand that needs a variable needs one too. -/
theorem value?_binary_eq_none {op : Operator} {left right : Expr}
    (needed : left.value? = none ∨ right.value? = none) :
    (binary op left right).value? = none := by
  rw [Option.eq_none_iff_forall_ne_some]
  intro value constant
  rw [value?_binary_eq_some_iff] at constant
  obtain ⟨_, _, leftConstant, rightConstant, _⟩ := constant
  rcases needed with leftNone | rightNone
  · simp [leftNone] at leftConstant
  · simp [rightNone] at rightConstant

end Expr

end Multiparty
