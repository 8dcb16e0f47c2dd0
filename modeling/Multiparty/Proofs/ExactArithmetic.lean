import Mathlib.Algebra.Order.Ring.Int
import Multiparty.Proofs.Evaluation

/-!
# Evaluation and exact arithmetic

An expression can be computed over the integers without a bound, once it is said
what the operators yield there.  `Expr.evaluate` never returns anything but the
exact value, except that a left shift keeps only the low 64 bits of its result.
So a value is exact whenever no left shift in the expression has a result that
is out of range, and a result of any other operator that is out of range is
always reported.
-/

namespace Multiparty

/-- The integer is that of a 64-bit word. -/
def InRange (value : Int) : Prop :=
  Int64.minValue.toInt ≤ value ∧ value ≤ Int64.maxValue.toInt

instance : DecidablePred InRange := fun _ => inferInstanceAs (Decidable (_ ∧ _))

theorem inRange_toInt (word : Int64) : InRange word.toInt :=
  ⟨Int64.minValue_le_toInt word, Int64.toInt_le word⟩

/-- The integer in range that has the same low 64 bits. -/
def lowBits (value : Int) : Int :=
  value.bmod Int64.size

theorem toInt_ofInt_eq_lowBits (value : Int) :
    (Int64.ofInt value).toInt = lowBits value :=
  Int64.toInt_ofInt

theorem InRange.lowBits_eq {value : Int} (inside : InRange value) :
    lowBits value = value := by
  rw [← toInt_ofInt_eq_lowBits]
  exact Int64.toInt_ofInt_of_le inside.1 (Int.lt_add_one_of_le inside.2)

theorem InRange.ediv {value divisor : Int} (inside : InRange value)
    (positive : 0 < divisor) : InRange (value / divisor) := by
  obtain ⟨above, below⟩ := inside
  have lower : Int64.minValue.toInt ≤ 0 := by decide
  have upper : 0 ≤ Int64.maxValue.toInt + 1 := by decide
  constructor
  · apply Int.le_ediv_of_mul_le positive
    exact (mul_le_of_one_le_right lower positive).trans above
  · apply Int.le_of_lt_add_one
    apply Int.ediv_lt_of_lt_mul positive
    exact (Int.lt_add_one_of_le below).trans_le
      (le_mul_of_one_le_right upper positive)

namespace Operator

/-- The result of an operator over the integers.  Division truncates toward
zero; shifts multiply by a power of two, or divide by it and round down. -/
def exactResult? (left right : Int) : Operator → Option Int
  | add => some (left + right)
  | sub => some (left - right)
  | mul => some (left * right)
  | div => if right = 0 then none else some (left.tdiv right)
  | mod => if right = 0 then none else some (left.tmod right)
  | shl => if right < 0 then none else some (left * 2 ^ right.toNat)
  | shr => if right < 0 then none else some (left.fdiv (2 ^ right.toNat))

/-- The result of an operator over the integers if left shifts keep only the low
64 bits. -/
def keepingLowBits? (left right : Int) (op : Operator) : Option Int :=
  if op = shl then (op.exactResult? left right).map lowBits
  else op.exactResult? left right

theorem shiftAmount?_eq_some_iff {amount : Int64} {places : Nat} :
    shiftAmount? amount = some places ↔
      amount.toInt = places ∧ places < 64 := by
  unfold shiftAmount?
  split
  · simp only [Option.some.injEq]
    omega
  · simp only [reduceCtorEq, false_iff]
    omega

/-- A right shift of a word is the floor of its quotient, which is in range. -/
theorem toInt_shiftRight (word : Int64) (places : Nat) :
    (Int64.ofInt (word.toInt >>> places)).toInt =
      word.toInt.fdiv (2 ^ places) := by
  have positive : (0 : Int) < 2 ^ places := Int.pow_pos (by decide)
  have quotient : word.toInt >>> places = word.toInt / 2 ^ places := by
    rw [Int.shiftRight_eq_div_pow, Int.natCast_pow]
    rfl
  rw [toInt_ofInt_eq_lowBits, quotient,
    ((inRange_toInt word).ediv positive).lowBits_eq,
    Int.fdiv_eq_ediv_of_nonneg _ (Int.le_of_lt positive)]

/-- An operator that has a result on words has the same one on integers, apart
from the bits that a left shift loses. -/
theorem keepingLowBits?_of_apply {op : Operator} {left right value : Int64}
    (applied : op.apply left right = .ok value) :
    op.keepingLowBits? left.toInt right.toInt = some value.toInt := by
  obtain ⟨meaningful, found⟩ := apply_eq_ok_iff.mp applied
  have nonzero : op.divides = true → right.toInt ≠ 0 := by
    intro divides zero
    have isZero : right = 0 := Int64.toInt_inj.mp zero
    simp [divides, isZero] at meaningful
  cases op with
  | add | sub | mul =>
      rw [result?, fit?_eq_some_iff] at found
      simp [keepingLowBits?, exactResult?, found]
  | div =>
      rw [result?, fit?_eq_some_iff] at found
      simp [keepingLowBits?, exactResult?, nonzero rfl, found]
  | mod =>
      rw [result?, Option.bind_eq_some_iff] at found
      obtain ⟨quotient, _, remainder⟩ := found
      rw [fit?_eq_some_iff] at remainder
      simp [keepingLowBits?, exactResult?, nonzero rfl, remainder]
  | shl =>
      rw [result?, Option.map_eq_some_iff] at found
      obtain ⟨places, amount, rfl⟩ := found
      rw [shiftAmount?_eq_some_iff] at amount
      rw [toInt_ofInt_eq_lowBits, Int.shiftLeft_eq]
      simp [keepingLowBits?, exactResult?, amount.1]
  | shr =>
      rw [result?, Option.map_eq_some_iff] at found
      obtain ⟨places, amount, rfl⟩ := found
      rw [shiftAmount?_eq_some_iff] at amount
      rw [toInt_shiftRight]
      simp [keepingLowBits?, exactResult?, amount.1]

end Operator

namespace Expr

variable {assignment : Assignment}

/-- The value of an expression over the integers, for operators that yield what
`result` says. -/
def integer? (result : Int → Int → Operator → Option Int)
    (assignment : Assignment) : Expr → Option Int
  | lit value => some value.toInt
  | var name => (assignment name).map Int64.toInt
  | binary op left right =>
      (left.integer? result assignment).bind fun leftValue =>
        (right.integer? result assignment).bind fun rightValue =>
          result leftValue rightValue op
  | seq _ _ | range _ _ => none

/-- The value of an expression computed without a bound. -/
def exactValue? (assignment : Assignment) (expression : Expr) : Option Int :=
  expression.integer? Operator.exactResult? assignment

/-- An expression and everything that it is made of. -/
def parts : Expr → List Expr
  | lit value => [lit value]
  | var name => [var name]
  | binary op left right => binary op left right :: (left.parts ++ right.parts)
  | seq first second => seq first second :: (first.parts ++ second.parts)
  | range low high => range low high :: (low.parts ++ high.parts)

def isLeftShift : Expr → Bool
  | binary .shl _ _ => true
  | _ => false

/-- No left shift has an exact result that is out of range. -/
def LeftShiftsFit (assignment : Assignment) (expression : Expr) : Prop :=
  ∀ part ∈ expression.parts, part.isLeftShift = true →
    ∀ value ∈ part.exactValue? assignment, InRange value

instance (assignment : Assignment) :
    DecidablePred (LeftShiftsFit assignment) := fun expression =>
  inferInstanceAs (Decidable (∀ part ∈ expression.parts, _))

theorem integer?_of_evaluate {expression : Expr} {value : Int64}
    (evaluated : expression.evaluate assignment = .ok value) :
    expression.integer? Operator.keepingLowBits? assignment =
      some value.toInt := by
  induction expression generalizing value with
  | lit =>
      cases evaluated
      rfl
  | var name =>
      rw [evaluate_var_eq_ok_iff] at evaluated
      rw [integer?, evaluated]
      rfl
  | binary op left right leftIH rightIH =>
      rw [evaluate_binary_eq_ok_iff] at evaluated
      obtain ⟨leftValue, rightValue, leftEvaluated, rightEvaluated, applied⟩ :=
        evaluated
      rw [integer?, leftIH leftEvaluated, rightIH rightEvaluated]
      exact Operator.keepingLowBits?_of_apply applied
  | seq => exact absurd evaluated evaluate_seq_ne_ok
  | range => exact absurd evaluated evaluate_range_ne_ok

theorem mem_parts_self (expression : Expr) : expression ∈ expression.parts := by
  cases expression <;> simp [parts]

theorem LeftShiftsFit.of_parts {expression part : Expr}
    (fit : expression.LeftShiftsFit assignment)
    (within : part.parts ⊆ expression.parts) : part.LeftShiftsFit assignment :=
  fun inner member => fit inner (within member)

theorem exactValue?_binary (op : Operator) (left right : Expr) :
    (binary op left right).exactValue? assignment =
      (left.exactValue? assignment).bind fun leftValue =>
        (right.exactValue? assignment).bind fun rightValue =>
          op.exactResult? leftValue rightValue :=
  rfl

/-- Left shifts that fit lose no bits. -/
theorem LeftShiftsFit.integer?_eq {expression : Expr}
    (fit : expression.LeftShiftsFit assignment) :
    expression.integer? Operator.keepingLowBits? assignment =
      expression.exactValue? assignment := by
  induction expression with
  | lit | var | seq | range => rfl
  | binary op left right leftIH rightIH =>
      have leftSame := leftIH (fit.of_parts (by simp [parts]))
      have rightSame := rightIH (fit.of_parts (by simp [parts]))
      rw [integer?, leftSame, rightSame, exactValue?_binary]
      refine Option.bind_congr fun leftValue leftFound =>
        Option.bind_congr fun rightValue rightFound => ?_
      unfold Operator.keepingLowBits?
      split
      case isFalse => rfl
      case isTrue isShift =>
        subst isShift
        cases shifted : Operator.shl.exactResult? leftValue rightValue with
        | none => rfl
        | some value =>
            -- This shift is itself one of those that fit.
            have inside : InRange value := by
              apply fit (binary .shl left right) (mem_parts_self _) rfl
              rw [exactValue?_binary, leftFound, rightFound]
              exact shifted
            rw [Option.map_some, inside.lowBits_eq]

/-- An expression that has a value has one in all its parts. -/
theorem exists_evaluate_of_mem_parts {expression part : Expr} {value : Int64}
    (evaluated : expression.evaluate assignment = .ok value)
    (member : part ∈ expression.parts) :
    ∃ partValue, part.evaluate assignment = .ok partValue := by
  induction expression generalizing value with
  | lit | var =>
      rw [parts, List.mem_singleton] at member
      rw [member]
      exact ⟨value, evaluated⟩
  | binary op left right leftIH rightIH =>
      obtain ⟨_, _, leftEvaluated, rightEvaluated, _⟩ :=
        evaluate_binary_eq_ok_iff.mp evaluated
      rw [parts, List.mem_cons, List.mem_append] at member
      rcases member with whole | inLeft | inRight
      · rw [whole]
        exact ⟨value, evaluated⟩
      · exact leftIH leftEvaluated inLeft
      · exact rightIH rightEvaluated inRight
  | seq => exact absurd evaluated evaluate_seq_ne_ok
  | range => exact absurd evaluated evaluate_range_ne_ok

theorem parts_subset_of_mem {expression part : Expr}
    (member : part ∈ expression.parts) : part.parts ⊆ expression.parts := by
  induction expression with
  | lit | var =>
      rw [parts, List.mem_singleton] at member
      rw [member]
      exact List.Subset.refl _
  | binary op left right leftIH rightIH
  | seq left right leftIH rightIH
  | range left right leftIH rightIH =>
      rw [parts, List.mem_cons, List.mem_append] at member
      rcases member with whole | inLeft | inRight
      · rw [whole]
        exact List.Subset.refl _
      · intro inner found
        exact List.mem_cons_of_mem _ (List.mem_append_left _ (leftIH inLeft found))
      · intro inner found
        exact List.mem_cons_of_mem _
          (List.mem_append_right _ (rightIH inRight found))

theorem LeftShiftsFit.exactValue?_eq {expression : Expr} {value : Int64}
    (fit : expression.LeftShiftsFit assignment)
    (evaluated : expression.evaluate assignment = .ok value) :
    expression.exactValue? assignment = some value.toInt := by
  rw [← fit.integer?_eq]
  exact integer?_of_evaluate evaluated

/-- A value is the exact one up to the bits that left shifts lose.  If no left
shift has a result out of range, it is the exact one, and a result of any other
part that is out of range is reported as an error. -/
theorem evaluation_is_exact_unless_bits_are_lost (assignment : Assignment)
    (expression : Expr) :
    (∀ value : Int64, expression.evaluate assignment = .ok value →
      expression.integer? Operator.keepingLowBits? assignment =
        some value.toInt) ∧
    (expression.LeftShiftsFit assignment →
      (∀ value : Int64, expression.evaluate assignment = .ok value →
        expression.exactValue? assignment = some value.toInt) ∧
      (∀ part ∈ expression.parts, ∀ value : Int,
        part.exactValue? assignment = some value → ¬InRange value →
          ∃ cause, expression.evaluate assignment = .error cause)) := by
  refine ⟨fun value => integer?_of_evaluate, fun fit => ⟨?_, ?_⟩⟩
  · intro value evaluated
    exact fit.exactValue?_eq evaluated
  · intro part member exactly found outside
    cases evaluated : expression.evaluate assignment with
    | error cause => exact ⟨cause, rfl⟩
    | ok value =>
        exfalso
        obtain ⟨partValue, partEvaluated⟩ :=
          exists_evaluate_of_mem_parts evaluated member
        have partFits := fit.of_parts (parts_subset_of_mem member)
        rw [partFits.exactValue?_eq partEvaluated] at found
        cases found
        exact outside (inRange_toInt partValue)

/-- In `((i<<2)-2)%7>>1` the remainder is negative and half of it is rounded
down.  In `(-9223372036854775808-1)-i` only the inner difference is out of
range. -/
theorem evaluation_is_exact_below_zero :
    let assignment : Assignment := .ofList [("i", -2)]
    let shifted : Expr := binary .shl (var "i") (lit 2)
    let remainder : Expr := binary .mod (binary .sub shifted (lit 2)) (lit 7)
    let half : Expr := binary .shr remainder (lit 1)
    let outside : Expr := binary .sub (lit Int64.minValue) (lit 1)
    let back : Expr := binary .sub outside (var "i")
    (half.evaluate assignment = .ok (-2) ∧ half.LeftShiftsFit assignment ∧
      half.integer? Operator.keepingLowBits? assignment = some (-2) ∧
        half.exactValue? assignment = some (-2)) ∧
    (back.LeftShiftsFit assignment ∧
      back.exactValue? assignment = some (-9223372036854775807) ∧
        ∃ cause, back.evaluate assignment = .error cause) := by
  intro assignment shifted remainder half outside back
  have evaluated : half.evaluate assignment = .ok (-2) := rfl
  have halfFits : half.LeftShiftsFit assignment := by decide
  have backFits : back.LeftShiftsFit assignment := by decide
  obtain ⟨kept, exactly⟩ :=
    evaluation_is_exact_unless_bits_are_lost assignment half
  obtain ⟨_, reported⟩ :=
    (evaluation_is_exact_unless_bits_are_lost assignment back).2 backFits
  refine ⟨⟨evaluated, halfFits, kept _ evaluated,
    (exactly halfFits).1 _ evaluated⟩, backFits, by decide, ?_⟩
  exact reported outside (by decide) (-9223372036854775809) (by decide)
    (by decide)

/-- `1<<63` is evaluated to the least word, which is negative. -/
theorem left_shift_loses_bits :
    let shifted : Expr := binary .shl (lit 1) (lit 63)
    shifted.evaluate .empty = .ok Int64.minValue ∧
      shifted.exactValue? .empty = some 9223372036854775808 ∧
        shifted.exactValue? .empty ≠ some Int64.minValue.toInt := by
  refine ⟨rfl, ?_, ?_⟩ <;> decide

end Expr

end Multiparty
