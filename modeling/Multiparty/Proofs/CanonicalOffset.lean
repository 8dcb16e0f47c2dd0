import Multiparty.Proofs.NormalForm
import Multiparty.Proofs.OverlapNormalize

/-!
# Canonical offsets

An expression at a constant distance from a variable can be written in many
ways: its constants may stand on either side, may be split up, and may be
computed by operations of any kind.  Normalisation brings all of them to one
expression, the variable alone or the variable plus the distance.  The literal
that it carries along is the distance reached so far, so that two literals can
be merged whenever the next distance is in range.  Only the least constant
cannot be subtracted in this way, since it has no opposite.
-/

namespace Multiparty

namespace Expr

/-- The shortest expression at a distance from a variable. -/
def offsetFrom (name : String) (distance : Int64) : Expr :=
  if distance = 0 then var name else binary .add (var name) (lit distance)

/-- No subtraction, at any depth, takes away the constant without an opposite. -/
def subtrahendsNegatable : Expr → Bool
  | lit _ | var _ => true
  | binary op left right =>
      left.subtrahendsNegatable && right.subtrahendsNegatable &&
        !(op == .sub && right.value? == some Int64.minValue)
  | seq left right | range left right =>
      left.subtrahendsNegatable && right.subtrahendsNegatable

@[simp]
theorem offsetFrom_zero (name : String) : offsetFrom name 0 = var name :=
  rfl

theorem offsetFrom_of_ne_zero {distance : Int64} (moved : distance ≠ 0)
    (name : String) :
    offsetFrom name distance = binary .add (var name) (lit distance) :=
  if_neg moved

theorem atDistance_offsetFrom (name : String) (distance : Int64) :
    AtDistance name (offsetFrom name distance) distance := by
  by_cases still : distance = 0
  · subst still
    exact .var
  · rw [offsetFrom_of_ne_zero still]
    exact .addRight .var (value?_lit distance) (by simp)

/-- The distance of a canonical offset can be read off it. -/
theorem offsetFrom_inj {name : String} {distance distance' : Int64} :
    offsetFrom name distance = offsetFrom name distance' ↔
      distance = distance' := by
  constructor
  · intro same
    have read := offset?_eq_some_iff.mpr (atDistance_offsetFrom name distance)
    rw [same, offset?_eq_some_iff.mpr (atDistance_offsetFrom name distance')]
      at read
    cases read
    rfl
  · rintro rfl
    rfl

theorem attach_add_var (name : String) (constant : Int64) :
    attach .add (var name) constant = offsetFrom name constant := by
  by_cases still : constant = 0
  · subst still
    rfl
  · simp [attach, cancel?, offsetFrom, still]

/-- Adding a constant to a canonical offset moves it by that constant. -/
theorem attach_offsetFrom {name : String} {start constant total : Int64}
    (sum : total.toInt = start.toInt + constant.toInt) :
    attach .add (offsetFrom name start) constant = offsetFrom name total := by
  by_cases fromVar : start = 0
  · subst fromVar
    have same : total = constant := Int64.toInt_inj.mp (by simpa using sum)
    rw [offsetFrom_zero, attach_add_var, same]
  · rw [offsetFrom_of_ne_zero fromVar]
    by_cases still : constant = 0
    · subst still
      have same : total = start := Int64.toInt_inj.mp (by simpa using sum)
      rw [same, offsetFrom_of_ne_zero fromVar]
      rfl
    · -- Both literals are there, and they are merged into the new distance.
      have merges : Operator.add.apply start constant = .ok total :=
        Operator.apply_add_iff.mpr sum
      rw [← attach_add_var]
      simp [attach, cancel?, still, merges]

theorem rebuild_sub_offsetFrom {name : String}
    {start constant distance : Int64} (negatable : constant ≠ Int64.minValue)
    (difference : distance.toInt = start.toInt - constant.toInt) :
    rebuild .sub (offsetFrom name start) (lit constant) =
      offsetFrom name distance := by
  rw [rebuild_sub_lit constant (atDistance_offsetFrom name start).ne_lit]
  cases opposite : fit? (-constant.toInt) with
  | none => exact (negatable (fit?_neg_eq_none_iff.mp opposite)).elim
  | some negated =>
      rw [fit?_eq_some_iff] at opposite
      exact attach_offsetFrom (by omega)

theorem AtDistance.normalize_eq {name : String} {expression : Expr}
    {distance : Int64} (shifted : AtDistance name expression distance)
    (negatable : expression.subtrahendsNegatable = true) :
    expression.normalize = offsetFrom name distance := by
  induction shifted with
  | var => rfl
  | addRight _ rightConstant fits ih =>
      simp only [subtrahendsNegatable, Bool.and_eq_true] at negatable
      rw [Expr.normalize, ih negatable.1.1, normalize_of_value? rightConstant,
        rebuild_add_lit _ (atDistance_offsetFrom name _).ne_lit]
      exact attach_offsetFrom fits
  | addLeft leftConstant _ fits ih =>
      simp only [subtrahendsNegatable, Bool.and_eq_true] at negatable
      rw [Expr.normalize, ih negatable.1.2, normalize_of_value? leftConstant,
        rebuild_lit_add _ (atDistance_offsetFrom name _).ne_lit]
      exact attach_offsetFrom fits
  | sub _ rightConstant fits ih =>
      simp only [subtrahendsNegatable, Bool.and_eq_true] at negatable
      rw [Expr.normalize, ih negatable.1.1, normalize_of_value? rightConstant]
      apply rebuild_sub_offsetFrom _ fits
      rintro rfl
      simp [rightConstant] at negatable

/-- Expressions at constant distances from one variable overlap only if the
distances are equal. -/
theorem AtDistance.overlaps_iff {name : String} {left right : Expr}
    {leftDistance rightDistance : Int64}
    (leftShifted : AtDistance name left leftDistance)
    (rightShifted : AtDistance name right rightDistance) :
    left.overlaps right = true ↔ leftDistance = rightDistance := by
  rw [(HasExtent.shifted leftShifted).overlaps_eq,
    (HasExtent.shifted rightShifted).extent_eq]
  simp [Extent.overlaps]

/-- An expression at a constant distance from a variable, in which only
constants with an opposite are subtracted, is normalised to the variable alone
or to the variable plus the distance.  So two of them that have the variable in
common overlap exactly if they have one normal form. -/
theorem offsets_have_one_normal_form (name : String) :
    (∀ (expression : Expr) (distance : Int64),
      expression.offset? = some (name, distance) →
      expression.subtrahendsNegatable = true →
        expression.normalize =
          if distance = 0 then var name
          else binary .add (var name) (lit distance)) ∧
    (∀ (left right : Expr) (leftDistance rightDistance : Int64),
      left.offset? = some (name, leftDistance) →
      right.offset? = some (name, rightDistance) →
      left.subtrahendsNegatable = true → right.subtrahendsNegatable = true →
        (overlapsOptional (some left) (some right) = true ↔
          left.normalize = right.normalize)) := by
  constructor
  · intro expression distance shifted negatable
    exact (offset?_eq_some_iff.mp shifted).normalize_eq negatable
  · intro left right leftDistance rightDistance leftShifted rightShifted
      leftNegatable rightNegatable
    rw [offset?_eq_some_iff] at leftShifted rightShifted
    calc
      left.overlaps right = true ↔ leftDistance = rightDistance :=
        leftShifted.overlaps_iff rightShifted
      _ ↔ offsetFrom name leftDistance = offsetFrom name rightDistance :=
        offsetFrom_inj.symm
      _ ↔ left.normalize = right.normalize := by
        rw [leftShifted.normalize_eq leftNegatable,
          rightShifted.normalize_eq rightNegatable]

/-- `(7/2+i)-(1<<1)` and `((i+9223372036854775807)-9223372036854775807)+1` are
both normalised to `i+1`, and the sum inside the second one to `i`. -/
theorem offsets_have_one_normal_form_at_limit :
    let left : Expr :=
      binary .sub (binary .add (binary .div (lit 7) (lit 2)) (var "i"))
        (binary .shl (lit 1) (lit 1))
    let inner : Expr :=
      binary .sub (binary .add (var "i") (lit Int64.maxValue))
        (lit Int64.maxValue)
    let right : Expr := binary .add inner (lit 1)
    (left.offset? = some ("i", 1) ∧ inner.offset? = some ("i", 0) ∧
      right.offset? = some ("i", 1) ∧ left.subtrahendsNegatable = true ∧
      inner.subtrahendsNegatable = true ∧ right.subtrahendsNegatable = true) ∧
    left.normalize = binary .add (var "i") (lit 1) ∧
    inner.normalize = var "i" ∧
    (overlapsOptional (some left) (some right) = true ↔
      left.normalize = right.normalize) ∧
    (overlapsOptional (some inner) (some right) = true ↔
      inner.normalize = right.normalize) := by
  intro left inner right
  obtain ⟨canonical, overlapping⟩ := offsets_have_one_normal_form "i"
  refine ⟨by decide, ?_, ?_, ?_, ?_⟩
  · exact canonical left 1 (by decide) (by decide)
  · exact canonical inner 0 (by decide) (by decide)
  · exact overlapping left right 1 1 (by decide) (by decide) (by decide)
      (by decide)
  · exact overlapping inner right 0 1 (by decide) (by decide) (by decide)
      (by decide)

-- The distance `9223372036854775807` of `(i-1)-(-9223372036854775808)` is in
-- range, but the subtraction cannot be turned into a sum.
example :
    let expression : Expr :=
      binary .sub (binary .sub (var "i") (lit 1)) (lit Int64.minValue)
    expression.offset? = some ("i", Int64.maxValue) ∧
      expression.normalize =
        binary .sub (binary .add (var "i") (lit (-1))) (lit Int64.minValue) := by
  decide

end Expr

end Multiparty
