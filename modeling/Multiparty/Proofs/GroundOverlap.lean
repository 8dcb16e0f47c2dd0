import Multiparty.Proofs.OverlapNormalize

/-!
# Overlap of ground expressions

A ground expression denotes the same indices under every assignment, and its
extents are intervals between constants.  Two ground expressions whose
dimensions are paired up alike have a common index exactly if they overlap and
neither of them has an empty range.  An empty range denotes nothing, and it
overlaps no constant; but the test compares the bounds of two ranges as if
neither could be empty, so that an empty range may overlap another range.
-/

namespace Multiparty

/-- Intervals with a common integer are those that overlap and are not empty. -/
theorem Extent.exists_common_iff {low₁ high₁ low₂ high₂ : Int64} :
    (∃ value : Int, (low₁.toInt ≤ value ∧ value ≤ high₁.toInt) ∧
      (low₂.toInt ≤ value ∧ value ≤ high₂.toInt)) ↔
      (interval low₁ high₁).overlaps (interval low₂ high₂) = true ∧
        low₁ ≤ high₁ ∧ low₂ ≤ high₂ := by
  simp only [overlaps, Bool.and_eq_true, decide_eq_true_eq,
    Int64.le_iff_toInt_le]
  constructor
  · intro common
    obtain ⟨value, inFirst, inSecond⟩ := common
    omega
  · intro meet
    -- the larger of the lower bounds lies in both
    exact ⟨max low₁.toInt low₂.toInt, by omega⟩

namespace Expr

/-- How the dimensions of an expression are paired up. -/
inductive Shape where
  | single
  | pair (first second : Shape)
  deriving DecidableEq

def shape : Expr → Shape
  | seq first second => .pair first.shape second.shape
  | _ => .single

/-- A constant, a range between constants, or a pair of ground expressions. -/
def isGround : Expr → Bool
  | seq first second => first.isGround && second.isGround
  | range low high => low.value?.isSome && high.value?.isSome
  | expression => expression.value?.isSome

/-- A ground expression that is no pair has an interval as its extent. -/
theorem exists_interval_of_isGround {expression : Expr}
    (ground : expression.isGround = true)
    (single : expression.shape = .single) :
    ∃ low high, HasExtent expression (.interval low high) := by
  cases expression with
  | seq => cases single
  | range low high =>
      simp only [isGround, Bool.and_eq_true, Option.isSome_iff_exists] at ground
      obtain ⟨⟨lowValue, lowFound⟩, highValue, highFound⟩ := ground
      exact ⟨lowValue, highValue, .range lowFound highFound⟩
  | lit | var | binary =>
      obtain ⟨value, found⟩ := Option.isSome_iff_exists.mp ground
      exact ⟨value, value, .constant found⟩

variable {assignment : Assignment}

theorem denotes_seq_iff {first second : Expr} {index : Index} :
    (seq first second).Denotes assignment index ↔
      ∃ firstIndex secondIndex, index = .pair firstIndex secondIndex ∧
        first.Denotes assignment firstIndex ∧
          second.Denotes assignment secondIndex := by
  constructor
  · intro denoted
    cases denoted with
    | scalar evaluated => exact absurd evaluated evaluate_seq_ne_ok
    | seq inFirst inSecond => exact ⟨_, _, rfl, inFirst, inSecond⟩
  · intro denoted
    obtain ⟨firstIndex, secondIndex, rfl, inFirst, inSecond⟩ := denoted
    exact .seq inFirst inSecond

/-- Pairs have a common index if their components do. -/
theorem exists_common_seq_iff {first₁ second₁ first₂ second₂ : Expr} :
    (∃ index, (seq first₁ second₁).Denotes assignment index ∧
      (seq first₂ second₂).Denotes assignment index) ↔
      (∃ index, first₁.Denotes assignment index ∧
        first₂.Denotes assignment index) ∧
      (∃ index, second₁.Denotes assignment index ∧
        second₂.Denotes assignment index) := by
  simp only [denotes_seq_iff]
  constructor
  · intro common
    obtain ⟨index, ⟨first, second, rfl, inFirst₁, inSecond₁⟩,
      first', second', same, inFirst₂, inSecond₂⟩ := common
    cases same
    exact ⟨⟨first, inFirst₁, inFirst₂⟩, second, inSecond₁, inSecond₂⟩
  · intro common
    obtain ⟨⟨first, inFirst₁, inFirst₂⟩, second, inSecond₁, inSecond₂⟩ := common
    exact ⟨.pair first second, ⟨first, second, rfl, inFirst₁, inSecond₁⟩,
      first, second, rfl, inFirst₂, inSecond₂⟩

/-- An expression whose extent is an interval denotes exactly its integers. -/
theorem HasExtent.denotes_interval_iff {expression : Expr} {low high : Int64}
    (has : HasExtent expression (.interval low high)) {index : Index} :
    expression.Denotes assignment index ↔
      ∃ value, index = .scalar value ∧
        low.toInt ≤ value ∧ value ≤ high.toInt := by
  constructor
  · intro denoted
    cases index with
    | scalar value => exact ⟨value, rfl, has.contains denoted⟩
    | pair =>
        cases denoted
        cases has with
        | constant found => simp [value?_eq_some_iff] at found
  · intro inside
    obtain ⟨value, rfl, above, below⟩ := inside
    cases has with
    | constant found =>
        have exactly : value = low.toInt := by omega
        rw [exactly]
        exact .scalar (evaluate_of_value? found)
    | range lowFound highFound =>
        exact .range (evaluate_of_value? lowFound)
          (evaluate_of_value? highFound) above below

/-- There is no range in an expression that has a value. -/
theorem rangesInhabited_of_value? {expression : Expr} {value : Int64}
    (found : expression.value? = some value) :
    expression.rangesInhabited = true := by
  induction expression generalizing value with
  | lit | var => rfl
  | binary op left right leftIH rightIH =>
      rw [value?_binary_eq_some_iff] at found
      obtain ⟨leftValue, rightValue, leftFound, rightFound, _⟩ := found
      rw [rangesInhabited, leftIH leftFound, rightIH rightFound]
      rfl
  | seq | range => simp [value?_eq_some_iff] at found

theorem HasExtent.rangesInhabited_iff {expression : Expr} {low high : Int64}
    (has : HasExtent expression (.interval low high)) :
    expression.rangesInhabited = true ↔ low ≤ high := by
  cases has with
  | constant found =>
      exact iff_of_true (rangesInhabited_of_value? found) (Int64.le_refl low)
  | range lowFound highFound =>
      simp [rangesInhabited, lowFound, highFound,
        rangesInhabited_of_value? lowFound,
        rangesInhabited_of_value? highFound]

theorem HasExtent.exists_common_iff {left right : Expr}
    {low₁ high₁ low₂ high₂ : Int64}
    (leftHas : HasExtent left (.interval low₁ high₁))
    (rightHas : HasExtent right (.interval low₂ high₂)) :
    (∃ index, left.Denotes assignment index ∧
      right.Denotes assignment index) ↔
      left.overlaps right = true ∧ left.rangesInhabited = true ∧
        right.rangesInhabited = true := by
  rw [leftHas.overlaps_eq, rightHas.extent_eq, leftHas.rangesInhabited_iff,
    rightHas.rangesInhabited_iff, ← Extent.exists_common_iff]
  simp only [leftHas.denotes_interval_iff, rightHas.denotes_interval_iff]
  constructor
  · intro common
    obtain ⟨index, ⟨value, rfl, inLeft⟩, value', same, inRight⟩ := common
    cases same
    exact ⟨value, inLeft, inRight⟩
  · intro common
    obtain ⟨value, inLeft, inRight⟩ := common
    exact ⟨.scalar value, ⟨value, rfl, inLeft⟩, value, rfl, inRight⟩

theorem exists_of_shape_eq_pair {expression : Expr} {front back : Shape}
    (paired : expression.shape = .pair front back) :
    ∃ first second, expression = seq first second ∧ first.shape = front ∧
      second.shape = back := by
  cases expression with
  | seq first second =>
      cases paired
      exact ⟨first, second, rfl, rfl, rfl⟩
  | lit | var | binary | range => cases paired

/-- Ground expressions of one shape are taken apart together, down to
intervals. -/
@[elab_as_elim]
theorem groundInduction {motive : Expr → Expr → Prop}
    (interval : ∀ {left right : Expr} {low₁ high₁ low₂ high₂ : Int64},
      HasExtent left (.interval low₁ high₁) →
      HasExtent right (.interval low₂ high₂) → motive left right)
    (paired : ∀ {first₁ second₁ first₂ second₂ : Expr},
      motive first₁ first₂ → motive second₁ second₂ →
      motive (seq first₁ second₁) (seq first₂ second₂))
    {left right : Expr} (leftGround : left.isGround = true)
    (rightGround : right.isGround = true)
    (sameShape : left.shape = right.shape) : motive left right := by
  generalize leftShape : left.shape = shape at sameShape
  induction shape generalizing left right with
  | single =>
      obtain ⟨_, _, leftHas⟩ := exists_interval_of_isGround leftGround leftShape
      obtain ⟨_, _, rightHas⟩ :=
        exists_interval_of_isGround rightGround sameShape.symm
      exact interval leftHas rightHas
  | pair front back frontIH backIH =>
      obtain ⟨first₁, second₁, rfl, firstShape₁, secondShape₁⟩ :=
        exists_of_shape_eq_pair leftShape
      obtain ⟨first₂, second₂, rfl, firstShape₂, secondShape₂⟩ :=
        exists_of_shape_eq_pair sameShape.symm
      simp only [isGround, Bool.and_eq_true] at leftGround rightGround
      apply paired
      · exact frontIH leftGround.1 rightGround.1 firstShape₁ firstShape₂.symm
      · exact backIH leftGround.2 rightGround.2 secondShape₁ secondShape₂.symm

theorem exists_common_iff_of_isGround {left right : Expr}
    (leftGround : left.isGround = true) (rightGround : right.isGround = true)
    (sameShape : left.shape = right.shape) :
    (∃ index, left.Denotes assignment index ∧
      right.Denotes assignment index) ↔
      left.overlaps right = true ∧ left.rangesInhabited = true ∧
        right.rangesInhabited = true := by
  refine groundInduction ?_ ?_ leftGround rightGround sameShape
  · intro left right _ _ _ _ leftHas rightHas
    exact leftHas.exists_common_iff rightHas
  · intro first₁ second₁ first₂ second₂ firstIH secondIH
    rw [exists_common_seq_iff, firstIH, secondIH]
    simp only [overlaps, rangesInhabited, Bool.and_eq_true]
    tauto

/-- No empty range stands opposite another range. -/
def emptyRangesFaceConstants : Expr → Expr → Bool
  | seq first₁ second₁, seq first₂ second₂ =>
      first₁.emptyRangesFaceConstants first₂ &&
        second₁.emptyRangesFaceConstants second₂
  | range low₁ high₁, range low₂ high₂ =>
      (range low₁ high₁).rangesInhabited && (range low₂ high₂).rangesInhabited
  | _, _ => true

theorem emptyRangesFaceConstants_of_rangesInhabited {left right : Expr}
    (leftInhabited : left.rangesInhabited = true)
    (rightInhabited : right.rangesInhabited = true) :
    left.emptyRangesFaceConstants right = true := by
  fun_induction emptyRangesFaceConstants left right with
  | case1 first₁ second₁ first₂ second₂ firstIH secondIH =>
      rw [rangesInhabited, Bool.and_eq_true] at leftInhabited rightInhabited
      rw [firstIH leftInhabited.1 rightInhabited.1,
        secondIH leftInhabited.2 rightInhabited.2]
      rfl
  | case2 => rw [leftInhabited, rightInhabited, Bool.and_self]
  | case3 => rfl

theorem HasExtent.rangesInhabited_of_overlaps {left right : Expr}
    {low₁ high₁ low₂ high₂ : Int64}
    (leftHas : HasExtent left (.interval low₁ high₁))
    (rightHas : HasExtent right (.interval low₂ high₂))
    (facing : left.emptyRangesFaceConstants right = true)
    (overlap : left.overlaps right = true) :
    left.rangesInhabited = true ∧ right.rangesInhabited = true := by
  rw [leftHas.overlaps_eq, rightHas.extent_eq] at overlap
  simp only [Extent.overlaps, Bool.and_eq_true, decide_eq_true_eq] at overlap
  rw [leftHas.rangesInhabited_iff, rightHas.rangesInhabited_iff]
  -- A constant lies between the bounds of what it overlaps.
  cases leftHas with
  | constant =>
      exact ⟨Int64.le_refl _, Int64.le_trans overlap.2 overlap.1⟩
  | range lowFound highFound =>
      cases rightHas with
      | constant =>
          exact ⟨Int64.le_trans overlap.1 overlap.2, Int64.le_refl _⟩
      | range lowFound' highFound' =>
          rw [emptyRangesFaceConstants, Bool.and_eq_true] at facing
          rw [(HasExtent.range lowFound highFound).rangesInhabited_iff,
            (HasExtent.range lowFound' highFound').rangesInhabited_iff] at facing
          exact facing

theorem rangesInhabited_of_overlaps {left right : Expr}
    (leftGround : left.isGround = true) (rightGround : right.isGround = true)
    (sameShape : left.shape = right.shape)
    (facing : left.emptyRangesFaceConstants right = true)
    (overlap : left.overlaps right = true) :
    left.rangesInhabited = true ∧ right.rangesInhabited = true := by
  revert facing overlap
  refine groundInduction ?_ ?_ leftGround rightGround sameShape
  · intro left right _ _ _ _ leftHas rightHas facing overlap
    exact leftHas.rangesInhabited_of_overlaps rightHas facing overlap
  · intro first₁ second₁ first₂ second₂ firstIH secondIH facing overlap
    simp only [emptyRangesFaceConstants, overlaps, Bool.and_eq_true]
      at facing overlap
    obtain ⟨leftFirst, rightFirst⟩ := firstIH facing.1 overlap.1
    obtain ⟨leftSecond, rightSecond⟩ := secondIH facing.2 overlap.2
    simp only [rangesInhabited, leftFirst, leftSecond, rightFirst, rightSecond,
      Bool.and_self, and_self]

/-- Ground expressions of one shape in which no empty range stands opposite
another range overlap exactly if they have a common index.  With an empty range
in one of them they have none, whatever the test answers. -/
theorem ground_overlap_is_exact (assignment : Assignment) {left right : Expr}
    (leftGround : left.isGround = true) (rightGround : right.isGround = true)
    (sameShape : left.shape = right.shape) :
    (left.emptyRangesFaceConstants right = true →
      (overlapsOptional (some left) (some right) = true ↔
        ∃ index, left.Denotes assignment index ∧
          right.Denotes assignment index)) ∧
    (left.rangesInhabited = false ∨ right.rangesInhabited = false →
      ¬∃ index, left.Denotes assignment index ∧
        right.Denotes assignment index) := by
  rw [exists_common_iff_of_isGround leftGround rightGround sameShape]
  constructor
  · intro facing
    refine ⟨fun overlap => ⟨overlap, ?_⟩, And.left⟩
    exact rangesInhabited_of_overlaps leftGround rightGround sameShape facing
      overlap
  · intro empty common
    obtain ⟨_, leftInhabited, rightInhabited⟩ := common
    rcases empty with leftEmpty | rightEmpty
    · simp [leftEmpty] at leftInhabited
    · simp [rightEmpty] at rightInhabited

/-- `2+1` lies on `3..3` and `0..(1<<2)` touches `4..9`, while `3..1` is empty
and does not reach `2`. -/
theorem ground_overlap_is_exact_at_borders :
    let left : Expr :=
      seq (binary .add (lit 2) (lit 1))
        (range (lit 0) (binary .shl (lit 1) (lit 2)))
    let right : Expr := seq (range (lit 3) (lit 3)) (range (lit 4) (lit 9))
    let empty : Expr := seq (lit 3) (range (lit 3) (lit 1))
    let constant : Expr := seq (lit 3) (lit 2)
    ((left.isGround = true ∧ right.isGround = true ∧
        left.shape = right.shape ∧ left.rangesInhabited = true ∧
          right.rangesInhabited = true) ∧
      (overlapsOptional (some left) (some right) = true ↔
        ∃ index, left.Denotes .empty index ∧ right.Denotes .empty index)) ∧
    ((empty.isGround = true ∧ empty.shape = right.shape ∧
        empty.rangesInhabited = false) ∧
      ¬∃ index, empty.Denotes .empty index ∧ right.Denotes .empty index) ∧
    ((constant.isGround = true ∧ empty.shape = constant.shape ∧
        empty.emptyRangesFaceConstants constant = true) ∧
      (overlapsOptional (some empty) (some constant) = true ↔
        ∃ index, empty.Denotes .empty index ∧
          constant.Denotes .empty index)) := by
  intro left right empty constant
  have leftGround : left.isGround = true := by decide
  have rightGround : right.isGround = true := by decide
  have emptyGround : empty.isGround = true := by decide
  have constantGround : constant.isGround = true := by decide
  have leftInhabited : left.rangesInhabited = true := by decide
  have rightInhabited : right.rangesInhabited = true := by decide
  have emptyRange : empty.rangesInhabited = false := by decide
  have facing : empty.emptyRangesFaceConstants constant = true := by decide
  refine ⟨⟨⟨leftGround, rightGround, rfl, leftInhabited, rightInhabited⟩, ?_⟩,
    ⟨⟨emptyGround, rfl, emptyRange⟩, ?_⟩, ⟨constantGround, rfl, facing⟩, ?_⟩
  · apply (ground_overlap_is_exact .empty leftGround rightGround rfl).1
    exact emptyRangesFaceConstants_of_rangesInhabited leftInhabited rightInhabited
  · exact (ground_overlap_is_exact .empty emptyGround rightGround rfl).2
      (.inl emptyRange)
  · exact (ground_overlap_is_exact .empty emptyGround constantGround rfl).1
      facing

/-- `1..0` denotes nothing, but it overlaps `0..1`. -/
theorem empty_range_overlaps :
    let empty : Expr := range (lit 1) (lit 0)
    let whole : Expr := range (lit 0) (lit 1)
    (empty.isGround = true ∧ whole.isGround = true ∧
      empty.shape = whole.shape) ∧
    overlapsOptional (some empty) (some whole) = true ∧
    ∀ assignment : Assignment,
      ¬∃ index, empty.Denotes assignment index ∧
        whole.Denotes assignment index := by
  intro empty whole
  have emptyGround : empty.isGround = true := by decide
  have wholeGround : whole.isGround = true := by decide
  refine ⟨⟨emptyGround, wholeGround, rfl⟩, by decide, ?_⟩
  intro assignment common
  rw [exists_common_iff_of_isGround emptyGround wholeGround rfl] at common
  have inhabited : empty.rangesInhabited = true := common.2.1
  revert inhabited
  decide

end Expr

end Multiparty
