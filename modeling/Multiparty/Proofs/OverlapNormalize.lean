import Multiparty.Proofs.OverlapSoundness

/-!
# Overlap and normalisation

Normalisation keeps a constant distance from a variable and every other extent
that is known.  So expressions that can be told apart can still be told apart
in normal form, and expressions with one normal form overlap, provided that no
range in them is known to be empty.
-/

namespace Multiparty

namespace Expr

/-- A constant that cancels does not move an expression. -/
theorem AtDistance.cancel {name : String} {operand cancelled : Expr}
    {start constant total : Int64} (shifted : AtDistance name operand start)
    (sum : total.toInt = start.toInt + constant.toInt)
    (cancels : cancel? .add operand constant = some cancelled) :
    AtDistance name cancelled total := by
  simp only [cancel?, Option.ite_none_right_eq_some, Option.some.injEq]
    at cancels
  obtain ⟨rfl, rfl⟩ := cancels
  have unmoved : total = start := by
    rw [← Int64.toInt_inj]
    simpa using sum
  rw [unmoved]
  exact shifted

theorem AtDistance.attach_add {name : String} {operand : Expr}
    {start constant total : Int64} (shifted : AtDistance name operand start)
    (sum : total.toInt = start.toInt + constant.toInt) :
    AtDistance name (attach .add operand constant) total := by
  fun_induction attach .add operand constant generalizing start with
  | case1 => cases shifted
  | case2 _ _ _ _ _ cancels => exact shifted.cancel sum cancels
  | case3 left last constant merged merges _ ih =>
      rw [Operator.apply_add_iff] at merges
      cases shifted with
      | addRight leftShifted lastValue fits =>
          cases lastValue
          exact ih leftShifted (by omega)
      | addLeft _ lastShifted _ => cases lastShifted
  | case4 => exact .addRight shifted (value?_lit _) sum
  | case5 => exact .addRight shifted (value?_lit _) sum
  | case6 operand constant =>
      cases cancels : cancel? .add operand constant with
      | none => exact .addRight shifted (value?_lit _) sum
      | some cancelled => exact shifted.cancel sum cancels

theorem rebuild_add_lit {operand : Expr} (constant : Int64)
    (notLit : ∀ value, operand ≠ lit value) :
    rebuild .add operand (lit constant) = attach .add operand constant := by
  cases operand with
  | lit value => exact (notLit value rfl).elim
  | _ => rfl

theorem rebuild_lit_add {operand : Expr} (constant : Int64)
    (notLit : ∀ value, operand ≠ lit value) :
    rebuild .add (lit constant) operand = attach .add operand constant := by
  cases operand with
  | lit value => exact (notLit value rfl).elim
  | _ => rfl

theorem rebuild_sub_lit {operand : Expr} (constant : Int64)
    (notLit : ∀ value, operand ≠ lit value) :
    rebuild .sub operand (lit constant) =
      (fit? (-constant.toInt)).elim (binary .sub operand (lit constant))
        (attach .add operand) := by
  rw [rebuild]
  · cases fit? (-constant.toInt) <;> rfl
  · exact notLit

theorem AtDistance.ne_lit {name : String} {operand : Expr} {distance : Int64}
    (shifted : AtDistance name operand distance) (value : Int64) :
    operand ≠ lit value := by
  rintro rfl
  cases shifted

theorem AtDistance.rebuild_sub {name : String} {operand : Expr}
    {start constant distance : Int64} (shifted : AtDistance name operand start)
    (difference : distance.toInt = start.toInt - constant.toInt) :
    AtDistance name (rebuild .sub operand (lit constant)) distance := by
  rw [rebuild_sub_lit constant shifted.ne_lit]
  cases opposite : fit? (-constant.toInt) with
  | none => exact .sub shifted (value?_lit _) difference
  | some negated =>
      rw [fit?_eq_some_iff] at opposite
      exact shifted.attach_add (by omega)

theorem AtDistance.normalize {name : String} {expression : Expr}
    {distance : Int64} (shifted : AtDistance name expression distance) :
    AtDistance name expression.normalize distance := by
  induction shifted with
  | var => exact .var
  | addRight _ rightConstant fits ih =>
      rw [Expr.normalize, normalize_of_value? rightConstant,
        rebuild_add_lit _ ih.ne_lit]
      exact ih.attach_add fits
  | addLeft leftConstant _ fits ih =>
      rw [Expr.normalize, normalize_of_value? leftConstant,
        rebuild_lit_add _ ih.ne_lit]
      exact ih.attach_add fits
  | sub _ rightConstant fits ih =>
      rw [Expr.normalize, normalize_of_value? rightConstant]
      exact ih.rebuild_sub fits

theorem HasExtent.normalize {expression : Expr} {known : Extent}
    (has : HasExtent expression known) :
    HasExtent expression.normalize known := by
  cases has with
  | constant found =>
      rw [normalize_of_value? found]
      exact .constant (value?_lit _)
  | range lowFound highFound =>
      rw [Expr.normalize, normalize_of_value? lowFound,
        normalize_of_value? highFound]
      exact .range (value?_lit _) (value?_lit _)
  | shifted shifted => exact .shifted shifted.normalize

/-- An expression with a known extent is no sequence, so that its overlap is
that of its extent. -/
theorem HasExtent.overlaps_eq {left right : Expr} {known : Extent}
    (has : HasExtent left known) :
    left.overlaps right = known.overlaps right.extent := by
  rw [← has.extent_eq]
  cases left with
  | seq =>
      cases has with
      | constant found => simp [value?_eq_some_iff] at found
      | shifted shifted => cases shifted
  | _ => rfl

/-- Only extents that are known have to be compared. -/
theorem extents_overlap {left right : Expr}
    (meet : HasExtent left left.extent → HasExtent right right.extent →
      left.extent.overlaps right.extent = true) :
    left.extent.overlaps right.extent = true := by
  rcases hasExtent_or_unknown left with leftHas | unknown
  · rcases hasExtent_or_unknown right with rightHas | unknown
    · exact meet leftHas rightHas
    · rw [unknown]
      cases left.extent <;> rfl
  · rw [unknown]
    rfl

/-- Expressions whose normal forms overlap overlap. -/
theorem overlaps_of_overlaps_normalize {left right : Expr}
    (overlap : left.normalize.overlaps right.normalize = true) :
    left.overlaps right = true := by
  fun_induction overlaps left right with
  | case1 first₁ second₁ first₂ second₂ firstIH secondIH =>
      simp only [normalize, overlaps, Bool.and_eq_true] at overlap ⊢
      exact ⟨firstIH overlap.1, secondIH overlap.2⟩
  | case2 left right =>
      apply extents_overlap
      intro leftHas rightHas
      rw [leftHas.normalize.overlaps_eq, rightHas.normalize.extent_eq] at overlap
      exact overlap

/-- Normalisation keeps the distance from a variable, and expressions that can
be told apart can be told apart once they are normalised. -/
theorem disjointness_survives_normalization :
    (∀ left right : Expr,
      overlapsOptional (some left) (some right) = false →
        overlapsOptional (some left.normalize) (some right.normalize) = false) ∧
    (∀ (expression : Expr) (name : String) (distance : Int64),
      expression.offset? = some (name, distance) →
        expression.normalize.offset? = some (name, distance)) := by
  constructor
  · intro left right disjoint
    rw [Bool.eq_false_iff] at disjoint ⊢
    intro overlap
    exact disjoint (overlaps_of_overlaps_normalize overlap)
  · intro expression name distance shifted
    rw [offset?_eq_some_iff] at shifted ⊢
    exact shifted.normalize

/-- In `(i-1)-(-9223372036854775808)` the second subtraction stays in place, and
the distance from `i` has to be found around it. -/
theorem disjointness_survives_normalization_at_limit :
    let far : Expr :=
      binary .sub (binary .sub (var "i") (lit 1)) (lit Int64.minValue)
    let next : Expr := binary .add (lit 1) (var "i")
    (overlapsOptional (some far) (some next) = false ∧
      overlapsOptional (some far.normalize) (some next.normalize) = false) ∧
    (far.offset? = some ("i", Int64.maxValue) ∧
      far.normalize.offset? = some ("i", Int64.maxValue)) := by
  intro far next
  have apart : overlapsOptional (some far) (some next) = false := by decide
  have shifted : far.offset? = some ("i", Int64.maxValue) := by decide
  obtain ⟨disjoint, distances⟩ := disjointness_survives_normalization
  exact ⟨⟨apart, disjoint far next apart⟩, shifted, distances far _ _ shifted⟩

/-- Every range between constants, at any depth, has its bounds in order. -/
def rangesInhabited : Expr → Bool
  | lit _ | var _ => true
  | binary _ left right | seq left right =>
      left.rangesInhabited && right.rangesInhabited
  | range low high =>
      low.rangesInhabited && high.rangesInhabited &&
        match low.value?, high.value? with
        | some lowValue, some highValue => lowValue ≤ highValue
        | _, _ => true

/-- The extent of an expression whose ranges are inhabited meets itself. -/
theorem HasExtent.overlaps_self {expression : Expr} {known : Extent}
    (has : HasExtent expression known)
    (inhabited : expression.rangesInhabited = true) :
    known.overlaps known = true := by
  cases has with
  | constant => simp [Extent.overlaps]
  | range lowFound highFound =>
      simp only [rangesInhabited, lowFound, highFound, Bool.and_eq_true,
        decide_eq_true_eq] at inhabited
      simp [Extent.overlaps, inhabited.2]
  | shifted => simp [Extent.overlaps]

theorem overlaps_of_normalize_eq {left right : Expr}
    (same : left.normalize = right.normalize)
    (inhabited : left.rangesInhabited = true) :
    left.overlaps right = true := by
  fun_induction overlaps left right with
  | case1 first₁ second₁ first₂ second₂ firstIH secondIH =>
      simp only [normalize, seq.injEq] at same
      simp only [rangesInhabited, Bool.and_eq_true] at inhabited ⊢
      exact ⟨firstIH same.1 inhabited.1, secondIH same.2 inhabited.2⟩
  | case2 left right =>
      apply extents_overlap
      intro leftHas rightHas
      have sameExtent : right.extent = left.extent := by
        rw [← rightHas.normalize.extent_eq, ← same, leftHas.normalize.extent_eq]
      rw [sameExtent]
      exact leftHas.overlaps_self inhabited

/-- Expressions with one normal form overlap, however they are written, if the
ranges of the first are inhabited; in particular such an expression overlaps
itself. -/
theorem one_normal_form_overlaps (left : Expr)
    (inhabited : left.rangesInhabited = true) :
    (∀ right : Expr, left.normalize = right.normalize →
      overlapsOptional (some left) (some right) = true) ∧
    overlapsOptional (some left) (some left) = true := by
  constructor
  · intro right same
    exact overlaps_of_normalize_eq same inhabited
  · exact overlaps_of_normalize_eq rfl inhabited

/-- `1+i` and `(i+3)-2` pair up in front of two ranges, only one of which is
known to be a range between constants. -/
theorem one_normal_form_overlaps_in_pairs :
    let left : Expr :=
      seq (binary .add (lit 1) (var "i"))
        (range (lit 0) (binary .shl (lit 1) (lit 2)))
    let right : Expr :=
      seq (binary .sub (binary .add (var "i") (lit 3)) (lit 2))
        (range (binary .mul (var "j") (lit 0)) (lit 4))
    (left.rangesInhabited = true ∧ left.normalize = right.normalize) ∧
    overlapsOptional (some left) (some right) = true ∧
    overlapsOptional (some left) (some left) = true := by
  intro left right
  have inhabited : left.rangesInhabited = true := by decide
  have same : left.normalize = right.normalize := by decide
  obtain ⟨overlap, overlapSelf⟩ := one_normal_form_overlaps left inhabited
  exact ⟨⟨inhabited, same⟩, overlap right same, overlapSelf⟩

-- A range that is known to be empty does not even overlap itself.
example : overlaps (range (lit 3) (lit 1)) (range (lit 3) (lit 1)) = false := by
  decide

end Expr

namespace Role

theorem overlaps_of_overlaps_normalize {left right : Role}
    (overlap : left.normalize.overlaps right.normalize = true) :
    left.overlaps right = true := by
  simp only [overlaps, normalize, List.length_map, Bool.and_eq_true,
    Bool.or_eq_true, isEqv_iff_forall₂, List.forall₂_map_left_iff,
    List.forall₂_map_right_iff] at overlap ⊢
  refine ⟨overlap.1, overlap.2.imp_right fun dimensions => ?_⟩
  exact dimensions.imp fun _ _ => Expr.overlaps_of_overlaps_normalize

theorem overlaps_of_normalize_eq {left right : Role}
    (same : left.normalize = right.normalize)
    (inhabited :
      ∀ dimension ∈ left.dimensions, dimension.rangesInhabited = true) :
    left.overlaps right = true := by
  simp only [normalize, Role.mk.injEq] at same
  obtain ⟨named, dimensions⟩ := same
  rw [← List.forall₂_eq_eq_eq, List.forall₂_map_left_iff,
    List.forall₂_map_right_iff] at dimensions
  simp only [overlaps, Bool.and_eq_true, beq_iff_eq, Bool.or_eq_true,
    isEqv_iff_forall₂]
  refine ⟨named, .inr ?_⟩
  exact (List.forall₂_and_left _ _ |>.mpr ⟨inhabited, dimensions⟩).imp
    fun _ _ both => Expr.overlaps_of_normalize_eq both.2 both.1

/-- Roles that denote a common endpoint overlap, and so do all roles with the
same normal forms. -/
theorem overlaps_of_normalize_denotes {assignment : Assignment}
    {left right left' right' : Role} {endpoint : Endpoint}
    (sameLeft : left'.normalize = left.normalize)
    (sameRight : right'.normalize = right.normalize)
    (inLeft : left'.Denotes assignment endpoint)
    (inRight : right'.Denotes assignment endpoint) :
    left.overlaps right = true := by
  apply overlaps_of_overlaps_normalize
  rw [← sameLeft, ← sameRight]
  exact overlaps_of_denotes inLeft.normalize inRight.normalize

end Role

end Multiparty
