import Multiparty.Proofs.NormalizeMeaning

/-!
# Normal forms of expressions

An operation is a redex if one of the rules of normalisation applies to it, and
an expression is normal if no operation in it is a redex.  Normalisation ends in
a normal expression, although each of its steps only looks at one operation:
merging two literals may let the result cancel, or meet another literal, and
this is followed up until nothing is left to rewrite.  Normal expressions are
exactly those that normalisation does not change.
-/

namespace Multiparty

/-- The constants that an operator with a constant on its right does not need:
its units, and zero for products. -/
inductive Operator.Cancels : Operator → Int64 → Prop where
  | addZero : Cancels .add 0
  | mulZero : Cancels .mul 0
  | mulOne : Cancels .mul 1
  | divOne : Cancels .div 1
  | shlZero : Cancels .shl 0
  | shrZero : Cancels .shr 0

/-- Only the least word has no opposite. -/
theorem fit?_neg_eq_none_iff {constant : Int64} :
    fit? (-constant.toInt) = none ↔ constant = Int64.minValue := by
  have lowest := Int64.minValue_le_toInt constant
  have highest := Int64.toInt_le constant
  rw [← Int64.toInt_inj]
  simp only [fit?, Int64.toInt_minValue, Int64.toInt_maxValue, ite_eq_right_iff,
    reduceCtorEq, imp_false] at lowest highest ⊢
  omega

namespace Expr

/-- The operations that a rule rewrites.  Two literals are only ever folded. -/
inductive Redex : Operator → Expr → Expr → Prop where
  | fold {op : Operator} {left right value : Int64} :
      op.apply left right = .ok value → Redex op (lit left) (lit right)
  | exchange {op : Operator} {constant : Int64} {right : Expr} :
      op.isCommutative = true → (∀ value, right ≠ lit value) →
      Redex op (lit constant) right
  | negate {left : Expr} {constant : Int64} :
      (∀ value, left ≠ lit value) → constant ≠ Int64.minValue →
      Redex .sub left (lit constant)
  | cancel {op : Operator} {left : Expr} {constant : Int64} :
      (∀ value, left ≠ lit value) → op.Cancels constant →
      Redex op left (lit constant)
  | merge {op : Operator} {operand : Expr} {first second merged : Int64} :
      op.isCommutative = true → op.apply first second = .ok merged →
      Redex op (binary op operand (lit first)) (lit second)

/-- No operation in the expression is a redex. -/
def IsNormal : Expr → Prop
  | lit _ | var _ => True
  | binary op left right => left.IsNormal ∧ right.IsNormal ∧ ¬Redex op left right
  | seq left right | range left right => left.IsNormal ∧ right.IsNormal

theorem cancel?_of_cancels {op : Operator} {constant : Int64}
    (cancels : op.Cancels constant) (operand : Expr) :
    cancel? op operand constant ≠ none := by
  cases cancels <;> simp [cancel?]

/-- A constant that a unit or zero law removes makes a redex. -/
theorem redex_of_cancel? {op : Operator} {operand cancelled : Expr}
    {constant : Int64} (notLit : ∀ value, operand ≠ lit value)
    (cancels : cancel? op operand constant = some cancelled) :
    Redex op operand (lit constant) := by
  cases op with
  | sub =>
      simp only [cancel?, Option.ite_none_right_eq_some] at cancels
      apply Redex.negate notLit
      rw [cancels.1]
      decide
  | mod => cases cancels
  | mul =>
      apply Redex.cancel notLit
      simp only [cancel?] at cancels
      split at cancels
      case isTrue one =>
        rw [one]
        exact .mulOne
      case isFalse =>
        simp only [Option.ite_none_right_eq_some] at cancels
        rw [cancels.1]
        exact .mulZero
  | add | div | shl | shr =>
      simp only [cancel?, Option.ite_none_right_eq_some] at cancels
      apply Redex.cancel notLit
      rw [cancels.1]
      constructor

/-- An operation with a constant on its right is no redex if nothing cancels
and nothing can be merged. -/
theorem not_redex_lit {op : Operator} {operand : Expr} {constant : Int64}
    (notLit : ∀ value, operand ≠ lit value) (notSub : op ≠ .sub)
    (kept : cancel? op operand constant = none)
    (unmerged : op.isCommutative = true → ∀ rest last merged,
      operand = binary op rest (lit last) →
        op.apply last constant ≠ .ok merged) :
    ¬Redex op operand (lit constant) := by
  intro redex
  cases redex with
  | fold => exact notLit _ rfl
  | exchange _ otherNotLit => exact otherNotLit _ rfl
  | negate => exact notSub rfl
  | cancel _ cancels => exact cancel?_of_cancels cancels operand kept
  | merge commutative merges => exact unmerged commutative _ _ _ rfl merges

theorem isNormal_fold (op : Operator) (left right : Int64) :
    (fold op left right).IsNormal := by
  unfold fold
  split
  case h_1 => trivial
  case h_2 fails =>
    refine ⟨trivial, trivial, ?_⟩
    intro redex
    cases redex with
    | fold applied => simp [applied] at fails
    | exchange _ notLit | negate notLit | cancel notLit => exact notLit _ rfl

theorem IsNormal.cancel {op : Operator} {operand cancelled : Expr}
    {constant : Int64} (normal : operand.IsNormal)
    (cancels : cancel? op operand constant = some cancelled) :
    cancelled.IsNormal := by
  rcases cancel?_cases cancels with ⟨rfl, _⟩ | ⟨rfl, _⟩
  · exact normal
  · trivial

/-- Merging a constant into a normal operand ends in a normal expression. -/
theorem IsNormal.attach {op : Operator} {operand : Expr} {constant : Int64}
    (normal : operand.IsNormal) (commutative : op.isCommutative = true) :
    (attach op operand constant).IsNormal := by
  have notSub : op ≠ .sub := by
    rintro rfl
    cases commutative
  -- The literals at the end of the operand are merged one after the other, and
  -- what is left of a normal operand is normal.
  fun_induction Expr.attach op operand constant with
  | case1 value constant => exact isNormal_fold op value constant
  | case2 _ _ _ _ _ cancels => exact normal.cancel cancels
  | case3 left last constant merged merges _ ih => exact ih normal.1
  | case4 left last constant cause fails kept =>
      refine ⟨normal, trivial, not_redex_lit (by simp) notSub kept ?_⟩
      rintro _ rest last merged ⟨⟩ merges
      simp [merges] at fails
  | case5 inner left last constant kept different =>
      refine ⟨normal, trivial, not_redex_lit (by simp) notSub kept ?_⟩
      rintro _ rest last merged ⟨⟩
      exact (different rfl).elim
  | case6 operand constant notLit notEnding =>
      cases cancels : cancel? op operand constant with
      | some cancelled => exact normal.cancel cancels
      | none =>
          refine ⟨normal, trivial, not_redex_lit notLit notSub cancels ?_⟩
          rintro _ rest last merged ⟨⟩
          exact (notEnding _ _ _ rfl).elim

/-- Putting normal operands together ends in a normal expression. -/
theorem IsNormal.rebuild {op : Operator} {left right : Expr}
    (leftNormal : left.IsNormal) (rightNormal : right.IsNormal) :
    (rebuild op left right).IsNormal := by
  fun_cases Expr.rebuild op left right with
  | case1 op left right => exact isNormal_fold op left right
  | case2 left constant notLit negated opposite => exact leftNormal.attach rfl
  | case3 left constant notLit unfit =>
      refine ⟨leftNormal, trivial, ?_⟩
      intro redex
      cases redex with
      | fold => exact notLit _ rfl
      | exchange commutative => cases commutative
      | negate _ higher => exact higher (fit?_neg_eq_none_iff.mp unfit)
      | cancel _ cancels => cases cancels
      | merge commutative => cases commutative
  | case4 op constant right notLit commutative =>
      exact rightNormal.attach commutative
  | case5 op constant right notLit fixed =>
      refine ⟨trivial, rightNormal, ?_⟩
      intro redex
      cases redex with
      | fold => exact notLit _ rfl
      | exchange commutative => exact fixed commutative
      | negate leftNotLit | cancel leftNotLit => exact leftNotLit _ rfl
  | case6 op left constant _ _ commutative =>
      exact leftNormal.attach commutative
  | case7 op left constant notLit notSub fixed =>
      cases cancels : cancel? op left constant with
      | some cancelled => exact leftNormal.cancel cancels
      | none =>
          refine ⟨leftNormal, trivial, not_redex_lit notLit notSub cancels ?_⟩
          intro commutative
          exact (fixed commutative).elim
  | case8 op left right _ _ leftNotLit rightNotLit =>
      refine ⟨leftNormal, rightNormal, ?_⟩
      intro redex
      cases redex with
      | fold | exchange => exact leftNotLit _ rfl
      | negate | cancel | merge => exact rightNotLit _ rfl

/-- What is normalised is normal. -/
theorem isNormal_normalize (expression : Expr) : expression.normalize.IsNormal := by
  induction expression with
  | lit | var => trivial
  | binary op left right leftIH rightIH => exact leftIH.rebuild rightIH
  | seq first second firstIH secondIH => exact ⟨firstIH, secondIH⟩
  | range low high lowIH highIH => exact ⟨lowIH, highIH⟩

theorem cancel?_of_not_redex {op : Operator} {operand : Expr} {constant : Int64}
    (notLit : ∀ value, operand ≠ lit value)
    (irreducible : ¬Redex op operand (lit constant)) :
    cancel? op operand constant = none := by
  rw [Option.eq_none_iff_forall_ne_some]
  intro cancelled cancels
  exact irreducible (redex_of_cancel? notLit cancels)

theorem attach_of_not_redex {op : Operator} {operand : Expr} {constant : Int64}
    (commutative : op.isCommutative = true)
    (notLit : ∀ value, operand ≠ lit value)
    (irreducible : ¬Redex op operand (lit constant)) :
    attach op operand constant = binary op operand (lit constant) := by
  have kept := cancel?_of_not_redex notLit irreducible
  fun_cases attach op operand constant with
  | case1 => exact (notLit _ rfl).elim
  | case2 _ _ _ _ _ cancels => simp [cancels] at kept
  | case3 left last constant merged merges =>
      exact (irreducible (.merge commutative merges)).elim
  | case4 => rfl
  | case5 => rfl
  | case6 => rw [kept, Option.getD_none]

/-- An operation that is no redex is put together as it is. -/
theorem rebuild_of_not_redex {op : Operator} {left right : Expr}
    (irreducible : ¬Redex op left right) :
    rebuild op left right = binary op left right := by
  fun_cases rebuild op left right with
  | case1 op left right =>
      unfold fold
      split
      case h_1 applied => exact (irreducible (.fold applied)).elim
      case h_2 => rfl
  | case2 left constant notLit negated opposite =>
      refine (irreducible (.negate notLit ?_)).elim
      intro lowest
      rw [fit?_neg_eq_none_iff.mpr lowest] at opposite
      cases opposite
  | case3 => rfl
  | case4 op constant right notLit commutative =>
      exact (irreducible (.exchange commutative notLit)).elim
  | case5 => rfl
  | case6 op left constant notLit _ commutative =>
      exact attach_of_not_redex commutative notLit irreducible
  | case7 op left constant notLit =>
      rw [cancel?_of_not_redex notLit irreducible, Option.getD_none]
  | case8 => rfl

theorem IsNormal.normalize_eq_self {expression : Expr}
    (normal : expression.IsNormal) : expression.normalize = expression := by
  induction expression with
  | lit | var => rfl
  | binary op left right leftIH rightIH =>
      obtain ⟨leftNormal, rightNormal, irreducible⟩ := normal
      rw [normalize, leftIH leftNormal, rightIH rightNormal,
        rebuild_of_not_redex irreducible]
  | seq first second firstIH secondIH =>
      rw [normalize, firstIH normal.1, secondIH normal.2]
  | range low high lowIH highIH =>
      rw [normalize, lowIH normal.1, highIH normal.2]

theorem normalize_eq_self_iff {expression : Expr} :
    expression.normalize = expression ↔ expression.IsNormal := by
  constructor
  · intro fixed
    rw [← fixed]
    exact isNormal_normalize expression
  · exact IsNormal.normalize_eq_self

instance : DecidablePred IsNormal := fun expression =>
  decidable_of_iff (expression.normalize = expression) normalize_eq_self_iff

/-- Normalisation ends in a normal expression, and it changes nothing exactly if
the expression is normal; so to normalise again changes nothing. -/
theorem normalization_reaches_normal_forms (expression : Expr) :
    expression.normalize.IsNormal ∧
      (expression.normalize = expression ↔ expression.IsNormal) ∧
        expression.normalize.normalize = expression.normalize := by
  have normal := isNormal_normalize expression
  exact ⟨normal, normalize_eq_self_iff, normal.normalize_eq_self⟩

-- Literals whose sum is out of range stay apart, and so does a subtraction of
-- the least literal, which has no opposite.
example :
    IsNormal (binary .add (binary .add (var "i") (lit Int64.maxValue)) (lit 1)) ∧
      IsNormal (binary .sub (var "i") (lit Int64.minValue)) ∧
        ¬IsNormal (binary .add (binary .add (var "i") (lit 1)) (lit 2)) := by
  decide

end Expr

end Multiparty
