import Multiparty.Proofs.ExactArithmetic
import Multiparty.Proofs.NormalForm

/-!
# Normalisation shrinks expressions

No rule of normalisation adds to an expression, although exchanging operands
and negating a constant do not make it smaller either.  The variables stay, in
their order and with their repeats, unless a product has a factor that is
normalised to zero: this is the only rule that drops an operand.  Merging two
constants never makes a new zero, since a normal product has no zero factor.
-/

namespace Multiparty

namespace Expr

theorem length_parts_binary (op : Operator) (left right : Expr) :
    (binary op left right).parts.length =
      left.parts.length + right.parts.length + 1 := by
  simp [parts]

theorem length_parts_pos (expression : Expr) : 0 < expression.parts.length :=
  List.length_pos_of_mem (mem_parts_self expression)

theorem length_parts_fold (op : Operator) (left right : Int64) :
    (fold op left right).parts.length ≤ 3 := by
  unfold fold
  split <;> simp [parts]

theorem length_parts_cancel? {op : Operator} {operand cancelled : Expr}
    {constant : Int64} (cancels : cancel? op operand constant = some cancelled) :
    cancelled.parts.length ≤ operand.parts.length := by
  rcases cancel?_cases cancels with ⟨rfl, _⟩ | ⟨rfl, _⟩
  · exact Nat.le_refl _
  · exact length_parts_pos operand

/-- An operation with a constant that may cancel is not larger than before. -/
theorem length_parts_cancel?_getD (op : Operator) (operand : Expr)
    (constant : Int64) :
    ((cancel? op operand constant).getD
      (binary op operand (lit constant))).parts.length ≤
        operand.parts.length + 2 := by
  cases cancels : cancel? op operand constant with
  | none => simp [parts]
  | some cancelled =>
      have smaller := length_parts_cancel? cancels
      rw [Option.getD_some]
      omega

theorem length_parts_attach (op : Operator) (operand : Expr) (constant : Int64) :
    (attach op operand constant).parts.length ≤ operand.parts.length + 2 := by
  fun_induction attach op operand constant with
  | case1 value constant => exact length_parts_fold op value constant
  | case2 _ _ _ _ _ cancels =>
      exact Nat.le_add_right_of_le (length_parts_cancel? cancels)
  | case3 left last constant merged merges _ ih =>
      rw [length_parts_binary]
      omega
  | case4 => simp [parts]
  | case5 => simp [parts]
  | case6 operand constant => exact length_parts_cancel?_getD op operand constant

theorem length_parts_rebuild (op : Operator) (left right : Expr) :
    (rebuild op left right).parts.length ≤
      left.parts.length + right.parts.length + 1 := by
  fun_cases rebuild op left right with
  | case1 op left right => exact length_parts_fold op left right
  | case2 left constant _ negated => exact length_parts_attach .add left negated
  | case4 op constant right =>
      rw [Nat.add_comm (parts _).length]
      exact length_parts_attach op right constant
  | case6 op left constant => exact length_parts_attach op left constant
  | case7 op left constant => exact length_parts_cancel?_getD op left constant
  | case3 | case5 | case8 => rw [length_parts_binary]

/-- What is normalised has at most as many parts as before. -/
theorem length_parts_normalize (expression : Expr) :
    expression.normalize.parts.length ≤ expression.parts.length := by
  induction expression with
  | lit | var => exact Nat.le_refl _
  | binary op left right leftIH rightIH =>
      have rebuilt := length_parts_rebuild op left.normalize right.normalize
      rw [normalize, length_parts_binary]
      omega
  | seq first second firstIH secondIH | range first second firstIH secondIH =>
      simp only [normalize, parts, List.length_cons, List.length_append]
      omega

/-- A normal product has no zero factor on its right. -/
theorem IsNormal.factor_ne_zero {operand : Expr} {constant : Int64}
    (normal : (binary .mul operand (lit constant)).IsNormal) : constant ≠ 0 := by
  rintro rfl
  apply normal.2.2
  cases operand with
  | lit value => exact .fold (Operator.apply_mul_zero value)
  | var | binary | seq | range => exact .cancel (by simp) .mulZero

theorem vars_fold (op : Operator) (left right : Int64) :
    (fold op left right).vars = [] := by
  unfold fold
  split <;> rfl

/-- Only a product with zero cancels to something else than its operand. -/
theorem cancel?_keeps_or_zero {op : Operator} {operand cancelled : Expr}
    {constant : Int64} (cancels : cancel? op operand constant = some cancelled) :
    cancelled = operand ∨ (op = .mul ∧ constant = 0) := by
  cases op with
  | mul =>
      simp only [cancel?] at cancels
      split at cancels
      · cases cancels
        exact .inl rfl
      · exact .inr ⟨rfl, (Option.ite_none_right_eq_some.mp cancels).1⟩
  | mod => cases cancels
  | add | sub | div | shl | shr =>
      simp only [cancel?, Option.ite_none_right_eq_some, Option.some.injEq]
        at cancels
      exact .inl cancels.2.symm

theorem vars_cancel?_getD {op : Operator} (operand : Expr) {constant : Int64}
    (nonzero : op = .mul → constant ≠ 0) :
    ((cancel? op operand constant).getD
      (binary op operand (lit constant))).vars = operand.vars := by
  cases cancels : cancel? op operand constant with
  | none => simp [vars]
  | some cancelled =>
      rcases cancel?_keeps_or_zero cancels with same | ⟨product, zero⟩
      · rw [Option.getD_some, same]
      · exact (nonzero product zero).elim

/-- Merging a constant other than a zero factor keeps the variables. -/
theorem vars_attach {op : Operator} {operand : Expr} {constant : Int64}
    (normal : operand.IsNormal) (nonzero : op = .mul → constant ≠ 0) :
    (attach op operand constant).vars = operand.vars := by
  fun_induction attach op operand constant with
  | case1 value constant => exact vars_fold op value constant
  | case2 _ _ _ _ _ cancels =>
      rcases cancel?_keeps_or_zero cancels with same | ⟨product, zero⟩
      · rw [same]
      · exact (nonzero product zero).elim
  | case3 left last constant merged merges _ ih =>
      rw [ih normal.1, vars, vars, List.append_nil]
      rintro rfl rfl
      rw [Operator.apply_mul_iff] at merges
      have factors : last.toInt = 0 ∨ constant.toInt = 0 :=
        Int.mul_eq_zero.mp merges.symm
      rw [← Int64.toInt_zero, Int64.toInt_inj, Int64.toInt_inj] at factors
      exact factors.elim normal.factor_ne_zero (nonzero rfl)
  | case4 => simp [vars]
  | case5 => simp [vars]
  | case6 operand constant => exact vars_cancel?_getD operand nonzero

theorem attach_mul_zero (operand : Expr) : attach .mul operand 0 = lit 0 := by
  cases operand with
  | lit value => exact fold_of_apply (Operator.apply_mul_zero value)
  | binary inner left right => cases right <;> rfl
  | var | seq | range => rfl

/-- A zero factor absorbs the other one. -/
theorem rebuild_mul_zero {left right : Expr}
    (zero : left = lit 0 ∨ right = lit 0) : rebuild .mul left right = lit 0 := by
  rcases zero with rfl | rfl
  · cases right with
    | lit value =>
        have product := Operator.apply_mul_zero value
        exact fold_of_apply (Operator.apply_comm rfl product)
    | var | binary | seq | range => exact attach_mul_zero _
  · cases left with
    | lit value => exact fold_of_apply (Operator.apply_mul_zero value)
    | var | binary | seq | range => exact attach_mul_zero _

/-- Putting operands together keeps their variables, unless they are factors and
one of them is zero. -/
theorem vars_rebuild {op : Operator} {left right : Expr}
    (leftNormal : left.IsNormal) (rightNormal : right.IsNormal)
    (nonzero : op = .mul → ¬(left = lit 0 ∨ right = lit 0)) :
    (rebuild op left right).vars = left.vars ++ right.vars := by
  fun_cases rebuild op left right with
  | case1 op left right => exact vars_fold op left right
  | case2 left constant _ negated =>
      have sum : Operator.add = .mul → negated ≠ 0 := by
        intro same
        cases same
      rw [vars_attach leftNormal sum, vars, List.append_nil]
  | case4 op constant right =>
      have factor : op = .mul → constant ≠ 0 := by
        rintro product rfl
        exact nonzero product (.inl rfl)
      exact vars_attach rightNormal factor
  | case6 op left constant =>
      have factor : op = .mul → constant ≠ 0 := by
        rintro product rfl
        exact nonzero product (.inr rfl)
      rw [vars_attach leftNormal factor, vars, List.append_nil]
  | case7 op left constant _ _ fixed =>
      have noProduct : op = .mul → constant ≠ 0 := by
        rintro rfl
        exact (fixed rfl).elim
      rw [vars_cancel?_getD left noProduct, vars, List.append_nil]
  | case3 | case5 | case8 => rfl

/-- Some product in the expression has a factor that is normalised to zero. -/
def MultipliesByZero (expression : Expr) : Prop :=
  ∃ left right, binary .mul left right ∈ expression.parts ∧
    (left.normalize = lit 0 ∨ right.normalize = lit 0)

theorem MultipliesByZero.of_parts {expression part : Expr}
    (multiplies : part.MultipliesByZero)
    (within : part.parts ⊆ expression.parts) : expression.MultipliesByZero := by
  obtain ⟨left, right, member, zero⟩ := multiplies
  exact ⟨left, right, within member, zero⟩

/-- Normalisation adds no variable and moves none. -/
theorem vars_normalize_sublist (expression : Expr) :
    expression.normalize.vars.Sublist expression.vars := by
  induction expression with
  | lit | var => exact List.Sublist.refl _
  | binary op left right leftIH rightIH =>
      by_cases zero : op = .mul ∧
          (left.normalize = lit 0 ∨ right.normalize = lit 0)
      · obtain ⟨rfl, factor⟩ := zero
        rw [normalize, rebuild_mul_zero factor]
        exact List.nil_sublist _
      · rw [normalize, vars_rebuild (isNormal_normalize left)
          (isNormal_normalize right) (not_and.mp zero)]
        exact leftIH.append rightIH
  | seq first second firstIH secondIH | range first second firstIH secondIH =>
      exact firstIH.append secondIH

/-- Normalisation keeps all variables where no product has a zero factor. -/
theorem vars_normalize {expression : Expr}
    (nonzero : ¬expression.MultipliesByZero) :
    expression.normalize.vars = expression.vars := by
  induction expression with
  | lit | var => rfl
  | binary op left right leftIH rightIH =>
      have leftKept := leftIH (mt (·.of_parts (by simp [parts])) nonzero)
      have rightKept := rightIH (mt (·.of_parts (by simp [parts])) nonzero)
      have factors : op = .mul →
          ¬(left.normalize = lit 0 ∨ right.normalize = lit 0) := by
        rintro rfl zero
        exact nonzero ⟨left, right, mem_parts_self _, zero⟩
      rw [normalize, vars_rebuild (isNormal_normalize left)
        (isNormal_normalize right) factors, leftKept, rightKept, vars]
  | seq first second firstIH secondIH | range first second firstIH secondIH =>
      have firstKept := firstIH (mt (·.of_parts (by simp [parts])) nonzero)
      have secondKept := secondIH (mt (·.of_parts (by simp [parts])) nonzero)
      rw [normalize, vars, firstKept, secondKept, vars]

/-- Normalisation does not make an expression larger and brings in no variable.
It drops a variable only where a product has a factor that is normalised to
zero, and so never from an expression without products. -/
theorem normalization_never_grows (expression : Expr) :
    expression.normalize.parts.length ≤ expression.parts.length ∧
    expression.normalize.freeVars ⊆ expression.freeVars ∧
    ((∀ left right, binary .mul left right ∉ expression.parts) →
      expression.normalize.freeVars = expression.freeVars) ∧
    (expression.normalize.freeVars ≠ expression.freeVars →
      expression.MultipliesByZero) := by
  have kept : ¬expression.MultipliesByZero →
      expression.normalize.freeVars = expression.freeVars := by
    intro nonzero
    rw [freeVars, vars_normalize nonzero, freeVars]
  refine ⟨length_parts_normalize expression, ?_, ?_, not_imp_comm.mp kept⟩
  · intro name occurs
    rw [mem_freeVars] at occurs ⊢
    exact (vars_normalize_sublist expression).subset occurs
  · intro noProduct
    apply kept
    rintro ⟨left, right, member, _⟩
    exact noProduct left right member

/-- `(3+i)+(j-5)` keeps its variables, and `i*(2-2)+j` loses one to a zero
factor. -/
theorem normalization_never_grows_without_products :
    let sum : Expr :=
      binary .add (binary .add (lit 3) (var "i")) (binary .sub (var "j") (lit 5))
    let product : Expr :=
      binary .add (binary .mul (var "i") (binary .sub (lit 2) (lit 2))) (var "j")
    ((∀ left right, binary .mul left right ∉ sum.parts) ∧
      sum.normalize.freeVars = sum.freeVars) ∧
    (product.normalize.freeVars ≠ product.freeVars ∧
      product.MultipliesByZero) := by
  intro sum product
  have noProduct : ∀ left right, binary .mul left right ∉ sum.parts := by
    simp [sum, parts]
  have differs : product.normalize.freeVars ≠ product.freeVars := by decide
  exact ⟨⟨noProduct, (normalization_never_grows sum).2.2.1 noProduct⟩,
    differs, (normalization_never_grows product).2.2.2 differs⟩

end Expr

end Multiparty
