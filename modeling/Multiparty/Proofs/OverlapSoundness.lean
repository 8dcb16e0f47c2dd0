import Multiparty.Proofs.Denotation
import Multiparty.Protocol.Basic

/-!
# Soundness of the overlap test

An extent stands for a set of integers, and an expression that denotes an
integer denotes one of its extent.  Extents with a common integer overlap, and
so do expressions with a common index, roles with a common endpoint and actions
that reach a common endpoint: the answer "disjoint" can be trusted.
-/

namespace Multiparty

variable {assignment : Assignment}

/-- The integers of an extent. -/
def Extent.Contains (assignment : Assignment) (value : Int) : Extent → Prop
  | interval low high => low.toInt ≤ value ∧ value ≤ high.toInt
  | shifted name distance =>
      ∃ base, assignment name = some base ∧
        value = base.toInt + distance.toInt
  | unknown => True

theorem Extent.overlaps_of_contains {left right : Extent} {value : Int}
    (inLeft : left.Contains assignment value)
    (inRight : right.Contains assignment value) :
    left.overlaps right = true := by
  cases left with
  | unknown => rfl
  | interval low₁ high₁ =>
      cases right with
      | unknown | shifted => rfl
      | interval low₂ high₂ =>
          obtain ⟨above₁, below₁⟩ := inLeft
          obtain ⟨above₂, below₂⟩ := inRight
          simp only [overlaps, Bool.and_eq_true, decide_eq_true_eq,
            Int64.le_iff_toInt_le]
          omega
  | shifted name₁ distance₁ =>
      cases right with
      | unknown | interval => rfl
      | shifted name₂ distance₂ =>
          obtain ⟨base₁, bound₁, value₁⟩ := inLeft
          obtain ⟨base₂, bound₂, value₂⟩ := inRight
          simp only [overlaps, Bool.or_eq_true, bne_iff_ne, beq_iff_eq]
          by_cases same : name₁ = name₂
          · subst name₂
            rw [bound₁] at bound₂
            cases bound₂
            right
            rw [← Int64.toInt_inj]
            omega
          · exact .inl same

namespace Expr

/-- An expression lies at a constant distance from a variable: constants are
added on either side of it or subtracted, and no intermediate distance is out
of range. -/
inductive AtDistance (name : String) : Expr → Int64 → Prop where
  | var : AtDistance name (.var name) 0
  | addRight {left right : Expr} {start constant distance : Int64} :
      AtDistance name left start → right.value? = some constant →
      distance.toInt = start.toInt + constant.toInt →
      AtDistance name (.binary .add left right) distance
  | addLeft {left right : Expr} {start constant distance : Int64} :
      left.value? = some constant → AtDistance name right start →
      distance.toInt = start.toInt + constant.toInt →
      AtDistance name (.binary .add left right) distance
  | sub {left right : Expr} {start constant distance : Int64} :
      AtDistance name left start → right.value? = some constant →
      distance.toInt = start.toInt - constant.toInt →
      AtDistance name (.binary .sub left right) distance

theorem AtDistance.value?_eq_none {name : String} {expression : Expr}
    {distance : Int64} (shifted : AtDistance name expression distance) :
    expression.value? = none := by
  induction shifted with
  | var => rfl
  | addRight _ _ _ ih => exact value?_binary_eq_none (.inl ih)
  | addLeft _ _ _ ih => exact value?_binary_eq_none (.inr ih)
  | sub _ _ _ ih => exact value?_binary_eq_none (.inl ih)

theorem offset?_eq_some_iff {name : String} {expression : Expr}
    {distance : Int64} :
    expression.offset? = some (name, distance) ↔
      AtDistance name expression distance := by
  constructor
  · intro decomposed
    fun_induction offset? expression generalizing distance with
    | case1 =>
        cases decomposed
        exact .var
    | case2 left right constant rightConstant ih =>
        simp only [Option.bind_eq_some_iff, Option.map_eq_some_iff,
          fit?_eq_some_iff, Prod.mk.injEq, Prod.exists] at decomposed
        obtain ⟨_, start, leftShifted, _, fits, rfl, rfl⟩ := decomposed
        exact .addRight (ih leftShifted) rightConstant fits
    | case3 left right _ ih =>
        simp only [Option.bind_eq_some_iff, Option.map_eq_some_iff,
          fit?_eq_some_iff, Prod.mk.injEq, Prod.exists] at decomposed
        obtain ⟨constant, leftConstant, _, start, rightShifted, _, fits, rfl,
          rfl⟩ := decomposed
        exact .addLeft leftConstant (ih rightShifted) fits
    | case4 left right ih =>
        simp only [Option.bind_eq_some_iff, Option.map_eq_some_iff,
          fit?_eq_some_iff, Prod.mk.injEq, Prod.exists] at decomposed
        obtain ⟨constant, rightConstant, _, start, leftShifted, _, fits, rfl,
          rfl⟩ := decomposed
        exact .sub (ih leftShifted) rightConstant fits
    | case5 => cases decomposed
  · intro shifted
    induction shifted with
    | var => rfl
    | addRight _ rightConstant fits ih =>
        rw [← fit?_eq_some_iff] at fits
        simp [offset?, ih, rightConstant, fits]
    | addLeft leftConstant rightShifted fits ih =>
        rw [← fit?_eq_some_iff] at fits
        simp [offset?, ih, leftConstant, rightShifted.value?_eq_none, fits]
    | sub _ rightConstant fits ih =>
        rw [← fit?_eq_some_iff] at fits
        simp [offset?, ih, rightConstant, fits]

/-- The value at a constant distance from a variable is exact, in whatever
order the constants are added. -/
theorem AtDistance.value_eq {name : String} {expression : Expr}
    {distance value : Int64} (shifted : AtDistance name expression distance)
    (evaluated : expression.evaluate assignment = .ok value) :
    ∃ base, assignment name = some base ∧
      value.toInt = base.toInt + distance.toInt := by
  induction shifted generalizing value with
  | var =>
      rw [evaluate_var_eq_ok_iff] at evaluated
      exact ⟨value, evaluated, by simp⟩
  | addRight _ rightConstant fits ih =>
      obtain ⟨leftValue, leftEvaluated, applied⟩ :=
        evaluate_binary_of_value?_right rightConstant evaluated
      obtain ⟨base, bound, exactly⟩ := ih leftEvaluated
      rw [Operator.apply_add_iff] at applied
      exact ⟨base, bound, by omega⟩
  | addLeft leftConstant _ fits ih =>
      obtain ⟨rightValue, rightEvaluated, applied⟩ :=
        evaluate_binary_of_value?_left leftConstant evaluated
      obtain ⟨base, bound, exactly⟩ := ih rightEvaluated
      rw [Operator.apply_add_iff] at applied
      exact ⟨base, bound, by omega⟩
  | sub _ rightConstant fits ih =>
      obtain ⟨leftValue, leftEvaluated, applied⟩ :=
        evaluate_binary_of_value?_right rightConstant evaluated
      obtain ⟨base, bound, exactly⟩ := ih leftEvaluated
      rw [Operator.apply_sub_iff] at applied
      exact ⟨base, bound, by omega⟩

/-- The extents that are known: those of constants, of ranges between
constants, and of expressions at a constant distance from a variable. -/
inductive HasExtent : Expr → Extent → Prop where
  | constant {expression : Expr} {value : Int64} :
      expression.value? = some value →
      HasExtent expression (.interval value value)
  | range {low high : Expr} {lowValue highValue : Int64} :
      low.value? = some lowValue → high.value? = some highValue →
      HasExtent (.range low high) (.interval lowValue highValue)
  | shifted {name : String} {expression : Expr} {distance : Int64} :
      AtDistance name expression distance →
      HasExtent expression (.shifted name distance)

theorem HasExtent.extent_eq {expression : Expr} {known : Extent}
    (has : HasExtent expression known) : expression.extent = known := by
  cases has with
  | constant found =>
      cases expression with
      | range => simp [value?_eq_some_iff] at found
      | _ => simp [extent, found]
  | range lowFound highFound => simp [extent, lowFound, highFound]
  | shifted shifted =>
      have needed : expression.value? = none := shifted.value?_eq_none
      rw [← offset?_eq_some_iff] at shifted
      cases expression with
      | range => simp [offset?] at shifted
      | _ => simp [extent, needed, shifted]

theorem hasExtent_or_unknown (expression : Expr) :
    HasExtent expression expression.extent ∨ expression.extent = .unknown := by
  fun_cases extent expression with
  | case1 low high lowValue highValue highFound lowFound =>
      exact .inl (.range lowFound highFound)
  | case2 => exact .inr rfl
  | case3 _ _ _ found => exact .inl (.constant found)
  | case4 _ _ _ name distance decomposed =>
      exact .inl (.shifted (offset?_eq_some_iff.mp decomposed))
  | case5 => exact .inr rfl

theorem HasExtent.contains {expression : Expr} {known : Extent} {value : Int}
    (has : HasExtent expression known)
    (denoted : expression.Denotes assignment (.scalar value)) :
    known.Contains assignment value := by
  cases has with
  | constant found =>
      cases denoted with
      | scalar evaluated =>
          rw [evaluate_of_value? found] at evaluated
          cases evaluated
          exact ⟨Int.le_refl _, Int.le_refl _⟩
      | range => simp [value?_eq_some_iff] at found
  | range lowFound highFound =>
      cases denoted with
      | scalar evaluated => exact absurd evaluated evaluate_range_ne_ok
      | range lowEvaluated highEvaluated above below =>
          rw [evaluate_of_value? lowFound] at lowEvaluated
          rw [evaluate_of_value? highFound] at highEvaluated
          cases lowEvaluated
          cases highEvaluated
          exact ⟨above, below⟩
  | shifted shifted =>
      cases denoted with
      | scalar evaluated => exact shifted.value_eq evaluated
      | range => cases shifted

/-- An integer that an expression denotes lies in its extent. -/
theorem Denotes.extent_contains {expression : Expr} {value : Int}
    (denoted : expression.Denotes assignment (.scalar value)) :
    expression.extent.Contains assignment value := by
  rcases hasExtent_or_unknown expression with known | unknown
  · exact known.contains denoted
  · rw [unknown]
    trivial

theorem overlaps_of_denotes {left right : Expr} {index : Index}
    (inLeft : left.Denotes assignment index)
    (inRight : right.Denotes assignment index) :
    left.overlaps right = true := by
  fun_induction overlaps left right generalizing index with
  | case1 first₁ second₁ first₂ second₂ firstIH secondIH =>
      cases inLeft with
      | scalar evaluated => exact absurd evaluated evaluate_seq_ne_ok
      | seq firstLeft secondLeft =>
          cases inRight with
          | seq firstRight secondRight =>
              rw [Bool.and_eq_true]
              exact ⟨firstIH firstLeft firstRight,
                secondIH secondLeft secondRight⟩
  | case2 left right notBothSeq =>
      cases index with
      | scalar value =>
          exact Extent.overlaps_of_contains inLeft.extent_contains
            inRight.extent_contains
      | pair first second =>
          cases inLeft
          cases inRight
          exact (notBothSeq _ _ _ _ rfl rfl).elim

end Expr

theorem isEqv_iff_forall₂ {α : Type} {same : α → α → Bool}
    {lefts rights : List α} :
    lefts.isEqv rights same = true ↔
      List.Forall₂ (fun left right => same left right = true) lefts rights := by
  induction lefts generalizing rights with
  | nil => cases rights <;> simp
  | cons left lefts ih =>
      cases rights with
      | nil => simp
      | cons right rights =>
          rw [List.isEqv_cons_cons, Bool.and_eq_true, List.forall₂_cons, ih]

namespace Role

theorem dimensions_overlap {left right : List Expr} {indices : List Index}
    (inLeft : List.Forall₂ (Expr.Denotes assignment) left indices)
    (inRight : List.Forall₂ (Expr.Denotes assignment) right indices) :
    List.Forall₂ (fun left right => left.overlaps right = true) left right := by
  induction inLeft generalizing right with
  | nil =>
      cases inRight
      exact .nil
  | cons headLeft _ ih =>
      cases inRight with
      | cons headRight tailRight =>
          exact .cons (Expr.overlaps_of_denotes headLeft headRight)
            (ih tailRight)

theorem overlaps_of_denotes {left right : Role} {endpoint : Endpoint}
    (inLeft : left.Denotes assignment endpoint)
    (inRight : right.Denotes assignment endpoint) :
    left.overlaps right = true := by
  obtain ⟨leftNamed, leftIndexed⟩ := inLeft
  obtain ⟨rightNamed, rightIndexed⟩ := inRight
  simp only [overlaps, Bool.and_eq_true, beq_iff_eq, Bool.or_eq_true]
  exact ⟨leftNamed.trans rightNamed.symm,
    .inr (isEqv_iff_forall₂.mpr (dimensions_overlap leftIndexed rightIndexed))⟩

end Role

/-- Peers that denote a common endpoint overlap, whether or not there is a
wildcard. -/
theorem peersOverlap_of_denotes {wildcard : Option String}
    {left right : Option Role} {endpoint : Endpoint}
    (inLeft : ∀ role, left = some role → role.Denotes assignment endpoint)
    (inRight : ∀ role, right = some role → role.Denotes assignment endpoint) :
    peersOverlap wildcard left right = true := by
  cases left with
  | none => rfl
  | some left =>
      cases right with
      | none => rfl
      | some right =>
          have overlap : left.overlaps right = true :=
            Role.overlaps_of_denotes (inLeft left rfl) (inRight right rfl)
          simp [peersOverlap, overlap]

theorem Action.sharesChannel_of_peersOverlap {wildcard : Option String}
    {left right : Action} {leftPeer rightPeer : Option Role}
    (inLeft : leftPeer ∈ left.peers) (inRight : rightPeer ∈ right.peers)
    (overlap : peersOverlap wildcard leftPeer rightPeer = true) :
    left.sharesChannel wildcard right = true := by
  rw [Action.sharesChannel, List.any_eq_true]
  refine ⟨leftPeer, inLeft, ?_⟩
  rw [List.any_eq_true]
  exact ⟨rightPeer, inRight, overlap⟩

theorem Action.sharesChannel_of_reaches {wildcard : Option String}
    {left right : Action} {endpoint : Endpoint}
    (fromLeft : left.Reaches assignment endpoint)
    (fromRight : right.Reaches assignment endpoint) :
    left.sharesChannel wildcard right = true := by
  rw [Action.reaches_iff] at fromLeft fromRight
  obtain ⟨leftPeer, leftMember, inLeft⟩ := fromLeft
  obtain ⟨rightPeer, rightMember, inRight⟩ := fromRight
  exact Action.sharesChannel_of_peersOverlap leftMember rightMember
    (peersOverlap_of_denotes inLeft inRight)

/-- What the overlap test calls disjoint is disjoint under every assignment:
expressions denote no common index, roles no common endpoint, and actions reach
no common endpoint. -/
theorem disjoint_of_overlap_test (assignment : Assignment) :
    (∀ (left right : Expr) (index : Index),
      Expr.overlapsOptional (some left) (some right) = false →
        ¬(left.Denotes assignment index ∧ right.Denotes assignment index)) ∧
    (∀ (left right : Role) (endpoint : Endpoint),
      left.overlaps right = false →
        ¬(left.Denotes assignment endpoint ∧
          right.Denotes assignment endpoint)) ∧
    (∀ (left right : Action) (endpoint : Endpoint),
      Protocol.sharesChannel none (.perform left) (.perform right) = false →
        ¬(left.Reaches assignment endpoint ∧
          right.Reaches assignment endpoint)) := by
  refine ⟨?_, ?_, ?_⟩
  · rintro left right index disjoint ⟨inLeft, inRight⟩
    change left.overlaps right = false at disjoint
    rw [Expr.overlaps_of_denotes inLeft inRight] at disjoint
    cases disjoint
  · rintro left right endpoint disjoint ⟨inLeft, inRight⟩
    rw [Role.overlaps_of_denotes inLeft inRight] at disjoint
    cases disjoint
  · rintro left right endpoint disjoint ⟨fromLeft, fromRight⟩
    change left.sharesChannel none right = false at disjoint
    rw [Action.sharesChannel_of_reaches fromLeft fromRight] at disjoint
    cases disjoint

/-- A send to `Worker[i+1]` and a receive from `Worker[i-1]` never meet. -/
theorem disjoint_neighbours :
    let assignment : Assignment := .ofList [("i", 5)]
    let next : Expr := .binary .add (.var "i") (.lit 1)
    let previous : Expr := .binary .sub (.var "i") (.lit 1)
    let send : Action :=
      ⟨.send, { receivers := [{ name := "Worker", dimensions := [next] }] }⟩
    let recv : Action :=
      ⟨.recv, { sender := some { name := "Worker", dimensions := [previous] } }⟩
    (Expr.overlapsOptional (some next) (some previous) = false ∧
      ¬(next.Denotes assignment (.scalar 6) ∧
        previous.Denotes assignment (.scalar 6))) ∧
    (Role.overlaps ⟨"Worker", [next]⟩ ⟨"Worker", [previous]⟩ = false ∧
      ¬(Role.Denotes assignment ⟨"Worker", [next]⟩ ⟨"Worker", [.scalar 6]⟩ ∧
        Role.Denotes assignment ⟨"Worker", [previous]⟩
          ⟨"Worker", [.scalar 6]⟩)) ∧
    (Protocol.sharesChannel none (.perform send) (.perform recv) = false ∧
      ¬(send.Reaches assignment ⟨"Worker", [.scalar 6]⟩ ∧
        recv.Reaches assignment ⟨"Worker", [.scalar 6]⟩)) := by
  refine ⟨⟨rfl, ?_⟩, ⟨rfl, ?_⟩, rfl, ?_⟩
  · exact (disjoint_of_overlap_test _).1 _ _ _ rfl
  · exact (disjoint_of_overlap_test _).2.1 _ _ _ rfl
  · exact (disjoint_of_overlap_test _).2.2 _ _ _ rfl

end Multiparty
