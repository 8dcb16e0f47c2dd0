import Multiparty.Comparison.Basic
import Multiparty.Proofs.Visibility
import Multiparty.Validation

/-!
# Failures for jumps that are not bound

Projection, the validation of labels and comparison each look for a jump that
no enclosing loop binds, projection while it builds its result.  All of them
fail exactly if there is one and report the label of the first.  The role of a
projection has no part in this, and no projection fails one of these checks
again.
-/

namespace Multiparty

namespace Protocol

variable {config : Config} {protocol left right : Protocol} {role : Role}
  {label : String}

theorem unlessDangling_eq_error_iff {α : Type} {dangling : Option String}
    {view : α} :
    unlessDangling dangling view = .error (.unresolvedLabel label) ↔
      dangling = some label := by
  cases dangling with
  | none => simp [unlessDangling]
  | some first => simp [unlessDangling]

theorem project_eq_error_iff :
    protocol.project role = .error (.unresolvedLabel label) ↔
      protocol.unresolvedLabel? = some label := by
  rw [project_eq, unlessDangling_eq_error_iff]

theorem validateLabels_eq_ok_iff :
    protocol.validateLabels = .ok () ↔ protocol.unresolvedLabel? = none := by
  unfold validateLabels
  cases protocol.unresolvedLabel? with
  | none => simp
  | some first => simp

theorem compare_eq_error_left_iff :
    compare config left right = .error (.unresolvedLabel .left label) ↔
      left.unresolvedLabel? = some label := by
  unfold compare
  cases left.unresolvedLabel? with
  | none => cases right.unresolvedLabel? <;> simp
  | some first => simp

/-- The right tree is to blame only if the left one is not. -/
theorem compare_eq_error_right_iff :
    compare config left right = .error (.unresolvedLabel .right label) ↔
      left.unresolvedLabel? = none ∧ right.unresolvedLabel? = some label := by
  unfold compare
  cases left.unresolvedLabel? with
  | none => cases right.unresolvedLabel? <;> simp
  | some first => simp

/-- Projection fails exactly if the label check finds a label, and reports that
label for every role.  What it returns passes the label check, and a comparison
never fails on the side on which it stands. -/
theorem projection_fails_like_label_check (protocol : Protocol) (role : Role) :
    (∀ label, protocol.project role = .error (.unresolvedLabel label) ↔
      protocol.unresolvedLabel? = some label) ∧
    (∀ (other : Role) (error : ProjectionError),
      protocol.project role = .error error ↔
        protocol.project other = .error error) ∧
    ∀ view, protocol.project role = .ok view →
      view.validateLabels = .ok () ∧
        ∀ (config : Config) (other : Protocol) (label : String),
          compare config view other ≠ .error (.unresolvedLabel .left label) ∧
            compare config other view ≠
              .error (.unresolvedLabel .right label) := by
  refine ⟨fun label => project_eq_error_iff, ?_, ?_⟩
  · intro other error
    obtain ⟨label⟩ := error
    rw [project_eq_error_iff, project_eq_error_iff]
  · intro view projected
    have resolved : view.unresolvedLabel? = none :=
      unresolvedLabel?_of_project projected
    refine ⟨validateLabels_eq_ok_iff.mpr resolved, ?_⟩
    intro config other label
    constructor
    · intro failed
      have dangling := compare_eq_error_left_iff.mp failed
      rw [resolved] at dangling
      cases dangling
    · intro failed
      have dangling := (compare_eq_error_right_iff.mp failed).2
      rw [resolved] at dangling
      cases dangling

/-- The jump out of the handler is the first one that nothing binds, for a role
that sees no more than the jumps as for the sender.  Without it there is a
projection. -/
theorem projection_fails_like_label_check_in_handlers :
    let tick : Interaction :=
      { sender := some { name := "A" }, receivers := [{ name := "B" }] }
    let scope (target : String) : Protocol :=
      interruptible "s" [loop (.recursion "X") [exchange tick, jump "X"]]
        [⟨{ name := "B" }, [block [exchange tick], jump target]⟩]
    let around (target : String) : Protocol :=
      root [loop (.forEach "i" (.range (.lit 1) (.lit 9))) [scope target]]
    let seen : Protocol :=
      root [loop (.forEach "i" (.range (.lit 1) (.lit 9)))
        [interruptible "s" [loop (.recursion "X") [jump "X"]]
          [⟨{ name := "B" }, [jump "i"]⟩]]]
    (around "X").unresolvedLabel? = some "X" ∧
      (around "X").project { name := "C" } = .error (.unresolvedLabel "X") ∧
      (around "X").project { name := "A" } = .error (.unresolvedLabel "X") ∧
      (around "i").project { name := "C" } = .ok seen ∧
      seen.validateLabels = .ok () := by
  intro tick scope around seen
  obtain ⟨sameLabel, anyRole, _⟩ :=
    projection_fails_like_label_check (around "X") { name := "C" }
  obtain ⟨_, _, checked⟩ :=
    projection_fails_like_label_check (around "i") { name := "C" }
  have dangling : (around "X").unresolvedLabel? = some "X" := rfl
  have failed := (sameLabel "X").mpr dangling
  have projected : (around "i").project { name := "C" } = .ok seen := rfl
  exact ⟨dangling, failed, (anyRole { name := "A" } _).mp failed, projected,
    (checked seen projected).1⟩

end Protocol

end Multiparty
