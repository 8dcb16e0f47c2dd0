import Mathlib.Data.List.Forall2
import Multiparty.Interaction
import Multiparty.Proofs.NormalizeMeaning

/-!
# What expressions, roles and actions denote

Under an assignment of the variables an expression denotes a set of indices, a
role a set of endpoints, and an action the endpoints with which it may
communicate.  Whatever fails to evaluate denotes nothing.  Normalisation may
only add indices: an expression denotes at most what its normal form denotes.
-/

namespace Multiparty

/-- An index of one dimension; a sequence has pairs of indices. -/
inductive Index where
  | scalar (value : Int)
  | pair (first second : Index)
  deriving DecidableEq

/-- One participant: a name with one index per dimension. -/
structure Endpoint where
  name : String
  indices : List Index
  deriving DecidableEq

/-- The indices that an expression denotes: its value, the integers of a range,
or the pairs of what the components of a sequence denote. -/
inductive Expr.Denotes (assignment : Assignment) : Expr → Index → Prop where
  | scalar {expression : Expr} {value : Int64} :
      expression.evaluate assignment = .ok value →
      Denotes assignment expression (.scalar value.toInt)
  | range {low high : Expr} {lowValue highValue : Int64} {value : Int} :
      low.evaluate assignment = .ok lowValue →
      high.evaluate assignment = .ok highValue →
      lowValue.toInt ≤ value → value ≤ highValue.toInt →
      Denotes assignment (.range low high) (.scalar value)
  | seq {first second : Expr} {firstIndex secondIndex : Index} :
      Denotes assignment first firstIndex →
      Denotes assignment second secondIndex →
      Denotes assignment (.seq first second) (.pair firstIndex secondIndex)

/-- The endpoints that a role denotes. -/
def Role.Denotes (assignment : Assignment) (role : Role)
    (endpoint : Endpoint) : Prop :=
  role.name = endpoint.name ∧
    List.Forall₂ (Expr.Denotes assignment) role.dimensions endpoint.indices

/-- The endpoints with which an action may communicate: those of the receivers
of a send, those of the sender of a receive, and all if the sender is unknown. -/
def Action.Reaches (assignment : Assignment) (action : Action)
    (endpoint : Endpoint) : Prop :=
  match action.direction with
  | .send =>
      ∃ receiver ∈ action.interaction.receivers,
        receiver.Denotes assignment endpoint
  | .recv =>
      ∀ sender, action.interaction.sender = some sender →
        sender.Denotes assignment endpoint

variable {assignment : Assignment}

/-- Normalisation keeps the indices that an expression denotes. -/
theorem Expr.Denotes.normalize {expression : Expr} {index : Index}
    (denoted : expression.Denotes assignment index) :
    expression.normalize.Denotes assignment index := by
  induction denoted with
  | scalar evaluated => exact .scalar (evaluate_normalize evaluated)
  | range lowEvaluated highEvaluated above below =>
      exact .range (evaluate_normalize lowEvaluated)
        (evaluate_normalize highEvaluated) above below
  | seq _ _ firstIH secondIH => exact .seq firstIH secondIH

def Role.normalize (role : Role) : Role :=
  { role with dimensions := role.dimensions.map Expr.normalize }

theorem Role.Denotes.normalize {role : Role} {endpoint : Endpoint}
    (denoted : role.Denotes assignment endpoint) :
    role.normalize.Denotes assignment endpoint := by
  obtain ⟨named, indexed⟩ := denoted
  refine ⟨named, ?_⟩
  rw [Role.normalize, List.forall₂_map_left_iff]
  exact indexed.imp fun _ _ denoted => denoted.normalize

/-- An action reaches an endpoint exactly through one of its peers. -/
theorem Action.reaches_iff {action : Action} {endpoint : Endpoint} :
    action.Reaches assignment endpoint ↔
      ∃ peer ∈ action.peers,
        ∀ role, peer = some role → role.Denotes assignment endpoint := by
  unfold Reaches peers
  cases action.direction <;> simp

end Multiparty
