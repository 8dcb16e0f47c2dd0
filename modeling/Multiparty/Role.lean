import Multiparty.Expr.Overlap
import Multiparty.Expr.Render
import Multiparty.Lookup

/-!
# Roles

A role is a participant name with one index expression per dimension.  The
roles of one name and one number of dimensions form a family, such as all the
workers `Worker[i]`.
-/

namespace Multiparty

/-- A participant, or a family of participants indexed by expressions. -/
structure Role where
  name : String
  dimensions : List Expr := []
  deriving DecidableEq

namespace Role

instance : Inhabited Role := ⟨{ name := "default" }⟩

/-- Rename a role. -/
def rename (role : Role) (name : String) : Role :=
  { role with name }

/-- Add an index expression as the last dimension. -/
def index (role : Role) (expression : Expr) : Role :=
  { role with dimensions := role.dimensions ++ [expression] }

/-- The role has at least one dimension. -/
def isIndexed (role : Role) : Bool :=
  !role.dimensions.isEmpty

/-- The index expression of one dimension. -/
def dimension (role : Role) (index : Nat) : Except LookupError Expr :=
  match role.dimensions[index]? with
  | some expression => .ok expression
  | none =>
      .error (.dimensionOutOfRange role.name index role.dimensions.length)

/-- Two roles belong to one family, whatever their indices are. -/
def sameFamily (left right : Role) : Bool :=
  left.name == right.name &&
    left.dimensions.length == right.dimensions.length

/-- Two roles may denote a common participant.  Roles of one name that differ
in their number of dimensions cannot be told apart. -/
def overlaps (left right : Role) : Bool :=
  left.name == right.name &&
    (left.dimensions.length != right.dimensions.length ||
      left.dimensions.isEqv right.dimensions Expr.overlaps)

/-- The name followed by every index in brackets. -/
def render (role : Role) : String :=
  role.name ++ Expr.renderIndices role.dimensions

theorem sameFamily_iff {left right : Role} :
    left.sameFamily right = true ↔
      left.name = right.name ∧
        left.dimensions.length = right.dimensions.length := by
  simp [sameFamily]

theorem sameFamily_self (role : Role) : role.sameFamily role = true :=
  sameFamily_iff.mpr ⟨rfl, rfl⟩

end Role

end Multiparty
