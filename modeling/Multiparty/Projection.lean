import Multiparty.Protocol.Basic

/-!
# Projection to one role

The projection of a tree to a role is the local protocol of that role.  An
interaction becomes the role's action in it, or disappears when the role takes
no part.  Compositions that lose all their parts disappear as well, except the
outermost root; choices, loops and interruptible scopes stay, and a branch of a
choice that disappears leaves an empty block.
-/

namespace Multiparty

/-- Why a tree has no projection. -/
inductive ProjectionError where
  | unresolvedLabel (label : String)
  deriving DecidableEq

/-- The text of a projection error. -/
def ProjectionError.message : ProjectionError → String
  | unresolvedLabel label => s!"Continue label {label} not in scope"

/-- The action of a role in an interaction.  A role of the sender's family
sends, also when it is among the receivers. -/
def Interaction.viewOf (role : Role) (interaction : Interaction) :
    Option Action :=
  if interaction.sender.any role.sameFamily then
    some ⟨.send, interaction⟩
  else if interaction.receivers.any role.sameFamily then
    some ⟨.recv, interaction⟩
  else
    none

namespace Protocol

/-- A composition that is left out when it has no parts. -/
def composeNonempty (how : Composition) (parts : List Protocol) :
    Option Protocol :=
  if parts.isEmpty then none else some (compose how parts)

mutual

/-- What remains of a tree below the loops that bind `scope`. -/
def viewOf (role : Role) (scope : List String) :
    Protocol → Except ProjectionError (Option Protocol)
  | exchange interaction => .ok ((interaction.viewOf role).map perform)
  | perform action => .ok (some (perform action))
  | invoke call => .ok (some (invoke call))
  | jump label =>
      if label ∈ scope then .ok (some (jump label))
      else .error (.unresolvedLabel label)
  | compose how parts => do
      let views ← viewOfList role scope parts
      return composeNonempty how (views.filterMap id)
  | choice chooser branches => do
      let views ← viewOfList role scope branches
      return some (choice chooser (views.map fun view => view.getD (block [])))
  | loop head body => do
      let views ← viewOfList role (head.binder :: scope) body
      return some (loop head (views.filterMap id))
  | interruptible name body interrupts => do
      let views ← viewOfList role scope body
      let handlers ← viewOfInterrupts role scope interrupts
      return some (interruptible name (views.filterMap id) handlers)

/-- What remains of each tree of a list. -/
def viewOfList (role : Role) (scope : List String) :
    List Protocol → Except ProjectionError (List (Option Protocol))
  | [] => .ok []
  | head :: tail => do
      let view ← head.viewOf role scope
      let views ← viewOfList role scope tail
      return view :: views

/-- What remains in the bodies of interrupts; the interrupts themselves stay. -/
def viewOfInterrupts (role : Role) (scope : List String) :
    List (Interrupt Protocol) →
      Except ProjectionError (List (Interrupt Protocol))
  | [] => .ok []
  | ⟨trigger, body⟩ :: tail => do
      let views ← viewOfList role scope body
      let handlers ← viewOfInterrupts role scope tail
      return ⟨trigger, (views.filterMap id)⟩ :: handlers

end

/-- The local protocol of a role, always a root. -/
def project (protocol : Protocol) (role : Role) :
    Except ProjectionError Protocol :=
  match protocol with
  | compose .root parts => do
      let views ← viewOfList role [] parts
      return root (views.filterMap id)
  | other => do
      let view ← other.viewOf role []
      return root view.toList

end Protocol

end Multiparty
