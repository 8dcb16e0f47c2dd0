import Multiparty.Protocol.Basic

/-!
# Scopes of jump labels

A jump is bound by an enclosing loop whose label or variable it names.  The
search below finds the first jump, in the order of a walk, that is not bound.
-/

namespace Multiparty

namespace Protocol

mutual

/-- The label of the first jump that neither a name in `scope` nor an enclosing
loop binds. -/
def danglingLabel? (scope : List String) : Protocol → Option String
  | jump label => if label ∈ scope then none else some label
  | loop head body => danglingLabelList? (head.binder :: scope) body
  | compose _ parts => danglingLabelList? scope parts
  | choice _ branches => danglingLabelList? scope branches
  | interruptible _ body interrupts =>
      (danglingLabelList? scope body).or (danglingLabelInterrupts? scope interrupts)
  | exchange _ | perform _ | invoke _ => none

/-- The first dangling label of a list of trees. -/
def danglingLabelList? (scope : List String) : List Protocol → Option String
  | [] => none
  | head :: tail =>
      (head.danglingLabel? scope).or (danglingLabelList? scope tail)

/-- The first dangling label in the bodies of interrupts. -/
def danglingLabelInterrupts? (scope : List String) :
    List (Interrupt Protocol) → Option String
  | [] => none
  | ⟨_, body⟩ :: tail =>
      (danglingLabelList? scope body).or (danglingLabelInterrupts? scope tail)

end

/-- The label of the first jump that no enclosing loop binds. -/
def unresolvedLabel? (protocol : Protocol) : Option String :=
  protocol.danglingLabel? []

theorem danglingLabelList?_append (scope : List String)
    (front back : List Protocol) :
    danglingLabelList? scope (front ++ back) =
      (danglingLabelList? scope front).or (danglingLabelList? scope back) := by
  induction front with
  | nil => simp [danglingLabelList?]
  | cons head tail ih => simp [danglingLabelList?, ih, Option.or_assoc]

theorem danglingLabelInterrupts?_eq (scope : List String)
    (interrupts : List (Interrupt Protocol)) :
    danglingLabelInterrupts? scope interrupts =
      danglingLabelList? scope (interrupts.flatMap Interrupt.body) := by
  induction interrupts with
  | nil => simp [danglingLabelInterrupts?, danglingLabelList?]
  | cons head tail ih =>
      cases head
      simp [danglingLabelInterrupts?, danglingLabelList?_append, ih]

end Protocol

end Multiparty
