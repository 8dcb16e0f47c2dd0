import Multiparty.Comparison.Window
import Multiparty.Protocol.Scope

/-!
# Comparison of protocol trees

Two trees are compared node by node from the outside in.  Nodes that do not
agree are marked on both sides, and nothing below them is compared.  Children
are compared by position, except for the actions that open the body of a loop,
which may be reordered; `diff_eq` says this in terms of children alone.
-/

namespace Multiparty

/-- Why two trees cannot be compared. -/
inductive CompareError where
  | unresolvedLabel (side : Side) (label : String)
  deriving DecidableEq

/-- The text of a comparison error. -/
def CompareError.message : CompareError → String
  | unresolvedLabel side label =>
      s!"Continue label {label} not in scope on the {side.render} side"

namespace Protocol

mutual

/-- The marks of two trees. -/
def diff (config : Config) (left right : Protocol) : List Mark :=
  if config.sameHeader left right then
    config.windowMarks left right ++
    match left with
    | compose _ parts => diffList config 0 0 parts right.children
    | choice _ branches => diffList config 0 0 branches right.children
    | loop head body =>
        diffList config (config.windowSize (loop head body)) 0 body right.children
    | interruptible _ body interrupts =>
        diffList config 0 0 body right.children ++
          diffInterrupts config body.length interrupts
            (right.children.drop body.length)
    | exchange _ | perform _ | jump _ | invoke _ => []
  else
    [⟨.left, []⟩, ⟨.right, []⟩]

/-- The marks of children from a `position` on, compared one by one; those
before position `start` are left out. -/
def diffList (config : Config) (start position : Nat) :
    List Protocol → List Protocol → List Mark
  | left :: lefts, right :: rights =>
      (if position < start then []
        else (diff config left right).map (Mark.below position)) ++
        diffList config start (position + 1) lefts rights
  | _, _ => []

/-- The marks of the bodies of interrupts against children from a position on. -/
def diffInterrupts (config : Config) (position : Nat) :
    List (Interrupt Protocol) → List Protocol → List Mark
  | ⟨_, body⟩ :: tail, rights =>
      diffList config 0 position body rights ++
        diffInterrupts config (position + body.length) tail
          (rights.drop body.length)
  | [], _ => []

end

theorem diffList_append (config : Config) (start position : Nat)
    (front back rights : List Protocol) :
    diffList config start position (front ++ back) rights =
      diffList config start position front rights ++
        diffList config start (position + front.length) back
          (rights.drop front.length) := by
  induction front generalizing position rights with
  | nil => simp [diffList]
  | cons head tail ih =>
      cases rights with
      | nil => cases back <;> simp [diffList]
      | cons right rights =>
          simp [diffList, ih, Nat.add_assoc, Nat.add_comm 1]

theorem diffInterrupts_eq (config : Config) (position : Nat)
    (interrupts : List (Interrupt Protocol)) (rights : List Protocol) :
    diffInterrupts config position interrupts rights =
      diffList config 0 position (interrupts.flatMap Interrupt.body) rights := by
  induction interrupts generalizing position rights with
  | nil => simp [diffInterrupts, diffList]
  | cons head tail ih =>
      cases head
      simp [diffInterrupts, diffList_append, ih]

/-- Nodes that agree are compared in the window and child by child after it. -/
theorem diff_eq (config : Config) (left right : Protocol) :
    diff config left right =
      if config.sameHeader left right then
        config.windowMarks left right ++
          diffList config (config.windowSize left) 0 left.children right.children
      else
        [⟨.left, []⟩, ⟨.right, []⟩] := by
  cases left <;>
    simp [diff, children, Config.windowSize, diffList, diffList_append,
      diffInterrupts_eq]

/-- Compare two trees in which every jump is bound; the left one is examined
first. -/
def compare (config : Config) (left right : Protocol) :
    Except CompareError Outcome :=
  match left.unresolvedLabel?, right.unresolvedLabel? with
  | some label, _ => .error (.unresolvedLabel .left label)
  | none, some label => .error (.unresolvedLabel .right label)
  | none, none => .ok (.ofMarks (diff config left right))

end Protocol

end Multiparty
