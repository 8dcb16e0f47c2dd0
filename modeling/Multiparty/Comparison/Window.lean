import Multiparty.Comparison.Config
import Multiparty.Comparison.Outcome

/-!
# Reordered actions

The actions that open the body of a loop may stand in another order on the
other side, since asynchronous messages on different channels overtake each
other unobserved.  Each left action takes the first right action that agrees
with it, unless an earlier right action that is still free shares a channel
with it and blocks the way.
-/

namespace Multiparty

/-- The actions before the first node that is none. -/
def Protocol.leadingActions : List Protocol → List Action
  | .perform action :: tail => action :: leadingActions tail
  | _ => []

/-- The actions of a list of nodes with their positions. -/
def Protocol.positionedActions (nodes : List Protocol) : List (Nat × Action) :=
  nodes.zipIdx.filterMap fun (node, position) =>
    node.action?.map fun action => (position, action)

/-- How the search for a counterpart ends: an action is taken, leaving the
others free, or an action blocks the way, or there is none. -/
inductive Search where
  | taken (free : List (Nat × Action))
  | blocked (position : Nat)
  | absent
  deriving DecidableEq

namespace Config

variable (config : Config)

/-- A left action may not move past a right action. -/
def blocks (left right : Action) : Bool :=
  left.sharesChannel config.wildcard right &&
    !(config.sendOvertakesRecv && left.direction == .recv &&
      right.direction == .send)

/-- Search the free right actions for the counterpart of a left action. -/
def search (left : Action) : List (Nat × Action) → Search
  | [] => .absent
  | (position, right) :: free =>
      if config.sameAction left right then
        .taken free
      else if config.blocks left right then
        .blocked position
      else
        match search left free with
        | .taken rest => .taken ((position, right) :: rest)
        | other => other

/-- The marks of the left actions from a position on that find no counterpart,
and of the right actions that block them. -/
def matchActions (position : Nat) (free : List (Nat × Action)) :
    List Action → List Mark
  | [] => []
  | left :: rest =>
      match config.search left free with
      | .taken others => matchActions (position + 1) others rest
      | .blocked blocker =>
          ⟨.left, [position]⟩ :: ⟨.right, [blocker]⟩ ::
            matchActions (position + 1) free rest
      | .absent => ⟨.left, [position]⟩ :: matchActions (position + 1) free rest

/-- The number of children that may be reordered: the actions that open the
body of a loop. -/
def windowSize : Protocol → Nat
  | .loop _ body =>
      if config.reorders then (Protocol.leadingActions body).length else 0
  | _ => 0

/-- The marks among the children that may be reordered, and among as many
children on the right. -/
def windowMarks (left right : Protocol) : List Mark :=
  let size := config.windowSize left
  config.matchActions 0 (Protocol.positionedActions (right.children.take size))
    (Protocol.leadingActions (left.children.take size))

end Config

end Multiparty
