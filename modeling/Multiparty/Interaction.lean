import Multiparty.Message
import Multiparty.Role

/-!
# Interactions and actions

An interaction carries a message from a sender to its receivers, possibly
guarded by a role.  An action is an interaction seen by one of its ends: the
sender addresses the receivers, and a receiver listens to the sender.  Two
actions share a channel when a peer of the one may be a peer of the other.
-/

namespace Multiparty

/-- One communication; an absent sender is not known. -/
structure Interaction where
  sender : Option Role := none
  receivers : List Role := []
  message : Message := {}
  guard : Option Role := none
  deriving DecidableEq, Inhabited

namespace Interaction

/-- Add a receiver at the end. -/
def addReceiver (interaction : Interaction) (receiver : Role) : Interaction :=
  { interaction with receivers := interaction.receivers ++ [receiver] }

/-- Sender, receivers and message; an unknown sender is written `_`. -/
def render (interaction : Interaction) : String :=
  (interaction.sender.map Role.render).getD "_" ++ " -> " ++
    ", ".intercalate (interaction.receivers.map Role.render) ++ ": " ++
    interaction.message.render

end Interaction

/-- The end from which an action sees its interaction. -/
inductive Direction where
  | send
  | recv
  deriving DecidableEq

/-- An interaction seen from one of its ends. -/
structure Action where
  direction : Direction
  interaction : Interaction
  deriving DecidableEq

/-- A role that carries the name reserved for "any role", if there is one. -/
def Role.isWildcard (wildcard : Option String) (role : Role) : Bool :=
  wildcard == some role.name

/-- Two peers may be the same participant.  An unknown peer and a wildcard may
be anyone. -/
def peersOverlap (wildcard : Option String) : Option Role → Option Role → Bool
  | some left, some right =>
      left.isWildcard wildcard || right.isWildcard wildcard || left.overlaps right
  | _, _ => true

namespace Action

/-- The other ends of an action; an unknown one is `none`. -/
def peers (action : Action) : List (Option Role) :=
  match action.direction with
  | .send => action.interaction.receivers.map some
  | .recv => [action.interaction.sender]

/-- Some peer of the one action may be a peer of the other. -/
def sharesChannel (wildcard : Option String) (left right : Action) : Bool :=
  left.peers.any fun leftPeer =>
    right.peers.any fun rightPeer => peersOverlap wildcard leftPeer rightPeer

end Action

end Multiparty
