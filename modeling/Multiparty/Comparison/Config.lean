import Multiparty.Expr.Normalize
import Multiparty.Protocol.Basic

/-!
# Agreement of nodes

`Config` chooses how two trees are compared, and `Config.sameHeader` says when
two nodes agree without regard to their subtrees.  The labels of recursions and
jumps and the names of scopes are free to differ, and so are the indices of the
roles that decide choices.
-/

namespace Multiparty

/-- How two trees are compared. -/
structure Config where
  /-- The leading actions of a loop may stand in another order. -/
  reorders : Bool := true
  /-- Expressions are compared by their normal forms. -/
  normalizes : Bool := false
  /-- A send may be moved before a receive on the same channel. -/
  sendOvertakesRecv : Bool := false
  /-- The name that stands for any role. -/
  wildcard : Option String := some "__ROLE__"
  deriving DecidableEq, Inhabited

/-- Both values are absent, or both are present and agree. -/
def sameOption {α : Type} (same : α → α → Bool) : Option α → Option α → Bool
  | some left, some right => same left right
  | none, none => true
  | _, _ => false

namespace Config

variable (config : Config)

/-- Two expressions are equal, after normalisation if that is switched on. -/
def sameExpr (left right : Expr) : Bool :=
  if config.normalizes then left.normalize == right.normalize else left == right

/-- Two roles have equal index expressions. -/
def sameIndices (left right : Role) : Bool :=
  left.dimensions.isEqv right.dimensions config.sameExpr

/-- Two roles are equal; a wildcard on the right has any name. -/
def samePeer (left right : Role) : Bool :=
  (left.name == right.name || right.isWildcard config.wildcard) &&
    config.sameIndices left right

/-- Two guards are equal. -/
def sameGuard (left right : Role) : Bool :=
  left.name == right.name && config.sameIndices left right

/-- Two interactions have compatible messages and equal guards. -/
def sameContent (left right : Interaction) : Bool :=
  left.message.compatible right.message &&
    sameOption config.sameGuard left.guard right.guard

/-- Two interactions have equal senders. -/
def sameSender (left right : Interaction) : Bool :=
  sameOption config.samePeer left.sender right.sender

/-- Two interactions have equal receivers in the same order. -/
def sameReceivers (left right : Interaction) : Bool :=
  left.receivers.isEqv right.receivers config.samePeer

/-- Two interactions agree. -/
def sameInteraction (left right : Interaction) : Bool :=
  config.sameContent left right && config.sameSender left right &&
    config.sameReceivers left right

/-- Two actions agree.  Only their peers matter: the receivers of a send and
the sender of a receive. -/
def sameAction (left right : Action) : Bool :=
  left.direction == right.direction &&
    config.sameContent left.interaction right.interaction &&
    match left.direction with
    | .send => config.sameReceivers left.interaction right.interaction
    | .recv => config.sameSender left.interaction right.interaction

/-- Two loops are of one kind, and run through equal ranges if they have any. -/
def sameLoopHead : LoopHead → LoopHead → Bool
  | .recursion _, .recursion _ => true
  | .forEach index₁ range₁, .forEach index₂ range₂ =>
      index₁ == index₂ && config.sameExpr range₁ range₂
  | _, _ => false

/-- Two invocations use one protocol with equal roles and compatible arguments. -/
def sameInvocation (left right : Invocation) : Bool :=
  left.protocol == right.protocol &&
    left.roles.isEqv right.roles config.samePeer &&
    left.args.isEqv right.args Message.compatible

/-- Two interrupts have equal triggers and bodies of one length. -/
def sameInterrupt (left right : Interrupt Protocol) : Bool :=
  left.body.length == right.body.length &&
    config.samePeer left.trigger right.trigger

/-- Two nodes agree apart from their subtrees, of which they have equally many. -/
def sameHeader : Protocol → Protocol → Bool
  | .compose how₁ parts₁, .compose how₂ parts₂ =>
      how₁ == how₂ && parts₁.length == parts₂.length
  | .exchange interaction₁, .exchange interaction₂ =>
      config.sameInteraction interaction₁ interaction₂
  | .perform action₁, .perform action₂ => config.sameAction action₁ action₂
  | .choice chooser₁ branches₁, .choice chooser₂ branches₂ =>
      chooser₁.name == chooser₂.name && branches₁.length == branches₂.length
  | .loop head₁ body₁, .loop head₂ body₂ =>
      config.sameLoopHead head₁ head₂ && body₁.length == body₂.length
  | .jump _, .jump _ => true
  | .invoke call₁, .invoke call₂ => config.sameInvocation call₁ call₂
  | .interruptible _ body₁ interrupts₁, .interruptible _ body₂ interrupts₂ =>
      body₁.length == body₂.length &&
        interrupts₁.isEqv interrupts₂ config.sameInterrupt
  | _, _ => false

end Config

end Multiparty
