import Multiparty.Protocol.Basic
import Multiparty.Registry

/-!
# Access by kind

Parts that only some kinds of nodes have, and the operations that extend a
node.  On any other kind they report the operation and the kind.
-/

namespace Multiparty

/-- Operations that only some kinds of nodes support. -/
inductive Operation where
  | appendChild
  | addInterrupt
  | interaction
  | message
  | label
  | body
  | chooser
  | range
  | interrupts
  deriving DecidableEq

/-- The text of an operation. -/
def Operation.render : Operation → String
  | appendChild => "append_child"
  | addInterrupt => "add_interrupt"
  | interaction => "interaction"
  | message => "message"
  | label => "label"
  | body => "body"
  | chooser => "choice_at"
  | range => "range"
  | interrupts => "interrupts"

/-- An operation on a node that does not support it. -/
structure KindMismatch where
  operation : Operation
  found : Kind
  deriving DecidableEq

/-- The text of a kind mismatch. -/
def KindMismatch.message (mismatch : KindMismatch) : String :=
  mismatch.operation.render ++ " is not supported on a " ++
    mismatch.found.render ++ " node"

namespace Protocol

/-- The report that a node does not support an operation. -/
def unsupported {α : Type} (operation : Operation) (protocol : Protocol) :
    Except KindMismatch α :=
  .error ⟨operation, protocol.kind⟩

/-- Add a child at the end; for an interruptible scope, at the end of the body. -/
def appendChild (protocol : Protocol) (child : Protocol) :
    Except KindMismatch Protocol :=
  match protocol with
  | compose how parts => .ok (compose how (parts ++ [child]))
  | choice chooser branches => .ok (choice chooser (branches ++ [child]))
  | loop head body => .ok (loop head (body ++ [child]))
  | interruptible scope body interrupts =>
      .ok (interruptible scope (body ++ [child]) interrupts)
  | other => other.unsupported .appendChild

/-- Set what happens when a role interrupts the scope.  There is one interrupt
for each role name. -/
def addInterrupt (protocol : Protocol) (trigger : Role)
    (handler : List Protocol) : Except KindMismatch Protocol :=
  match protocol with
  | interruptible scope body interrupts =>
      .ok (interruptible scope body
        (upsert (fun interrupt => interrupt.trigger.name) ⟨trigger, handler⟩
          interrupts))
  | other => other.unsupported .addInterrupt

/-- The interaction of an exchange or an action. -/
def interaction? : Protocol → Option Interaction
  | exchange interaction => some interaction
  | perform ⟨_, interaction⟩ => some interaction
  | _ => none

/-- The interaction of an exchange or an action. -/
def interaction (protocol : Protocol) : Except KindMismatch Interaction :=
  match protocol.interaction? with
  | some interaction => .ok interaction
  | none => protocol.unsupported .interaction

/-- Change the interaction of an exchange or an action. -/
def modifyInteraction (protocol : Protocol)
    (change : Interaction → Interaction) : Except KindMismatch Protocol :=
  match protocol with
  | exchange interaction => .ok (exchange (change interaction))
  | perform ⟨direction, interaction⟩ =>
      .ok (perform ⟨direction, change interaction⟩)
  | other => other.unsupported .interaction

/-- The message of an exchange or an action. -/
def message (protocol : Protocol) : Except KindMismatch Message :=
  match protocol.interaction? with
  | some interaction => .ok interaction.message
  | none => protocol.unsupported .message

/-- The name that a loop binds or a jump refers to. -/
def label : Protocol → Except KindMismatch String
  | loop head _ => .ok head.binder
  | jump label => .ok label
  | other => other.unsupported .label

/-- The body of a loop or an interruptible scope. -/
def body : Protocol → Except KindMismatch (List Protocol)
  | loop _ body => .ok body
  | interruptible _ body _ => .ok body
  | other => other.unsupported .body

/-- The role that decides a choice. -/
def chooser : Protocol → Except KindMismatch Role
  | choice chooser _ => .ok chooser
  | other => other.unsupported .chooser

/-- The range of a loop over a variable. -/
def range : Protocol → Except KindMismatch Expr
  | loop (.forEach _ range) _ => .ok range
  | other => other.unsupported .range

/-- The interrupts of an interruptible scope. -/
def interrupts : Protocol → Except KindMismatch (List (Interrupt Protocol))
  | interruptible _ _ interrupts => .ok interrupts
  | other => other.unsupported .interrupts

end Protocol

end Multiparty
