import Multiparty.Interaction

/-!
# Protocol trees

A protocol is a tree of interactions (in a global protocol) or actions (in the
local protocol of one role), joined by compositions, choices, loops and
interruptible scopes.  The children of an interruptible scope are its body
followed by the bodies of its interrupts.  A jump goes back to an enclosing
loop, which it names.
-/

namespace Multiparty

/-- How the parts of a composition belong together. -/
inductive Composition where
  | root
  | block
  | parallel
  deriving DecidableEq

/-- What a loop binds: the label of a recursion, or a variable that runs
through a range. -/
inductive LoopHead where
  | recursion (label : String)
  | forEach (index : String) (range : Expr)
  deriving DecidableEq

/-- The name by which a jump refers to a loop. -/
def LoopHead.binder : LoopHead → String
  | recursion label => label
  | forEach index _ => index

/-- The use of another protocol with given roles and message arguments. -/
structure Invocation where
  protocol : String
  scope : Option String := none
  roles : List Role := []
  args : List Message := []
  deriving DecidableEq

/-- What happens when a role interrupts a scope. -/
structure Interrupt (ν : Type) where
  trigger : Role
  body : List ν
  deriving DecidableEq

/-- A protocol tree. -/
inductive Protocol where
  | compose (how : Composition) (parts : List Protocol)
  | exchange (interaction : Interaction)
  | perform (action : Action)
  | choice (chooser : Role) (branches : List Protocol)
  | loop (head : LoopHead) (body : List Protocol)
  | jump (label : String)
  | invoke (call : Invocation)
  | interruptible (scope : String) (body : List Protocol)
      (interrupts : List (Interrupt Protocol))

/-- The kinds of protocol nodes. -/
inductive Kind where
  | root
  | block
  | interaction
  | send
  | recv
  | choice
  | recursion
  | jump
  | parallel
  | forEach
  | invocation
  | interruptible
  deriving DecidableEq

/-- The text of a kind. -/
def Kind.render : Kind → String
  | root => "root"
  | block => "block"
  | interaction => "interaction"
  | send => "send"
  | recv => "recv"
  | choice => "choice"
  | recursion => "recur"
  | jump => "continue"
  | parallel => "par"
  | forEach => "foreach"
  | invocation => "nested"
  | interruptible => "interruptible"

namespace Protocol

/-- The root of the given parts. -/
abbrev root (parts : List Protocol) : Protocol := compose .root parts

/-- The block of the given parts. -/
abbrev block (parts : List Protocol) : Protocol := compose .block parts

/-- The parallel composition of the given branches. -/
abbrev parallel (branches : List Protocol) : Protocol :=
  compose .parallel branches

instance : Inhabited Protocol := ⟨root []⟩

/-- The kind of the outermost node. -/
def kind : Protocol → Kind
  | compose .root _ => .root
  | compose .block _ => .block
  | compose .parallel _ => .parallel
  | exchange _ => .interaction
  | perform ⟨.send, _⟩ => .send
  | perform ⟨.recv, _⟩ => .recv
  | choice .. => .choice
  | loop (.recursion _) _ => .recursion
  | loop (.forEach ..) _ => .forEach
  | jump _ => .jump
  | invoke _ => .invocation
  | interruptible .. => .interruptible

/-- The subtrees directly below the outermost node. -/
def children : Protocol → List Protocol
  | compose _ parts => parts
  | choice _ branches => branches
  | loop _ body => body
  | interruptible _ body interrupts => body ++ interrupts.flatMap Interrupt.body
  | exchange _ | perform _ | jump _ | invoke _ => []

/-- The action that the outermost node is, if it is one. -/
def action? : Protocol → Option Action
  | perform action => some action
  | _ => none

/-- The outermost node is an action. -/
def isAction (protocol : Protocol) : Bool :=
  protocol.action?.isSome

/-- The outermost node is a loop. -/
def isLoop : Protocol → Bool
  | loop .. => true
  | _ => false

/-- Both nodes are actions, and these share a channel. -/
def sharesChannel (wildcard : Option String) (left right : Protocol) : Bool :=
  match left.action?, right.action? with
  | some leftAction, some rightAction =>
      leftAction.sharesChannel wildcard rightAction
  | _, _ => false

end Protocol

end Multiparty
