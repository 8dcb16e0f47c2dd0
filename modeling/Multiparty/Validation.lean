import Multiparty.Protocol.Scope
import Multiparty.Registry

/-!
# Validation of protocol trees

A tree is valid for a registry of roles when every jump is bound, every
interaction has a receiver, and every role that takes part is declared with the
number of dimensions it is used with.  Guards need not be declared.  Unbound
jumps are reported before anything else.
-/

namespace Multiparty

/-- What makes a tree invalid. -/
inductive ValidationError where
  | undefinedRole (name : String)
  | dimensionMismatch (role : String) (declared found : Nat)
  | emptyReceivers (message : Message)
  | unresolvedLabel (label : String)
  deriving DecidableEq

/-- The text of a validation error. -/
def ValidationError.message : ValidationError → String
  | undefinedRole name => s!"Role {name} not declared in session"
  | dimensionMismatch role declared found =>
      s!"Role {role} declared with {declared} dimension(s) but used with {found}"
  | emptyReceivers message => s!"Interaction {message.render} has no receivers"
  | unresolvedLabel label =>
      s!"Continue label {label} has no enclosing recursion or loop"

/-- A role is declared with the number of dimensions it is used with. -/
def Role.validate (declared : Registry Role) (role : Role) :
    Except ValidationError Unit :=
  match declared.get? role.name with
  | none => .error (.undefinedRole role.name)
  | some declaration =>
      if declaration.dimensions.length = role.dimensions.length then
        .ok ()
      else
        .error (.dimensionMismatch role.name declaration.dimensions.length
          role.dimensions.length)

/-- An interaction has receivers, and its roles are declared. -/
def Interaction.validate (declared : Registry Role) (interaction : Interaction) :
    Except ValidationError Unit :=
  if interaction.receivers.isEmpty then
    .error (.emptyReceivers interaction.message)
  else do
    interaction.sender.toList.forM (Role.validate declared)
    interaction.receivers.forM (Role.validate declared)

namespace Protocol

mutual

/-- The roles of a tree are declared and its interactions have receivers.
Interrupts are checked before the body that they interrupt. -/
def validateRoles (declared : Registry Role) :
    Protocol → Except ValidationError Unit
  | exchange interaction => interaction.validate declared
  | perform action => action.interaction.validate declared
  | choice chooser branches => do
      chooser.validate declared
      validateRolesList declared branches
  | invoke call => call.roles.forM (Role.validate declared)
  | interruptible _ body interrupts => do
      validateRolesInterrupts declared interrupts
      validateRolesList declared body
  | compose _ parts => validateRolesList declared parts
  | loop _ body => validateRolesList declared body
  | jump _ => .ok ()

/-- The same check for every tree of a list. -/
def validateRolesList (declared : Registry Role) :
    List Protocol → Except ValidationError Unit
  | [] => .ok ()
  | head :: tail => do
      head.validateRoles declared
      validateRolesList declared tail

/-- The same check for the interrupting roles and the bodies of interrupts. -/
def validateRolesInterrupts (declared : Registry Role) :
    List (Interrupt Protocol) → Except ValidationError Unit
  | [] => .ok ()
  | ⟨trigger, body⟩ :: tail => do
      trigger.validate declared
      validateRolesList declared body
      validateRolesInterrupts declared tail

end

/-- Every jump is bound by an enclosing loop. -/
def validateLabels (protocol : Protocol) : Except ValidationError Unit :=
  match protocol.unresolvedLabel? with
  | some label => .error (.unresolvedLabel label)
  | none => .ok ()

/-- A tree is valid for the declared roles. -/
def validate (declared : Registry Role) (protocol : Protocol) :
    Except ValidationError Unit := do
  protocol.validateLabels
  protocol.validateRoles declared

end Protocol

end Multiparty
