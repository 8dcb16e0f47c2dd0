import Multiparty.Projection
import Multiparty.Protocol.Access
import Multiparty.Protocol.Equality
import Multiparty.RoleGroup
import Multiparty.Validation

/-!
# Sessions

A session holds a protocol tree with the roles and groups that it declares and
the protocols that it imports.  A local session belongs to one role, its
endpoint.
-/

namespace Multiparty

/-- A session describes all roles or one of them. -/
inductive SessionKind where
  | global
  | local
  deriving DecidableEq

/-- A protocol taken from elsewhere. -/
structure Import where
  name : String
  localName : Option String := none
  source : Option String := none
  deriving DecidableEq

/-- A protocol tree with its declarations. -/
structure Session where
  name : String
  kind : SessionKind := .global
  endpoint : Option Role := none
  root : Protocol := .root []
  roles : Registry Role := {}
  groups : Registry RoleGroup := {}
  imports : List Import := []
  deriving DecidableEq

namespace Session

instance : Inhabited Session := ⟨{ name := "default" }⟩

/-- Declare a role and return the declaration of its name that it replaces. -/
def addRole (session : Session) (role : Role) : Option Role × Session :=
  let (replaced, roles) := session.roles.getThenInsert? role.name role
  (replaced, { session with roles })

/-- The declared role of a name. -/
def role (session : Session) (name : String) : Except LookupError Role :=
  match session.roles.get? name with
  | some role => .ok role
  | none => .error (.unknownRole name)

/-- Declare a group and return the declaration of its name that it replaces. -/
def addGroup (session : Session) (group : RoleGroup) :
    Option RoleGroup × Session :=
  let (replaced, groups) := session.groups.getThenInsert? group.name group
  (replaced, { session with groups })

/-- The declared group of a name. -/
def group (session : Session) (name : String) : Except LookupError RoleGroup :=
  match session.groups.get? name with
  | some group => .ok group
  | none => .error (.unknownGroup name)

/-- Add an import at the end. -/
def addImport (session : Session) (entry : Import) : Session :=
  { session with imports := session.imports ++ [entry] }

/-- Replace the protocol tree and return the earlier one. -/
def setRoot (session : Session) (root : Protocol) : Protocol × Session :=
  (session.root, { session with root })

/-- Add a child to the protocol tree. -/
def append (session : Session) (child : Protocol) :
    Except KindMismatch Session := do
  let root ← session.root.appendChild child
  return { session with root }

/-- Make the session the local session of a role. -/
def setEndpoint (session : Session) (role : Role) : Session :=
  { session with kind := .local, endpoint := some role }

/-- The protocol tree is valid for the declared roles. -/
def validate (session : Session) : Except ValidationError Unit :=
  session.root.validate session.roles

/-- The local session of a role. -/
def project (session : Session) (role : Role) :
    Except ProjectionError Session := do
  let root ← session.root.project role
  return { session with root }.setEndpoint role

end Session

end Multiparty
