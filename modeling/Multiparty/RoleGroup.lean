import Multiparty.Registry
import Multiparty.Role

/-!
# Role groups

A named collection of roles, each stored under its own name.
-/

namespace Multiparty

/-- A named registry of roles. -/
structure RoleGroup where
  name : String
  members : Registry Role := {}
  deriving DecidableEq

namespace RoleGroup

instance : Inhabited RoleGroup := ⟨{ name := "default_grp" }⟩

/-- Rename a group. -/
def rename (group : RoleGroup) (name : String) : RoleGroup :=
  { group with name }

/-- Add a member and return the one of the same name that it replaces. -/
def addMember (group : RoleGroup) (role : Role) : Option Role × RoleGroup :=
  let (replaced, members) := group.members.getThenInsert? role.name role
  (replaced, { group with members })

/-- The group of the given roles, added in order. -/
def ofRoles (name : String) (roles : List Role) : RoleGroup :=
  roles.foldl (fun group role => (group.addMember role).2) { name }

/-- The member stored under a name. -/
def member (group : RoleGroup) (name : String) : Except LookupError Role :=
  match group.members.get? name with
  | some role => .ok role
  | none => .error (.unknownMember group.name name)

end RoleGroup

end Multiparty
