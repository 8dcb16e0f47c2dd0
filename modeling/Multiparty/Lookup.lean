/-!
# Failed look-ups

A name or an index that a role, group, message or session does not have.
-/

namespace Multiparty

/-- What was looked for and where. -/
inductive LookupError where
  | unknownRole (name : String)
  | unknownGroup (name : String)
  | unknownMember (group name : String)
  | dimensionOutOfRange (role : String) (index size : Nat)
  | payloadOutOfRange (label : String) (index size : Nat)
  deriving DecidableEq

/-- The text of a failed look-up. -/
def LookupError.message : LookupError → String
  | unknownRole name => s!"Role {name} not found in session"
  | unknownGroup name => s!"Group {name} not found in session"
  | unknownMember group name => s!"Role {name} is not a member of group {group}"
  | dimensionOutOfRange role index size =>
      s!"Role {role} has {size} dimension(s), no dimension {index}"
  | payloadOutOfRange label index size =>
      s!"Message {label} has {size} payload(s), no payload {index}"

end Multiparty
