import Multiparty.Expr.Render
import Multiparty.Lookup

/-!
# Message signatures

A message has a label and a list of payloads, each with a type, an optional
name and array dimensions.  Two messages are compatible when their payloads
have the same shapes and their labels agree; an empty label agrees with every
label.
-/

namespace Multiparty

/-- One typed item of a message. -/
structure Payload where
  name : String := ""
  type : String
  dimensions : List Expr := []
  deriving DecidableEq

namespace Payload

/-- Two payloads have the same type and the same dimensions as written. -/
def sameShape (left right : Payload) : Bool :=
  left.type == right.type && left.dimensions == right.dimensions

/-- The type with its dimensions, after the name if there is one. -/
def render (payload : Payload) : String :=
  (if payload.name.isEmpty then "" else payload.name ++ ": ") ++
    payload.type ++ Expr.renderIndices payload.dimensions

end Payload

/-- A message signature. -/
structure Message where
  label : String := ""
  payloads : List Payload := []
  deriving DecidableEq, Inhabited

namespace Message

/-- The label is not empty. -/
def isLabelled (message : Message) : Bool :=
  !message.label.isEmpty

/-- Replace the label. -/
def relabel (message : Message) (label : String) : Message :=
  { message with label }

/-- Add a payload at the end. -/
def addPayload (message : Message) (payload : Payload) : Message :=
  { message with payloads := message.payloads ++ [payload] }

/-- The payload at a position. -/
def payload (message : Message) (index : Nat) : Except LookupError Payload :=
  match message.payloads[index]? with
  | some payload => .ok payload
  | none => .error (.payloadOutOfRange message.label index message.payloads.length)

/-- Some payload has the given name. -/
def hasPayload (message : Message) (name : String) : Bool :=
  message.payloads.any (·.name == name)

/-- Two messages may be the two ends of one communication. -/
def compatible (left right : Message) : Bool :=
  (left.label.isEmpty || right.label.isEmpty || left.label == right.label) &&
    left.payloads.isEqv right.payloads Payload.sameShape

/-- The label with the payloads in parentheses. -/
def render (message : Message) : String :=
  message.label ++ "(" ++
    ", ".intercalate (message.payloads.map Payload.render) ++ ")"

end Message

end Multiparty
