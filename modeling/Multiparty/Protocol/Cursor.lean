import Multiparty.Protocol.Basic

/-!
# Reading children one at a time

A cursor reads the children of a node without listing them first.  It holds the
rest of the list that it is reading and the interrupts whose bodies it has not
begun; a body without nodes is passed over.  The number of children is known
without reading them.
-/

namespace Multiparty

/-- The children still to be read. -/
structure Cursor where
  current : List Protocol
  pending : List (Interrupt Protocol) := []

namespace Cursor

/-- Read the first node of a list, or of the first body after it that has one. -/
def readFrom :
    List Protocol → List (Interrupt Protocol) → Option (Protocol × Cursor)
  | node :: rest, pending => some (node, ⟨rest, pending⟩)
  | [], ⟨_, body⟩ :: pending => readFrom body pending
  | [], [] => none

/-- Read one child. -/
def next? (cursor : Cursor) : Option (Protocol × Cursor) :=
  readFrom cursor.current cursor.pending

/-- Skip the given number of children and read the one that follows. -/
def nth? : Nat → Cursor → Option Protocol
  | 0, cursor => cursor.next?.map Prod.fst
  | position + 1, cursor => cursor.next?.bind fun (_, rest) => nth? position rest

end Cursor

namespace Protocol

/-- The cursor before the first child. -/
def cursor : Protocol → Cursor
  | compose _ parts => { current := parts }
  | choice _ branches => { current := branches }
  | loop _ body => { current := body }
  | interruptible _ body interrupts => { current := body, pending := interrupts }
  | exchange _ | perform _ | jump _ | invoke _ => { current := [] }

/-- The number of children.  Those of an interruptible scope are counted body by
body. -/
def childCount : Protocol → Nat
  | interruptible _ body interrupts =>
      interrupts.foldl (fun count interrupt => count + interrupt.body.length)
        body.length
  | other => other.children.length

end Protocol

end Multiparty
