import Multiparty.Protocol.Path
import Multiparty.SortedList

/-!
# Outcomes of a comparison

A mark names a node on one of the two sides.  An outcome holds the marked paths
of each side in increasing order; the trees are identical when nothing is
marked.
-/

namespace Multiparty

/-- The two trees of a comparison. -/
inductive Side where
  | left
  | right
  deriving DecidableEq

/-- The text of a side. -/
def Side.render : Side → String
  | left => "left"
  | right => "right"

/-- A node that has no counterpart on the other side. -/
structure Mark where
  side : Side
  path : Path
  deriving DecidableEq

/-- The mark seen from the parent of the tree in which it was found. -/
def Mark.below (position : Nat) (mark : Mark) : Mark :=
  { mark with path := position :: mark.path }

/-- The marked paths of each side. -/
structure Outcome where
  left : List Path := []
  right : List Path := []
  deriving DecidableEq

namespace Outcome

/-- The outcome that has the given marks. -/
def ofMarks (marks : List Mark) : Outcome where
  left := sortDistinct ((marks.filter (·.side == .left)).map Mark.path)
  right := sortDistinct ((marks.filter (·.side == .right)).map Mark.path)

/-- The marked paths of one side. -/
def marked (outcome : Outcome) : Side → List Path
  | .left => outcome.left
  | .right => outcome.right

/-- All marks, those of the left side first. -/
def marks (outcome : Outcome) : List Mark :=
  outcome.left.map (Mark.mk .left) ++ outcome.right.map (Mark.mk .right)

/-- Nothing is marked.  A flag that falls with the first mark ends up the same;
see `Findings`. -/
def identical (outcome : Outcome) : Bool :=
  outcome.left.isEmpty && outcome.right.isEmpty

/-- The outcome with one more mark, if it is a new one. -/
def insert (outcome : Outcome) : Mark → Outcome
  | ⟨.left, path⟩ => { outcome with left := insertSorted path outcome.left }
  | ⟨.right, path⟩ => { outcome with right := insertSorted path outcome.right }

/-- A path is marked on one side. -/
def isMarked (outcome : Outcome) (side : Side) (path : Path) : Bool :=
  (outcome.marked side).contains path

/-- The marks of an outcome are those that it was made of. -/
theorem mem_marked_ofMarks {marks : List Mark} {side : Side} {path : Path} :
    path ∈ (ofMarks marks).marked side ↔ ⟨side, path⟩ ∈ marks := by
  cases side <;>
  · simp only [marked, ofMarks, mem_sortDistinct, List.mem_map, List.mem_filter]
    constructor
    · rintro ⟨⟨side, path⟩, ⟨member, onSide⟩, rfl⟩
      cases side <;> simp_all
    · intro member
      exact ⟨_, ⟨member, rfl⟩, rfl⟩

end Outcome

/-- What a comparison has found so far if it notes its marks one by one: whether
there was none, and which there were. -/
structure Findings where
  identical : Bool := true
  outcome : Outcome := {}
  deriving DecidableEq

/-- Note a mark. -/
def Findings.note (findings : Findings) (mark : Mark) : Findings where
  identical := false
  outcome := findings.outcome.insert mark

end Multiparty
