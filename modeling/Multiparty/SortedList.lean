/-!
# Sorted lists without repeats

A finite set is kept as the increasing list of its members, so that equal sets
are equal lists and every listing of them is in order.
-/

namespace Multiparty

variable {α : Type} [LT α] [DecidableLT α] [DecidableEq α]

/-- Put `item` at its place in an increasing list, unless it is there. -/
def insertSorted (item : α) : List α → List α
  | [] => [item]
  | head :: tail =>
      if item = head then
        head :: tail
      else if item < head then
        item :: head :: tail
      else
        head :: insertSorted item tail

/-- The members of a list in increasing order, each once. -/
def sortDistinct (items : List α) : List α :=
  items.foldr insertSorted []

@[simp]
theorem mem_insertSorted {item other : α} {items : List α} :
    other ∈ insertSorted item items ↔ other = item ∨ other ∈ items := by
  induction items with
  | nil => simp [insertSorted]
  | cons head tail ih =>
      unfold insertSorted
      split
      case isTrue same => simp [same]
      case isFalse =>
        split
        · simp
        · simp [ih, or_left_comm]

@[simp]
theorem mem_sortDistinct {item : α} {items : List α} :
    item ∈ sortDistinct items ↔ item ∈ items := by
  induction items with
  | nil => simp [sortDistinct]
  | cons head tail ih =>
      simpa [sortDistinct] using or_congr_right ih

end Multiparty
