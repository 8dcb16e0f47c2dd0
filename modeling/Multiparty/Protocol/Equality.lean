import Multiparty.Protocol.Basic

/-!
# Equality of protocol trees

Equality of trees is decided by walking both at once.
-/

namespace Multiparty

namespace Protocol

mutual

/-- Two trees are the same. -/
def same : Protocol → Protocol → Bool
  | compose how₁ parts₁, compose how₂ parts₂ =>
      how₁ == how₂ && sameList parts₁ parts₂
  | exchange interaction₁, exchange interaction₂ => interaction₁ == interaction₂
  | perform action₁, perform action₂ => action₁ == action₂
  | choice chooser₁ branches₁, choice chooser₂ branches₂ =>
      chooser₁ == chooser₂ && sameList branches₁ branches₂
  | loop head₁ body₁, loop head₂ body₂ => head₁ == head₂ && sameList body₁ body₂
  | jump label₁, jump label₂ => label₁ == label₂
  | invoke call₁, invoke call₂ => call₁ == call₂
  | interruptible scope₁ body₁ interrupts₁, interruptible scope₂ body₂ interrupts₂ =>
      scope₁ == scope₂ && sameList body₁ body₂ &&
        sameInterrupts interrupts₁ interrupts₂
  | _, _ => false

/-- Two lists of trees are the same. -/
def sameList : List Protocol → List Protocol → Bool
  | [], [] => true
  | head₁ :: tail₁, head₂ :: tail₂ => same head₁ head₂ && sameList tail₁ tail₂
  | _, _ => false

/-- Two lists of interrupts are the same. -/
def sameInterrupts :
    List (Interrupt Protocol) → List (Interrupt Protocol) → Bool
  | [], [] => true
  | ⟨trigger₁, body₁⟩ :: tail₁, ⟨trigger₂, body₂⟩ :: tail₂ =>
      trigger₁ == trigger₂ && sameList body₁ body₂ && sameInterrupts tail₁ tail₂
  | _, _ => false

end

mutual

theorem same_iff (left right : Protocol) : same left right = true ↔ left = right := by
  match left with
  | compose _ parts => cases right <;> simp [same, sameList_iff parts]
  | exchange _ => cases right <;> simp [same]
  | perform _ => cases right <;> simp [same]
  | choice _ branches => cases right <;> simp [same, sameList_iff branches]
  | loop _ body => cases right <;> simp [same, sameList_iff body]
  | jump _ => cases right <;> simp [same]
  | invoke _ => cases right <;> simp [same]
  | interruptible _ body interrupts =>
      cases right <;>
        simp [same, sameList_iff body, sameInterrupts_iff interrupts, and_assoc]

theorem sameList_iff (left right : List Protocol) :
    sameList left right = true ↔ left = right := by
  match left with
  | [] => cases right <;> simp [sameList]
  | head :: tail =>
      cases right <;> simp [sameList, same_iff head, sameList_iff tail]

theorem sameInterrupts_iff (left right : List (Interrupt Protocol)) :
    sameInterrupts left right = true ↔ left = right := by
  match left with
  | [] => cases right <;> simp [sameInterrupts]
  | ⟨_, body⟩ :: tail =>
      cases right with
      | nil => simp [sameInterrupts]
      | cons head =>
          cases head
          simp [sameInterrupts, sameList_iff body, sameInterrupts_iff tail]

end

instance : DecidableEq Protocol := fun left right =>
  decidable_of_iff _ (same_iff left right)

end Protocol

end Multiparty
