import Mathlib.Data.List.Basic
import Multiparty.Proofs.Items
import Multiparty.Protocol.Equality

/-!
# What a projection does not reveal

To conceal a tree from a role is to put an empty block in the place of every
exchange that the role takes no part in.  A role sees the same of a tree and of
the concealed tree, and a family of roles has one projection.  Hence two trees
that are equal once concealed have one projection for the whole family, or fail
for one label: who exchanges what beyond the role, and under which guard, cannot
be told from the result.
-/

namespace Multiparty

namespace Interaction

/-- The role takes no part. -/
theorem viewOf_eq_none_iff {role : Role} {interaction : Interaction} :
    interaction.viewOf role = none ↔
      ¬(interaction.SentBy role ∨ interaction.ReceivedBy role) := by
  rw [viewOf_eq]
  by_cases sends : interaction.SentBy role
  · simp [sends]
  · by_cases receives : interaction.ReceivedBy role
    · simp [sends, receives]
    · simp [sends, receives]

theorem viewOf_of_sameFamily {role other : Role}
    (family : other.sameFamily role = true) (interaction : Interaction) :
    interaction.viewOf other = interaction.viewOf role := by
  have sameTest : other.sameFamily = role.sameFamily := by
    obtain ⟨sameName, sameLength⟩ := Role.sameFamily_iff.mp family
    funext participant
    rw [Role.sameFamily, Role.sameFamily, sameName, sameLength]
  rw [viewOf, viewOf, sameTest]

end Interaction

namespace Protocol

mutual

/-- The tree with an empty block for every exchange that the role takes no part
in. -/
def conceal (role : Role) : Protocol → Protocol
  | exchange interaction =>
      if interaction.SentBy role ∨ interaction.ReceivedBy role then
        exchange interaction
      else
        block []
  | perform action => perform action
  | invoke call => invoke call
  | jump label => jump label
  | compose how parts => compose how (concealList role parts)
  | choice chooser branches => choice chooser (concealList role branches)
  | loop head body => loop head (concealList role body)
  | interruptible scope body interrupts =>
      interruptible scope (concealList role body)
        (concealInterrupts role interrupts)

/-- List counterpart of `conceal`. -/
def concealList (role : Role) : List Protocol → List Protocol
  | [] => []
  | head :: tail => head.conceal role :: concealList role tail

/-- Counterpart of `conceal` for interrupts. -/
def concealInterrupts (role : Role) :
    List (Interrupt Protocol) → List (Interrupt Protocol)
  | [] => []
  | ⟨trigger, body⟩ :: tail =>
      ⟨trigger, concealList role body⟩ :: concealInterrupts role tail

end

theorem concealList_eq_map (role : Role) (protocols : List Protocol) :
    concealList role protocols = protocols.map (conceal role) := by
  induction protocols with
  | nil => rfl
  | cons head tail ih => rw [concealList, ih, List.map_cons]

theorem concealInterrupts_eq_map (role : Role)
    (interrupts : List (Interrupt Protocol)) :
    concealInterrupts role interrupts =
      interrupts.map fun interrupt =>
        ⟨interrupt.trigger, interrupt.body.map (conceal role)⟩ := by
  induction interrupts with
  | nil => rfl
  | cons head tail ih =>
      obtain ⟨trigger, body⟩ := head
      rw [concealInterrupts, ih, concealList_eq_map, List.map_cons]

theorem topLevel_conceal (role : Role) (protocol : Protocol) :
    (protocol.conceal role).topLevel =
      concealList role protocol.topLevel := by
  cases protocol with
  | compose how parts => cases how <;> rfl
  | exchange interaction =>
      by_cases involved : interaction.SentBy role ∨ interaction.ReceivedBy role
      · simp only [conceal, concealList, topLevel, if_pos involved]
      · simp only [conceal, concealList, topLevel, if_neg involved]
  | _ => rfl

section Family

variable {role other : Role}

theorem filterMap_visibleTo_conceal {parts : List Protocol}
    (same : ∀ part ∈ parts,
      (part.conceal role).visibleTo role = part.visibleTo other) :
    (concealList role parts).filterMap (visibleTo role) =
      parts.filterMap (visibleTo other) := by
  rw [concealList_eq_map, List.filterMap_map]
  exact List.filterMap_congr same

/-- An empty block is as invisible as the exchange that it replaces, for every
role of the family. -/
theorem visibleTo_conceal (family : other.sameFamily role = true)
    (protocol : Protocol) :
    (protocol.conceal role).visibleTo role = protocol.visibleTo other := by
  induction protocol with
  | exchange interaction =>
      rw [conceal, visibleTo, Interaction.viewOf_of_sameFamily family]
      split
      case isTrue => rw [visibleTo]
      case isFalse apart =>
        rw [Interaction.viewOf_eq_none_iff.mpr apart, visibleTo]
        rfl
  | perform | invoke | jump => rw [conceal, visibleTo, visibleTo]
  | compose how parts ih =>
      rw [conceal, visibleTo, visibleTo, filterMap_visibleTo_conceal ih]
  | loop head body ih =>
      rw [conceal, visibleTo, visibleTo, filterMap_visibleTo_conceal ih]
  | choice chooser branches ih =>
      rw [conceal, visibleTo, visibleTo, concealList_eq_map, List.map_map]
      congr 2
      apply List.map_congr_left
      intro branch member
      rw [Function.comp_apply, ih branch member]
  | interruptible scope body interrupts bodyIH handlerIH =>
      rw [conceal, visibleTo, visibleTo, filterMap_visibleTo_conceal bodyIH,
        concealInterrupts_eq_map, List.map_map]
      congr 2
      apply List.map_congr_left
      intro interrupt member
      have inHandler : ∀ part ∈ interrupt.body,
          (part.conceal role).visibleTo role = part.visibleTo other := by
        intro part inBody
        exact handlerIH part (List.mem_flatMap_of_mem member inBody)
      rw [Function.comp_apply, ← concealList_eq_map,
        filterMap_visibleTo_conceal inHandler]

/-- Every jump is visible, so concealing a tree keeps what the label check
finds. -/
theorem unresolvedLabel?_conceal (role : Role) (protocol : Protocol) :
    (protocol.conceal role).unresolvedLabel? = protocol.unresolvedLabel? := by
  calc (protocol.conceal role).unresolvedLabel?
      = danglingLabelList? [] ((protocol.conceal role).visibleTo role).toList :=
        (danglingLabelList?_visibleTo role [] _).symm
    _ = danglingLabelList? [] (protocol.visibleTo role).toList := by
        rw [visibleTo_conceal role.sameFamily_self]
    _ = protocol.unresolvedLabel? := danglingLabelList?_visibleTo role [] _

theorem project_conceal (family : other.sameFamily role = true)
    (protocol : Protocol) :
    (protocol.conceal role).project role = protocol.project other := by
  have sameView : (concealList role protocol.topLevel).filterMap
      (visibleTo role) = protocol.topLevel.filterMap (visibleTo other) :=
    filterMap_visibleTo_conceal fun part _ => visibleTo_conceal family part
  rw [project_eq, project_eq, unresolvedLabel?_conceal, topLevel_conceal,
    sameView]

/-- Two trees that differ only in exchanges without the role have the same
projection, or the same failure, and so for every role of its family. -/
theorem projections_hide_foreign_exchanges {left right : Protocol}
    (same : left.conceal role = right.conceal role)
    (family : other.sameFamily role = true) :
    left.project role = right.project other := by
  calc left.project role
      = (left.conceal role).project role :=
        (project_conceal role.sameFamily_self left).symm
    _ = (right.conceal role).project role := by rw [same]
    _ = right.project other := project_conceal family right

/-- A worker cannot tell what the others exchange, be it between its own jobs,
in a branch, in a loop or in a handler. -/
theorem projections_hide_foreign_exchanges_from_workers :
    let master : Role := { name := "M" }
    let worker (index : Expr) : Role := { name := "W", dimensions := [index] }
    let job : Protocol := exchange
      { sender := some master, receivers := [worker (.var "i")] }
    let around (foreign : Protocol) : Protocol :=
      root [foreign, parallel [block [foreign]], choice master [foreign, job],
        loop (.recursion "X") [job, foreign, jump "X"],
        interruptible "s" [foreign] [⟨master, [foreign, job]⟩]]
    let report : Protocol := exchange
      { sender := some master, receivers := [{ name := "B" }],
        message := { label := "Report" }, guard := some (worker (.lit 1)) }
    let gossip : Protocol := exchange
      { receivers := [{ name := "W" }], message := { label := "Gossip" } }
    around report ≠ around gossip ∧
      (around report).conceal (worker (.var "i")) =
        (around gossip).conceal (worker (.var "i")) ∧
      (worker (.lit 3)).sameFamily (worker (.var "i")) = true ∧
      (around report).project (worker (.var "i")) =
        (around gossip).project (worker (.lit 3)) := by
  intro master worker job around report gossip
  have same : (around report).conceal (worker (.var "i")) =
      (around gossip).conceal (worker (.var "i")) := by decide
  have family : (worker (.lit 3)).sameFamily (worker (.var "i")) = true := by
    decide
  exact ⟨by decide, same, family,
    projections_hide_foreign_exchanges same family⟩

end Family

end Protocol

end Multiparty
