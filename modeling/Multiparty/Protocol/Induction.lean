import Multiparty.Protocol.Basic

/-!
# Induction on protocol trees

A property of trees that holds of a node whenever it holds of the children of
that node holds of every tree.  Children are smaller than their node, so
functions on trees may also call themselves on children.
-/

namespace Multiparty

namespace Protocol

mutual

/-- Induction from the children of a node to the node. -/
theorem inductionOnChildren {motive : Protocol → Prop}
    (node : ∀ protocol : Protocol,
      (∀ child ∈ protocol.children, motive child) → motive protocol)
    (protocol : Protocol) : motive protocol := by
  match protocol with
  | compose _ parts => exact node _ (inductionOnList node parts)
  | choice _ branches => exact node _ (inductionOnList node branches)
  | loop _ body => exact node _ (inductionOnList node body)
  | interruptible _ body interrupts =>
      apply node
      intro child member
      rcases List.mem_append.mp member with inBody | inInterrupts
      · exact inductionOnList node body child inBody
      · exact inductionOnInterrupts node interrupts child inInterrupts
  | exchange _ | perform _ | jump _ | invoke _ =>
      exact node _ (fun _ member => absurd member List.not_mem_nil)

theorem inductionOnList {motive : Protocol → Prop}
    (node : ∀ protocol : Protocol,
      (∀ child ∈ protocol.children, motive child) → motive protocol)
    (protocols : List Protocol) : ∀ child ∈ protocols, motive child := by
  match protocols with
  | [] => exact fun _ member => absurd member List.not_mem_nil
  | head :: tail =>
      intro child member
      rcases List.mem_cons.mp member with here | later
      · rw [here]
        exact inductionOnChildren node head
      · exact inductionOnList node tail child later

theorem inductionOnInterrupts {motive : Protocol → Prop}
    (node : ∀ protocol : Protocol,
      (∀ child ∈ protocol.children, motive child) → motive protocol)
    (interrupts : List (Interrupt Protocol)) :
    ∀ child ∈ interrupts.flatMap Interrupt.body, motive child := by
  match interrupts with
  | [] => exact fun _ member => absurd member List.not_mem_nil
  | ⟨_, body⟩ :: tail =>
      intro child member
      rcases List.mem_append.mp member with here | later
      · exact inductionOnList node body child here
      · exact inductionOnInterrupts node tail child later

end

/-- Induction with one case for each kind of node. -/
@[elab_as_elim, induction_eliminator]
theorem inductionByKind {motive : Protocol → Prop}
    (compose : ∀ how parts, (∀ part ∈ parts, motive part) →
      motive (.compose how parts))
    (exchange : ∀ interaction, motive (.exchange interaction))
    (perform : ∀ action, motive (.perform action))
    (choice : ∀ chooser branches, (∀ branch ∈ branches, motive branch) →
      motive (.choice chooser branches))
    (loop : ∀ head body, (∀ part ∈ body, motive part) →
      motive (.loop head body))
    (jump : ∀ label, motive (.jump label))
    (invoke : ∀ call, motive (.invoke call))
    (interruptible : ∀ scope body interrupts, (∀ part ∈ body, motive part) →
      (∀ part ∈ interrupts.flatMap Interrupt.body, motive part) →
        motive (.interruptible scope body interrupts))
    (protocol : Protocol) : motive protocol := by
  apply inductionOnChildren
  intro protocol ih
  cases protocol with
  | compose how parts => exact compose how parts ih
  | exchange interaction => exact exchange interaction
  | perform action => exact perform action
  | choice chooser branches => exact choice chooser branches ih
  | loop head body => exact loop head body ih
  | jump label => exact jump label
  | invoke call => exact invoke call
  | interruptible scope body interrupts =>
      apply interruptible
      · intro part member
        exact ih part (List.mem_append_left _ member)
      · intro part member
        exact ih part (List.mem_append_right _ member)

theorem sizeOf_lt_of_mem_children {protocol child : Protocol}
    (member : child ∈ protocol.children) : sizeOf child < sizeOf protocol := by
  cases protocol with
  | compose _ siblings | choice _ siblings | loop _ siblings =>
      have smaller : sizeOf child < sizeOf siblings :=
        List.sizeOf_lt_of_mem member
      simp only [compose.sizeOf_spec, choice.sizeOf_spec, loop.sizeOf_spec]
      omega
  | interruptible scope body interrupts =>
      rw [interruptible.sizeOf_spec]
      rcases List.mem_append.mp member with inBody | inHandlers
      · have smaller := List.sizeOf_lt_of_mem inBody
        omega
      · obtain ⟨⟨trigger, handler⟩, interrupting, inHandler⟩ :=
          List.mem_flatMap.mp inHandlers
        have smaller : sizeOf child < sizeOf handler :=
          List.sizeOf_lt_of_mem inHandler
        have within := List.sizeOf_lt_of_mem interrupting
        rw [Interrupt.mk.sizeOf_spec] at within
        omega
  | exchange | perform | jump | invoke => cases member

end Protocol

end Multiparty
