import Multiparty.Proofs.Reordering

/-!
# The reordered children of equivalent nodes

Equivalent nodes have equally many actions in front of their children, although
the right ones only have to agree with left ones in another order.  Hence they
also have equally many children that may be reordered, and the two ways in which
nodes may be equivalent are one: the children that may be reordered, if any, are
rearranged, and the others correspond by their positions.
-/

namespace Multiparty

namespace Protocol

variable {config : Config}

/-- The leading run goes beyond a position if there are actions up to it. -/
theorem lt_leadingRun_of_actions {nodes : List Protocol} {position : Nat}
    (actions : ∀ earlier ≤ position, ∃ action,
      nodes[earlier]? = some (perform action)) :
    position < leadingRun nodes := by
  induction nodes generalizing position with
  | nil =>
      obtain ⟨action, found⟩ := actions 0 (Nat.zero_le position)
      cases found
  | cons head tail ih =>
      obtain ⟨action, found⟩ := actions 0 (Nat.zero_le position)
      cases found
      rw [leadingRun, List.takeWhile_cons_of_pos rfl, List.length_cons]
      cases position with
      | zero => exact Nat.succ_pos _
      | succ position =>
          apply Nat.succ_lt_succ
          apply ih
          intro earlier before
          exact actions (earlier + 1) (Nat.succ_le_succ before)

/-- The node at the end of the leading run is no action. -/
theorem isAction_getElem_leadingRun {nodes : List Protocol} {node : Protocol}
    (found : nodes[leadingRun nodes]? = some node) : node.isAction = false := by
  rw [Bool.eq_false_iff]
  intro isAction
  obtain ⟨action, isSome⟩ := Option.isSome_iff_exists.mp isAction
  rw [action?_eq_some_iff] at isSome
  have beyond : leadingRun nodes < leadingRun nodes := by
    apply lt_leadingRun_of_actions
    intro earlier before
    rcases Nat.lt_or_eq_of_le before with inside | rfl
    · exact exists_action_of_lt_leadingRun inside
    · exact ⟨action, isSome ▸ found⟩
  exact Nat.lt_irrefl _ beyond

theorem isAction_of_sameHeader {left right : Protocol}
    (header : config.sameHeader left right = true) :
    left.isAction = right.isAction := by
  cases Config.sameHeader_iff.mp header <;> rfl

namespace Equivalent

variable {left right : Protocol}

theorem leadingRun_le (equivalent : Equivalent config left right) :
    leadingRun left.children ≤ leadingRun right.children := by
  obtain ⟨target, rearranged⟩ := equivalent.exists_rearrangement
  apply le_of_forall_lt
  intro position inside
  apply lt_leadingRun_of_actions
  intro earlier before
  -- Some left action takes the place in question.
  let place : Fin (leadingRun left.children) := ⟨earlier, by omega⟩
  obtain ⟨action, found⟩ :=
    exists_action_of_lt_leadingRun (target.symm place).isLt
  obtain ⟨counterpart, located, _⟩ := rearranged.exists_counterpart found
  rw [Equiv.apply_symm_apply] at located
  exact ⟨counterpart, located⟩

theorem leadingRun_eq (equivalent : Equivalent config left right) :
    leadingRun left.children = leadingRun right.children := by
  apply Nat.le_antisymm equivalent.leadingRun_le
  apply Nat.le_of_not_lt
  intro longer
  obtain ⟨action, rightFound⟩ := exists_action_of_lt_leadingRun longer
  have inside : leadingRun left.children < left.children.length := by
    rw [length_children_of_sameHeader equivalent.header]
    exact (List.getElem?_eq_some_iff.mp rightFound).1
  have leftFound := List.getElem?_eq_getElem inside
  have notAction := isAction_getElem_leadingRun leftFound
  obtain ⟨rightChild, located, children⟩ := equivalent.child leftFound notAction
  cases rightFound.symm.trans located
  rw [isAction_of_sameHeader children.header] at notAction
  cases notAction

theorem windowSize_eq (equivalent : Equivalent config left right) :
    config.windowSize left = config.windowSize right := by
  have sameRun := equivalent.leadingRun_eq
  cases Config.sameHeader_iff.mp equivalent.header with
  | recursion | forEach =>
      simp only [children] at sameRun
      rw [Config.windowSize, Config.windowSize, length_leadingActions,
        length_leadingActions, sameRun]
  | _ => rfl

end Equivalent

/-- Nodes are equivalent if they agree, the children that may be reordered are
rearranged, and the others are equivalent position by position. -/
theorem equivalent_iff {left right : Protocol} :
    Equivalent config left right ↔
      config.sameHeader left right = true ∧
        (∃ target : Equiv.Perm (Fin (config.windowSize left)),
          config.Rearrangement left.children right.children target) ∧
        ∀ position leftChild rightChild, config.windowSize left ≤ position →
          left.children[position]? = some leftChild →
            right.children[position]? = some rightChild →
              Equivalent config leftChild rightChild := by
  constructor
  · intro equivalent
    cases equivalent with
    | inOrder header notReordered below =>
        have size := windowSize_of_not_reordered notReordered
        refine ⟨header, ?_, ?_⟩
        · rw [size]
          exact ⟨Equiv.refl _, fun i => i.elim0, fun i => i.elim0⟩
        · intro position leftChild rightChild _
          exact below position leftChild rightChild
    | rearranged header reorders isLoop count opens rearranged below =>
        have size := windowSize_of_reordered reorders isLoop
        rw [← count] at size
        rw [size]
        exact ⟨header, ⟨_, rearranged⟩, below⟩
  · intro ⟨header, ⟨target, rearranged⟩, below⟩
    by_cases reordered : config.reorders = true ∧ left.isLoop = true ∧
        0 < leadingRun left.children
    · obtain ⟨reorders, isLoop, opens⟩ := reordered
      have size := windowSize_of_reordered reorders isLoop
      exact .rearranged header reorders isLoop size (size ▸ opens) rearranged
        below
    · have size := windowSize_of_not_reordered reordered
      refine .inOrder header reordered ?_
      intro position leftChild rightChild
      exact below position leftChild rightChild (size ▸ Nat.zero_le position)

end Protocol

end Multiparty
