import Multiparty.Comparison.Basic
import Multiparty.Proofs.Agreement
import Multiparty.Proofs.Rearrangement
import Multiparty.Proofs.Walk

/-!
# The relation that comparison decides

Two trees are equivalent if their nodes agree position by position, except that
the actions that open the body of a loop may be rearranged.  Trees without a
mark are equivalent.  Conversely, equivalent trees are not marked if every send
has a receiver and no peer has an index range that is known to be empty: then
agreeing actions always share a channel, and the greedy search cannot go wrong.
-/

namespace Multiparty

theorem Outcome.identical_ofMarks_iff {marks : List Mark} :
    (Outcome.ofMarks marks).identical = true ↔ marks = [] := by
  simp only [Outcome.identical, Bool.and_eq_true, List.isEmpty_iff]
  constructor
  · rintro ⟨leftEmpty, rightEmpty⟩
    rw [List.eq_nil_iff_forall_not_mem]
    rintro ⟨side, path⟩ member
    have marked := Outcome.mem_marked_ofMarks.mpr member
    cases side <;> simp [Outcome.marked, leftEmpty, rightEmpty] at marked
  · rintro rfl
    exact ⟨rfl, rfl⟩

namespace Protocol

variable {config : Config}

theorem windowSize_of_reordered {left : Protocol}
    (reorders : config.reorders = true) (isLoop : left.isLoop = true) :
    config.windowSize left = leadingRun left.children := by
  cases left with
  | loop =>
      rw [Config.windowSize, if_pos reorders, length_leadingActions, children]
  | _ => cases isLoop

theorem windowSize_of_not_reordered {left : Protocol}
    (notReordered : ¬(config.reorders = true ∧ left.isLoop = true ∧
      0 < leadingRun left.children)) :
    config.windowSize left = 0 := by
  cases left with
  | loop head body =>
      rw [Config.windowSize]
      split
      case isTrue reorders =>
        rw [length_leadingActions]
        exact Nat.eq_zero_of_not_pos fun opens =>
          notReordered ⟨reorders, rfl, opens⟩
      case isFalse => rfl
  | _ => rfl

/-- The children that may be reordered are all actions. -/
theorem leadingActions_take_windowSize (protocol : Protocol) :
    leadingActions (protocol.children.take (config.windowSize protocol)) =
      (protocol.children.take (config.windowSize protocol)).filterMap
        action? := by
  cases protocol with
  | loop head body =>
      rw [Config.windowSize, children]
      split
      case isTrue =>
        rw [take_leadingActions, leadingActions_map_perform, List.filterMap_map]
        exact List.filterMap_some.symm
      case isFalse => rfl
  | _ => rfl

/-- If there is something to reorder, the leading actions are searched for
among equally many nodes on the right. -/
theorem windowMarks_eq {left right : Protocol}
    (size : config.windowSize left = leadingRun left.children) :
    config.windowMarks left right =
      config.matchActions 0
        (positionedActions
          (right.children.take (leadingActions left.children).length))
        (leadingActions left.children) := by
  rw [← length_leadingActions] at size
  simp only [Config.windowMarks, size, take_leadingActions,
    leadingActions_map_perform]

theorem windowMarks_eq_nil {left right : Protocol}
    (size : config.windowSize left = 0) : config.windowMarks left right = [] := by
  simp [Config.windowMarks, size, leadingActions, Config.matchActions]

theorem diffList_eq_nil_iff {start position : Nat}
    {lefts rights : List Protocol} :
    diffList config start position lefts rights = [] ↔
      ∀ offset left right, start ≤ position + offset →
        lefts[offset]? = some left → rights[offset]? = some right →
          diff config left right = [] := by
  induction lefts generalizing position rights with
  | nil => simp [diffList]
  | cons head tail ih =>
      cases rights with
      | nil => simp [diffList]
      | cons right rights =>
          simp only [diffList, List.append_eq_nil_iff, ih]
          constructor
          · rintro ⟨first, later⟩ offset left right reached leftFound rightFound
            cases offset with
            | zero =>
                cases leftFound
                cases rightFound
                rw [if_neg (by omega), List.map_eq_nil_iff] at first
                exact first
            | succ offset =>
                exact later offset left right (by omega) leftFound rightFound
          · intro unmarked
            constructor
            · split
              case isTrue => rfl
              case isFalse reached =>
                rw [List.map_eq_nil_iff]
                exact unmarked 0 head right (by omega) rfl rfl
            · intro offset left right reached leftFound rightFound
              exact unmarked (offset + 1) left right (by omega) leftFound
                rightFound

/-- Two trees are not marked exactly if their nodes agree, the leading actions
find their counterparts, and the other children are not marked. -/
theorem diff_eq_nil_iff {left right : Protocol} :
    diff config left right = [] ↔
      config.sameHeader left right = true ∧
        config.windowMarks left right = [] ∧
          ∀ position leftChild rightChild, config.windowSize left ≤ position →
            left.children[position]? = some leftChild →
              right.children[position]? = some rightChild →
                diff config leftChild rightChild = [] := by
  rw [diff_eq]
  split
  case isTrue header =>
    rw [List.append_eq_nil_iff, diffList_eq_nil_iff]
    simp [header]
  case isFalse header => simp [header]

theorem compare_eq_ok_iff {left right : Protocol} {outcome : Outcome} :
    compare config left right = .ok outcome ↔
      left.unresolvedLabel? = none ∧ right.unresolvedLabel? = none ∧
        .ofMarks (diff config left right) = outcome := by
  unfold compare
  cases left.unresolvedLabel? <;> cases right.unresolvedLabel? <;> simp

theorem exists_identical_of_diff_eq_nil {left right : Protocol}
    (leftBound : left.unresolvedLabel? = none)
    (rightBound : right.unresolvedLabel? = none)
    (unmarked : diff config left right = []) :
    ∃ outcome, compare config left right = .ok outcome ∧
      outcome.identical = true :=
  ⟨_, compare_eq_ok_iff.mpr ⟨leftBound, rightBound, rfl⟩,
    Outcome.identical_ofMarks_iff.mpr unmarked⟩

/-- Trees whose nodes agree position by position, up to a rearrangement of the
actions that open the body of a loop. -/
inductive Equivalent (config : Config) : Protocol → Protocol → Prop where
  | inOrder {left right : Protocol} :
      config.sameHeader left right = true →
      ¬(config.reorders = true ∧ left.isLoop = true ∧
        0 < leadingRun left.children) →
      (∀ (position : Nat) (leftChild rightChild : Protocol),
        left.children[position]? = some leftChild →
          right.children[position]? = some rightChild →
            Equivalent config leftChild rightChild) →
      Equivalent config left right
  | rearranged {left right : Protocol} {size : Nat}
      {target : Equiv.Perm (Fin size)} :
      config.sameHeader left right = true →
      config.reorders = true → left.isLoop = true →
      size = leadingRun left.children → 0 < size →
      config.Rearrangement left.children right.children target →
      (∀ (position : Nat) (leftChild rightChild : Protocol), size ≤ position →
        left.children[position]? = some leftChild →
          right.children[position]? = some rightChild →
            Equivalent config leftChild rightChild) →
      Equivalent config left right

theorem getElem?_of_leadingActions {nodes : List Protocol} {position : Nat}
    {action : Action} (found : (leadingActions nodes)[position]? = some action) :
    nodes[position]? = some (perform action) := by
  have inside : position < (leadingActions nodes).length :=
    (List.getElem?_eq_some_iff.mp found).1
  rw [← List.getElem?_take_of_lt inside, take_leadingActions,
    List.getElem?_map, found, Option.map_some]

theorem equivalent_of_diff_eq_nil {left right : Protocol}
    (unmarked : diff config left right = []) :
    Equivalent config left right := by
  induction left using inductionOnChildren generalizing right with
  | node left ih =>
      obtain ⟨header, window, rest⟩ := diff_eq_nil_iff.mp unmarked
      by_cases reordered : config.reorders = true ∧ left.isLoop = true ∧
          0 < leadingRun left.children
      · obtain ⟨reorders, isLoop, opens⟩ := reordered
        have size := windowSize_of_reordered reorders isLoop
        rw [windowMarks_eq size, Config.matchActions_eq_nil_iff] at window
        obtain ⟨pairs, matched, paired⟩ := window
        have count : pairs.length = leadingRun left.children := by
          rw [← length_leadingActions, ← paired, List.length_map]
        rw [← paired, List.length_map] at matched
        have located : ∀ i : Fin pairs.length,
            left.children[i.val]? = some (perform pairs[i].1) := by
          intro i
          apply getElem?_of_leadingActions
          simp [← paired]
        obtain ⟨target, rearranged⟩ := matched.exists_rearrangement located
        refine .rearranged header reorders isLoop count (by omega) rearranged ?_
        intro position leftChild rightChild beyond leftFound rightFound
        exact ih leftChild (List.mem_of_getElem? leftFound)
          (rest position _ _ (by omega) leftFound rightFound)
      · have size := windowSize_of_not_reordered reordered
        refine .inOrder header reordered ?_
        intro position leftChild rightChild leftFound rightFound
        exact ih leftChild (List.mem_of_getElem? leftFound)
          (rest position _ _ (by omega) leftFound rightFound)

/-- Every action of a tree is well addressed. -/
def WellAddressed (protocol : Protocol) : Prop :=
  ∀ path action, protocol.at? path = some (perform action) →
    action.WellAddressed

theorem wellAddressed_iff_preorder {protocol : Protocol} :
    protocol.WellAddressed ↔
      ∀ entry ∈ protocol.preorder, ∀ action ∈ entry.2.action?,
        action.WellAddressed := by
  rw [← forall_at?_iff_preorder fun node =>
    ∀ action ∈ node.action?, action.WellAddressed]
  constructor
  · intro addressed path node located action isAction
    apply addressed path
    rw [located, action?_eq_some_iff.mp isAction]
  · intro everywhere path action located
    exact everywhere path (perform action) located action rfl

instance : DecidablePred WellAddressed := fun _ =>
  decidable_of_iff _ wellAddressed_iff_preorder.symm

theorem WellAddressed.child {protocol child : Protocol} {position : Nat}
    (addressed : protocol.WellAddressed)
    (found : protocol.children[position]? = some child) :
    child.WellAddressed := by
  intro path action located
  apply addressed (position :: path)
  simp [at?, child?, found, located]

theorem wellAddressed_of_children {protocol : Protocol}
    (here : ∀ action, protocol = perform action → action.WellAddressed)
    (below : ∀ child ∈ protocol.children, child.WellAddressed) :
    protocol.WellAddressed := by
  intro path action located
  cases path with
  | nil => exact here action (Option.some.inj located)
  | cons position path =>
      rw [at?, Option.bind_eq_some_iff] at located
      obtain ⟨child, found, located⟩ := located
      exact below child (List.mem_of_getElem? found) path action located

theorem diff_eq_nil_of_equivalent {left right : Protocol}
    (equivalent : Equivalent config left right)
    (addressed : left.WellAddressed) : diff config left right = [] := by
  induction equivalent with
  | @inOrder left right header notReordered _ ih =>
      rw [diff_eq_nil_iff]
      refine ⟨header,
        windowMarks_eq_nil (windowSize_of_not_reordered notReordered), ?_⟩
      intro position leftChild rightChild _ leftFound rightFound
      exact ih position _ _ leftFound rightFound (addressed.child leftFound)
  | @rearranged left right size target header reorders isLoop count _ rearranged
      _ ih =>
      have windowed := windowSize_of_reordered reorders isLoop
      rw [← length_leadingActions] at count
      subst count
      rw [diff_eq_nil_iff]
      refine ⟨header, ?_, ?_⟩
      · rw [windowMarks_eq windowed]
        apply Config.matchActions_of_rearrangement rearranged
        · intro i
          apply getElem?_of_leadingActions
          simp
        · intro action member right same
          obtain ⟨position, found⟩ := List.mem_iff_getElem?.mp member
          have addressedAction : action.WellAddressed :=
            (addressed.child (getElem?_of_leadingActions found)) [] action rfl
          exact addressedAction.blocks same
      · intro position leftChild rightChild beyond leftFound rightFound
        refine ih position _ _ ?_ leftFound rightFound (addressed.child leftFound)
        rw [length_leadingActions, ← windowed]
        exact beyond

/-- Comparison finds no difference only between equivalent trees, and finds
none between equivalent trees whose actions are well addressed; it is enough
that those on the left are. -/
theorem compare_decides_equivalence (config : Config) (left right : Protocol)
    (leftBound : left.unresolvedLabel? = none)
    (rightBound : right.unresolvedLabel? = none) :
    ∃ outcome, compare config left right = .ok outcome ∧
      (outcome.identical = true → Equivalent config left right) ∧
      (left.WellAddressed → Equivalent config left right →
        outcome.identical = true) := by
  refine ⟨.ofMarks (diff config left right),
    compare_eq_ok_iff.mpr ⟨leftBound, rightBound, rfl⟩, ?_, ?_⟩
  · intro identical
    exact equivalent_of_diff_eq_nil (Outcome.identical_ofMarks_iff.mp identical)
  · intro addressed equivalent
    exact Outcome.identical_ofMarks_iff.mpr
      (diff_eq_nil_of_equivalent equivalent addressed)

/-- A send to `B` and a receive from `C` are exchanged in the body of a loop
whose label is another one on the right. -/
theorem compare_decides_equivalence_exchanged :
    let send : Action :=
      ⟨.send, { receivers := [{ name := "B" }], message := { label := "M" } }⟩
    let recv : Action :=
      ⟨.recv, { sender := some { name := "C" }, message := { label := "N" } }⟩
    let left : Protocol := root [loop (.recursion "X")
      [perform send, perform recv, jump "X"]]
    let right : Protocol := root [loop (.recursion "Y")
      [perform recv, perform send, jump "Y"]]
    left.unresolvedLabel? = none ∧ right.unresolvedLabel? = none ∧
      left.WellAddressed ∧ Equivalent {} left right ∧
        ∃ outcome, compare {} left right = .ok outcome ∧
          outcome.identical = true := by
  intro send recv left right
  have sendAddressed : send.WellAddressed := by
    constructor <;> simp [send, Action.peers]
  have recvAddressed : recv.WellAddressed := by
    constructor <;> simp [recv, Action.peers]
  have bodyAddressed : ∀ node ∈ [perform send, perform recv, jump "X"],
      node.WellAddressed := by
    intro node member
    apply wellAddressed_of_children
    · rintro action rfl
      have either : action = send ∨ action = recv := by simpa using member
      rcases either with rfl | rfl
      · exact sendAddressed
      · exact recvAddressed
    · simp only [List.mem_cons, List.not_mem_nil, or_false] at member
      rcases member with rfl | rfl | rfl <;> simp [children]
  have addressed : left.WellAddressed := by
    apply wellAddressed_of_children (by simp [left])
    simp only [left, children, List.forall_mem_singleton]
    exact wellAddressed_of_children (by simp) bodyAddressed
  obtain ⟨outcome, compared, sound, complete⟩ :=
    compare_decides_equivalence {} left right rfl rfl
  have identical : outcome.identical = true := by
    obtain ⟨_, _, rfl⟩ := compare_eq_ok_iff.mp compared
    decide
  exact ⟨rfl, rfl, addressed, sound identical, outcome, compared,
    complete addressed (sound identical)⟩

end Protocol

end Multiparty
