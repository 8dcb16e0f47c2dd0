import Multiparty.Proofs.Marks
import Multiparty.Proofs.Reordering

/-!
# Where marks stand

Marks are found from the outermost node down: a node that disagrees with its
counterpart is marked and nothing below it is.  If no action may be reordered,
the marked paths are therefore those of the topmost disagreements, the same on
both sides.  In general an action may also be marked because another one blocks
it or because there is nothing left for it to take.  Still every mark leads to a
node of its side, no mark stands below another one, and each mark on the right
comes with one on the left.
-/

namespace Multiparty

variable {config : Config}

namespace Protocol

/-! ## Marks without reordering -/

/-- A path leads to nodes on both sides, which agree or disagree as told. -/
def HeadersAt (config : Config) (left right : Protocol) (agree : Bool)
    (path : Path) : Prop :=
  ∃ leftNode rightNode, left.at? path = some leftNode ∧
    right.at? path = some rightNode ∧
      config.sameHeader leftNode rightNode = agree

/-- A path leads to nodes that disagree, below nodes that all agree. -/
structure TopmostDisagreement (config : Config) (left right : Protocol)
    (path : Path) : Prop where
  disagree : HeadersAt config left right false path
  above : ∀ front, front <+: path → front ≠ path →
    HeadersAt config left right true front

theorem headersAt_nil_iff {left right : Protocol} {agree : Bool} :
    HeadersAt config left right agree [] ↔
      config.sameHeader left right = agree := by
  simp [HeadersAt, at?]

theorem headersAt_child_iff {left right leftChild rightChild : Protocol}
    {agree : Bool} {position : Nat} {rest : Path}
    (leftFound : left.children[position]? = some leftChild)
    (rightFound : right.children[position]? = some rightChild) :
    HeadersAt config left right agree (position :: rest) ↔
      HeadersAt config leftChild rightChild agree rest := by
  simp [HeadersAt, at?, child?, leftFound, rightFound]

theorem HeadersAt.exists_children {left right : Protocol} {agree : Bool}
    {position : Nat} {rest : Path}
    (headers : HeadersAt config left right agree (position :: rest)) :
    ∃ leftChild rightChild, left.children[position]? = some leftChild ∧
      right.children[position]? = some rightChild := by
  obtain ⟨_, _, leftLocated, rightLocated, _⟩ := headers
  obtain ⟨leftChild, leftFound, _⟩ := at?_cons_eq_some_iff.mp leftLocated
  obtain ⟨rightChild, rightFound, _⟩ := at?_cons_eq_some_iff.mp rightLocated
  exact ⟨leftChild, rightChild, leftFound, rightFound⟩

theorem topmostDisagreement_nil_iff {left right : Protocol} :
    TopmostDisagreement config left right [] ↔
      config.sameHeader left right = false := by
  constructor
  · intro topmost
    exact headersAt_nil_iff.mp topmost.disagree
  · intro differ
    refine ⟨headersAt_nil_iff.mpr differ, ?_⟩
    intro front above proper
    exact absurd (List.prefix_nil.mp above) proper

theorem topmostDisagreement_cons_iff {left right : Protocol} {position : Nat}
    {rest : Path} :
    TopmostDisagreement config left right (position :: rest) ↔
      config.sameHeader left right = true ∧ ∃ leftChild rightChild,
        left.children[position]? = some leftChild ∧
          right.children[position]? = some rightChild ∧
            TopmostDisagreement config leftChild rightChild rest := by
  constructor
  · intro topmost
    obtain ⟨disagree, above⟩ := topmost
    obtain ⟨leftChild, rightChild, leftFound, rightFound⟩ :=
      disagree.exists_children
    rw [headersAt_child_iff leftFound rightFound] at disagree
    have agree := headersAt_nil_iff.mp (above [] List.nil_prefix (by simp))
    refine ⟨agree, leftChild, rightChild, leftFound, rightFound, disagree, ?_⟩
    intro front within proper
    rw [← headersAt_child_iff leftFound rightFound]
    apply above
    · exact (List.prefix_cons_inj position).mpr within
    · simpa using proper
  · intro topmost
    obtain ⟨agree, leftChild, rightChild, leftFound, rightFound, disagree,
      above⟩ := topmost
    refine ⟨(headersAt_child_iff leftFound rightFound).mpr disagree, ?_⟩
    intro front within proper
    rcases List.prefix_cons_iff.mp within with rfl | ⟨shorter, rfl, inRest⟩
    · exact headersAt_nil_iff.mpr agree
    · rw [headersAt_child_iff leftFound rightFound]
      exact above shorter inRest (by simpa using proper)

/-- Without reordering the topmost disagreements are marked, on both sides. -/
theorem mem_diff_iff_topmostDisagreement (inPlace : config.reorders = false)
    {left right : Protocol} {side : Side} {path : Path} :
    ⟨side, path⟩ ∈ diff config left right ↔
      TopmostDisagreement config left right path := by
  induction path generalizing left right with
  | nil => rw [mem_diff_nil_iff, topmostDisagreement_nil_iff]
  | cons position rest ih =>
      have noWindow : config.windowSize left = 0 :=
        windowSize_of_not_reordered (by simp [inPlace])
      rw [mem_diff_cons_iff, topmostDisagreement_cons_iff,
        windowMarks_eq_nil noWindow, noWindow]
      simp [ih]

/-- Without reordering a path is marked on one side exactly if it is marked on
the other one, namely if the nodes there are a topmost disagreement. -/
theorem topmost_disagreements_are_marked (config : Config)
    (inPlace : config.reorders = false) (left right : Protocol)
    (leftBound : left.unresolvedLabel? = none)
    (rightBound : right.unresolvedLabel? = none) :
    ∃ outcome, compare config left right = .ok outcome ∧ ∀ path,
      (outcome.isMarked .left path = true ↔
        outcome.isMarked .right path = true) ∧
      (outcome.isMarked .left path = true ↔
        TopmostDisagreement config left right path) := by
  refine ⟨.ofMarks (diff config left right),
    compare_eq_ok_iff.mpr ⟨leftBound, rightBound, rfl⟩, ?_⟩
  intro path
  simp only [Outcome.isMarked_ofMarks_iff,
    mem_diff_iff_topmostDisagreement inPlace, and_self]

/-- Two actions in a loop are exchanged, and a message in a branch is another
one. -/
theorem topmost_disagreements_are_marked_in_branches :
    let config : Config := { reorders := false }
    let send (label : String) : Protocol :=
      perform ⟨.send, { receivers := [⟨"B", []⟩], message := { label } }⟩
    let recv : Protocol := perform ⟨.recv, { sender := some ⟨"C", []⟩ }⟩
    let left : Protocol := root
      [loop (.recursion "X") [send "M", recv, jump "X"],
        choice ⟨"A", []⟩ [block [], block [send "N"]]]
    let right : Protocol := root
      [loop (.recursion "Y") [recv, send "M", jump "Y"],
        choice ⟨"A", []⟩ [block [], block [send "P"]]]
    let outcome : Outcome :=
      { left := [[0, 0], [0, 1], [1, 1, 0]],
        right := [[0, 0], [0, 1], [1, 1, 0]] }
    (config.reorders = false ∧ left.unresolvedLabel? = none ∧
      right.unresolvedLabel? = none) ∧
    compare config left right = .ok outcome ∧
    TopmostDisagreement config left right [1, 1, 0] ∧
    ¬TopmostDisagreement config left right [1, 1] := by
  intro config send recv left right outcome
  have found : compare config left right = .ok outcome :=
    compare_eq_ok_iff.mpr ⟨rfl, rfl, by decide⟩
  obtain ⟨_, compared, marked⟩ :=
    topmost_disagreements_are_marked config rfl left right rfl rfl
  rw [found] at compared
  cases compared
  have here : outcome.isMarked .left [1, 1, 0] = true := by decide
  have notAbove : outcome.isMarked .left [1, 1] ≠ true := by decide
  refine ⟨⟨rfl, rfl, rfl⟩, found, (marked [1, 1, 0]).2.mp here, ?_⟩
  rw [← (marked [1, 1]).2]
  exact notAbove

end Protocol

/-! ## Marks in general -/

/-- The tree of a side. -/
def Side.tree (left right : Protocol) : Side → Protocol
  | .left => left
  | .right => right

namespace Protocol

/-- Every mark leads to a node of its side. -/
theorem exists_at?_of_mem_diff {left right : Protocol} {side : Side}
    {path : Path} (marked : ⟨side, path⟩ ∈ diff config left right) :
    ∃ node, (side.tree left right).at? path = some node := by
  induction path generalizing left right with
  | nil => exact ⟨side.tree left right, rfl⟩
  | cons position rest ih =>
      simp only [at?_cons_eq_some_iff]
      obtain ⟨agree, inWindow | below⟩ := mem_diff_cons_iff.mp marked
      · obtain ⟨onChild, rfl⟩ := inWindow
        have onLeft : position < left.children.length :=
          (Config.lt_windowSize_of_mem_windowMarks onChild).trans_le
            (windowSize_le_length_children left)
        have inside : position < (side.tree left right).children.length := by
          cases side with
          | left => exact onLeft
          | right => exact onLeft.trans_eq (length_children_of_sameHeader agree)
        exact ⟨_, _, List.getElem?_eq_getElem inside, rfl⟩
      · obtain ⟨_, leftChild, rightChild, leftFound, rightFound, member⟩ := below
        obtain ⟨node, located⟩ := ih member
        cases side with
        | left => exact ⟨node, leftChild, leftFound, located⟩
        | right => exact ⟨node, rightChild, rightFound, located⟩

/-- No mark stands below another one of its side. -/
theorem eq_of_prefix_of_mem_diff {left right : Protocol} {side : Side}
    {path other : Path} (marked : ⟨side, path⟩ ∈ diff config left right)
    (otherMarked : ⟨side, other⟩ ∈ diff config left right)
    (above : path <+: other) : path = other := by
  induction path generalizing left right other with
  | nil =>
      cases other with
      | nil => rfl
      | cons =>
          have agree := (mem_diff_cons_iff.mp otherMarked).1
          rw [mem_diff_nil_iff.mp marked] at agree
          cases agree
  | cons position rest ih =>
      obtain ⟨otherRest, rfl, within⟩ := List.cons_prefix_iff.mp above
      obtain ⟨agree, inWindow | below⟩ := mem_diff_cons_iff.mp marked
      · obtain ⟨onChild, rfl⟩ := inWindow
        have inside := Config.lt_windowSize_of_mem_windowMarks onChild
        obtain ⟨_, otherInWindow | otherBelow⟩ :=
          mem_diff_cons_iff.mp otherMarked
        · rw [otherInWindow.2]
        · exact absurd otherBelow.1 (Nat.not_le.mpr inside)
      · obtain ⟨beyond, leftChild, rightChild, leftFound, rightFound, member⟩ :=
          below
        rw [mem_diff_child_iff agree beyond leftFound rightFound] at otherMarked
        rw [ih member otherMarked within]

end Protocol

/-- The paths that a list of marks has on one side, in the order of the list. -/
def pathsOn (side : Side) (marks : List Mark) : List Path :=
  (marks.filter (·.side == side)).map Mark.path

section PathsOn

variable {side : Side}

theorem marked_ofMarks (side : Side) (marks : List Mark) :
    (Outcome.ofMarks marks).marked side = sortDistinct (pathsOn side marks) := by
  cases side <;> rfl

theorem mem_pathsOn_iff {marks : List Mark} {path : Path} :
    path ∈ pathsOn side marks ↔ ⟨side, path⟩ ∈ marks := by
  rw [← mem_sortDistinct, ← marked_ofMarks, Outcome.mem_marked_ofMarks]

@[simp]
theorem pathsOn_nil : pathsOn side [] = [] :=
  rfl

@[simp]
theorem pathsOn_append (front back : List Mark) :
    pathsOn side (front ++ back) = pathsOn side front ++ pathsOn side back := by
  simp [pathsOn]

@[simp]
theorem pathsOn_map_below (position : Nat) (marks : List Mark) :
    pathsOn side (marks.map (Mark.below position)) =
      (pathsOn side marks).map (List.cons position) := by
  simp [pathsOn, List.filter_map, Function.comp_def, Mark.below]

/-- At least as many marks are listed on the left as on the right. -/
def LeftHeavy (marks : List Mark) : Prop :=
  (pathsOn .right marks).length ≤ (pathsOn .left marks).length

theorem LeftHeavy.append {front back : List Mark} (first : LeftHeavy front)
    (second : LeftHeavy back) : LeftHeavy (front ++ back) := by
  rw [LeftHeavy, pathsOn_append, pathsOn_append, List.length_append,
    List.length_append]
  exact Nat.add_le_add first second

theorem LeftHeavy.below {marks : List Mark} (heavy : LeftHeavy marks)
    (position : Nat) : LeftHeavy (marks.map (Mark.below position)) := by
  rw [LeftHeavy, pathsOn_map_below, pathsOn_map_below, List.length_map,
    List.length_map]
  exact heavy

end PathsOn

namespace Config

/-- Left actions are marked from left to right, each at most once. -/
theorem sublist_pathsOn_left {position : Nat} {free : List (Nat × Action)}
    {lefts : List Action} :
    (pathsOn .left (config.matchActions position free lefts)).Sublist
      ((List.range' position lefts.length).map fun place => [place]) := by
  induction lefts generalizing position free with
  | nil => exact List.Sublist.refl _
  | cons left rest ih =>
      rw [matchActions, List.length_cons, List.range'_succ, List.map_cons]
      split
      · exact ih.cons _
      · exact ih.cons_cons _
      · exact ih.cons_cons _

/-- A right action is only marked together with a left action. -/
theorem leftHeavy_matchActions (position : Nat) (free : List (Nat × Action))
    (lefts : List Action) :
    LeftHeavy (config.matchActions position free lefts) := by
  induction lefts generalizing position free with
  | nil => exact Nat.le_refl _
  | cons left rest ih =>
      rw [matchActions]
      split
      · exact ih _ _
      · exact Nat.succ_le_succ (ih _ _)
      · exact Nat.le_succ_of_le (ih _ _)

end Config

namespace Protocol

theorem leftHeavy_diffList {start position : Nat} {lefts rights : List Protocol}
    (heavy : ∀ left ∈ lefts, ∀ right, LeftHeavy (diff config left right)) :
    LeftHeavy (diffList config start position lefts rights) := by
  induction lefts generalizing position rights with
  | nil => exact Nat.le_refl _
  | cons left lefts ih =>
      cases rights with
      | nil => exact Nat.le_refl _
      | cons right rights =>
          obtain ⟨here, later⟩ := List.forall_mem_cons.mp heavy
          rw [diffList]
          apply LeftHeavy.append _ (ih later)
          split
          · exact Nat.le_refl _
          · exact (here right).below position

/-- Each mark on the right comes with a mark on the left. -/
theorem leftHeavy_diff (left right : Protocol) :
    LeftHeavy (diff config left right) := by
  induction left using inductionOnChildren generalizing right with
  | node left ih =>
      rw [diff_eq]
      split
      case isTrue =>
        exact (Config.leftHeavy_matchActions _ _ _).append
          (leftHeavy_diffList ih)
      case isFalse => exact Nat.le_refl _

/-- Children from a position on are marked below paths that open with it or a
later one. -/
theorem exists_cons_of_mem_pathsOn_diffList {side : Side} {start position : Nat}
    {lefts rights : List Protocol} {path : Path}
    (marked : path ∈ pathsOn side (diffList config start position lefts rights)) :
    ∃ place rest, path = place :: rest ∧ position ≤ place ∧ start ≤ place := by
  rw [mem_pathsOn_iff, mem_diffList_iff] at marked
  obtain ⟨offset, _, _, inner, reached, _, _, _, same⟩ := marked
  cases same
  exact ⟨position + offset, inner.path, rfl, Nat.le_add_right _ _, reached⟩

theorem nodup_diffList_left {start position : Nat}
    {lefts rights : List Protocol}
    (distinct : ∀ left ∈ lefts, ∀ right,
      (pathsOn .left (diff config left right)).Nodup) :
    (pathsOn .left (diffList config start position lefts rights)).Nodup := by
  induction lefts generalizing position rights with
  | nil => simp [diffList]
  | cons left lefts ih =>
      cases rights with
      | nil => simp [diffList]
      | cons right rights =>
          obtain ⟨here, later⟩ := List.forall_mem_cons.mp distinct
          rw [diffList, pathsOn_append]
          apply List.Nodup.append _ (ih later)
          · intro path first tail
            obtain ⟨place, rest, rfl, after, _⟩ :=
              exists_cons_of_mem_pathsOn_diffList tail
            split at first
            case isTrue => cases first
            case isFalse =>
              rw [pathsOn_map_below, List.mem_map] at first
              obtain ⟨_, _, same⟩ := first
              cases same
              exact Nat.not_succ_le_self _ after
          · split
            case isTrue => exact List.nodup_nil
            case isFalse =>
              rw [pathsOn_map_below]
              exact (here right).map List.cons_injective

theorem nodup_diff_left (left right : Protocol) :
    (pathsOn .left (diff config left right)).Nodup := by
  induction left using inductionOnChildren generalizing right with
  | node left ih =>
      rw [diff_eq]
      split
      case isTrue =>
        rw [pathsOn_append]
        apply List.Nodup.append _ (nodup_diffList_left ih)
        · intro path inWindow below
          obtain ⟨place, rest, rfl, _, beyond⟩ :=
            exists_cons_of_mem_pathsOn_diffList below
          rw [mem_pathsOn_iff] at inWindow
          obtain ⟨position, inside, same⟩ :=
            Config.path_of_mem_windowMarks inWindow
          cases same
          exact Nat.not_le.mpr inside beyond
        · exact Config.sublist_pathsOn_left.nodup
            ((List.nodup_range' 1).map List.singleton_injective)
      case isFalse => exact List.nodup_singleton _

end Protocol

theorem nodup_sortDistinct (paths : List Path) : (sortDistinct paths).Nodup := by
  apply (pairwise_sortDistinct paths).imp
  intro path other before same
  rw [same] at before
  exact List.lt_irrefl other before

namespace Outcome

/-- Nothing is marked exactly if the trees are identical, and as soon as nothing
is marked on the left.  No path is marked twice on one side, every mark leads to
a node of its side, none stands below another one of its side, and there are at
least as many on the left as on the right. -/
structure WellLocated (left right : Protocol) (outcome : Outcome) : Prop where
  identical_iff : outcome.identical = true ↔ outcome.marks = []
  unmarked_iff : outcome.marks = [] ↔ outcome.marked .left = []
  distinct : ∀ side, (outcome.marked side).Nodup
  resolved : ∀ side, ∀ path ∈ outcome.marked side,
    ∃ node, (side.tree left right).at? path = some node
  topmost : ∀ side, ∀ path ∈ outcome.marked side,
    ∀ other ∈ outcome.marked side, path <+: other → path = other
  paired : (outcome.marked .right).length ≤ (outcome.marked .left).length

theorem identical_iff_marks_eq_nil {outcome : Outcome} :
    outcome.identical = true ↔ outcome.marks = [] := by
  simp [identical, marks]

/-- Where each mark on the right comes with one on the left, there is none at all
if there is none on the left. -/
theorem marks_eq_nil_iff {outcome : Outcome}
    (paired : (outcome.marked .right).length ≤ (outcome.marked .left).length) :
    outcome.marks = [] ↔ outcome.marked .left = [] := by
  simp only [marks, List.append_eq_nil_iff, List.map_eq_nil_iff]
  constructor
  · exact And.left
  · intro leftNone
    refine ⟨leftNone, List.eq_nil_of_length_eq_zero ?_⟩
    rw [leftNone] at paired
    exact Nat.eq_zero_of_le_zero paired

end Outcome

namespace Protocol

theorem length_marked_right_le_left (left right : Protocol) :
    ((Outcome.ofMarks (diff config left right)).marked .right).length ≤
      ((Outcome.ofMarks (diff config left right)).marked .left).length := by
  rw [marked_ofMarks, marked_ofMarks]
  calc (sortDistinct (pathsOn .right (diff config left right))).length
      ≤ (pathsOn .right (diff config left right)).length :=
        (List.subperm_of_subset (nodup_sortDistinct _)
          fun _ => mem_sortDistinct.mp).length_le
    _ ≤ (pathsOn .left (diff config left right)).length :=
        leftHeavy_diff left right
    _ ≤ (sortDistinct (pathsOn .left (diff config left right))).length :=
        (List.subperm_of_subset (nodup_diff_left left right)
          fun _ => mem_sortDistinct.mpr).length_le

/-- Whatever differs between two trees, the marks of the outcome are well
located, and noting them one by one leads to this outcome and its flag. -/
theorem outcomes_are_well_located (config : Config) (left right : Protocol)
    (leftBound : left.unresolvedLabel? = none)
    (rightBound : right.unresolvedLabel? = none) :
    ∃ outcome, compare config left right = .ok outcome ∧
      (diff config left right).foldl Findings.note {} =
        ⟨outcome.identical, outcome⟩ ∧
      outcome.WellLocated left right := by
  refine ⟨.ofMarks (diff config left right),
    compare_eq_ok_iff.mpr ⟨leftBound, rightBound, rfl⟩,
    Findings.foldl_note [] (diff config left right), ?_⟩
  have paired :
      ((Outcome.ofMarks (diff config left right)).marked .right).length ≤ _ :=
    length_marked_right_le_left left right
  exact {
    identical_iff := Outcome.identical_iff_marks_eq_nil
    unmarked_iff := Outcome.marks_eq_nil_iff paired
    distinct := by
      intro side
      rw [marked_ofMarks]
      exact nodup_sortDistinct _
    resolved := by
      intro side path marked
      rw [Outcome.mem_marked_ofMarks] at marked
      exact exists_at?_of_mem_diff marked
    topmost := by
      intro side path marked other otherMarked above
      rw [Outcome.mem_marked_ofMarks] at marked otherMarked
      exact eq_of_prefix_of_mem_diff marked otherMarked above
    paired := paired }

/-- On the left, one action of the loop is blocked, another one has no
counterpart, and the jump at the end disagrees with what stands there. -/
theorem outcomes_are_well_located_in_loops :
    let send (peer : String) : Protocol :=
      perform ⟨.send, { receivers := [⟨peer, []⟩] }⟩
    let recv : Protocol := perform ⟨.recv, { sender := some ⟨"B", []⟩ }⟩
    let left : Protocol :=
      root [loop (.recursion "X") [send "B", recv, send "C", jump "X"]]
    let right : Protocol :=
      root [loop (.recursion "X") [recv, send "B", send "D", block [jump "X"]]]
    let outcome : Outcome :=
      { left := [[0, 0], [0, 2], [0, 3]], right := [[0, 0], [0, 3]] }
    (left.unresolvedLabel? = none ∧ right.unresolvedLabel? = none) ∧
    compare {} left right = .ok outcome ∧
    (diff {} left right).foldl Findings.note {} = ⟨false, outcome⟩ ∧
    outcome.WellLocated left right := by
  intro send recv left right outcome
  have found : compare {} left right = .ok outcome :=
    compare_eq_ok_iff.mpr ⟨rfl, rfl, by decide⟩
  obtain ⟨_, compared, noted, located⟩ :=
    outcomes_are_well_located {} left right rfl rfl
  rw [found] at compared
  cases compared
  exact ⟨⟨rfl, rfl⟩, found, noted, located⟩

end Protocol

end Multiparty
