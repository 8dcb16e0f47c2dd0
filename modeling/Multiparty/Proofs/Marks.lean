import Mathlib.Data.List.Sort
import Multiparty.Proofs.Equivalence

/-!
# The marks of a comparison

A mark stands on the outermost node if the two nodes disagree.  Otherwise it
stands on a child that may be reordered, or below a pair of children that are
compared with each other.  An outcome is determined by the nodes that it marks,
as it lists them in increasing order.  So the marks may as well be noted one by
one, together with a flag that falls with the first of them.
-/

namespace Multiparty

section SortedList

variable {α : Type} [LT α] [DecidableLT α] [DecidableEq α]
  [Std.Trichotomous fun first second : α => first < second]
  [IsTrans α fun first second : α => first < second]

theorem pairwise_insertSorted {item : α} {items : List α}
    (sorted : items.Pairwise (· < ·)) :
    (insertSorted item items).Pairwise (· < ·) := by
  induction items with
  | nil => exact List.pairwise_singleton _ _
  | cons head tail ih =>
      obtain ⟨headFirst, tailSorted⟩ := List.pairwise_cons.mp sorted
      unfold insertSorted
      split
      case isTrue => exact sorted
      case isFalse different =>
        split
        case isTrue before =>
          refine List.pairwise_cons.mpr ⟨?_, sorted⟩
          intro later member
          rcases List.mem_cons.mp member with rfl | inTail
          · exact before
          · exact IsTrans.trans _ _ _ before (headFirst later inTail)
        case isFalse notBefore =>
          have after : head < item :=
            (trichotomous_of (· < ·) item head).resolve_left notBefore
              |>.resolve_left different
          refine List.pairwise_cons.mpr ⟨?_, ih tailSorted⟩
          intro later member
          rcases mem_insertSorted.mp member with rfl | inTail
          · exact after
          · exact headFirst later inTail

theorem pairwise_sortDistinct (items : List α) :
    (sortDistinct items).Pairwise (· < ·) := by
  induction items with
  | nil => exact .nil
  | cons head tail ih => exact pairwise_insertSorted ih

/-- Lists with the same members are sorted into the same list. -/
theorem sortDistinct_congr
    [Std.Asymm fun first second : α => first < second] {items others : List α}
    (same : ∀ item, item ∈ items ↔ item ∈ others) :
    sortDistinct items = sortDistinct others := by
  apply List.Pairwise.eq_of_mem_iff (pairwise_sortDistinct items)
    (pairwise_sortDistinct others)
  intro item
  rw [mem_sortDistinct, mem_sortDistinct]
  exact same item

end SortedList

namespace Outcome

theorem isMarked_ofMarks_iff {marks : List Mark} {side : Side} {path : Path} :
    (ofMarks marks).isMarked side path = true ↔ ⟨side, path⟩ ∈ marks := by
  rw [isMarked, List.contains_iff_mem, mem_marked_ofMarks]

theorem ofMarks_congr {marks others : List Mark}
    (same : ∀ mark, mark ∈ marks ↔ mark ∈ others) :
    ofMarks marks = ofMarks others := by
  have paths : ∀ side path,
      path ∈ (marks.filter (·.side == side)).map Mark.path ↔
        path ∈ (others.filter (·.side == side)).map Mark.path := by
    intro side path
    simp only [List.mem_map, List.mem_filter, same]
  rw [ofMarks, ofMarks, sortDistinct_congr (paths .left),
    sortDistinct_congr (paths .right)]

theorem insert_ofMarks (marks : List Mark) (mark : Mark) :
    (ofMarks marks).insert mark = ofMarks (marks ++ [mark]) := by
  have atFront : (ofMarks marks).insert mark = ofMarks (mark :: marks) := by
    obtain ⟨side, path⟩ := mark
    cases side <;> rfl
  rw [atFront]
  apply ofMarks_congr
  intro other
  rw [List.mem_cons, List.mem_append, List.mem_singleton, or_comm]

end Outcome

/-- Marks that are noted one by one, after others, add up to the outcome of them
all, and the flag says whether there is any. -/
theorem Findings.foldl_note (noted marks : List Mark) :
    marks.foldl note ⟨(Outcome.ofMarks noted).identical, .ofMarks noted⟩ =
      ⟨(Outcome.ofMarks (noted ++ marks)).identical,
        .ofMarks (noted ++ marks)⟩ := by
  induction marks generalizing noted with
  | nil => rw [List.foldl_nil, List.append_nil]
  | cons mark marks ih =>
      have marked :
          (Outcome.ofMarks (noted ++ [mark])).identical = false := by
        simp [Bool.eq_false_iff, Outcome.identical_ofMarks_iff]
      have step :
          note ⟨(Outcome.ofMarks noted).identical, .ofMarks noted⟩ mark =
            ⟨(Outcome.ofMarks (noted ++ [mark])).identical,
              .ofMarks (noted ++ [mark])⟩ := by
        rw [note, Outcome.insert_ofMarks, marked]
      rw [List.foldl_cons, step, ih, List.append_assoc, List.singleton_append]

variable {config : Config}

namespace Config

/-- The search is blocked by a free action. -/
theorem mem_of_search_eq_blocked {left : Action} {free : List (Nat × Action)}
    {position : Nat} (blocked : config.search left free = .blocked position) :
    ∃ right, (position, right) ∈ free := by
  induction free with
  | nil => cases blocked
  | cons head tail ih =>
      obtain ⟨place, right⟩ := head
      rw [search] at blocked
      split at blocked
      case isTrue => cases blocked
      case isFalse =>
        split at blocked
        case isTrue =>
          cases blocked
          exact ⟨right, List.mem_cons_self⟩
        case isFalse =>
          cases later : config.search left tail with
          | taken rest =>
              rw [later] at blocked
              cases blocked
          | blocked other =>
              rw [later] at blocked
              cases blocked
              obtain ⟨blocker, member⟩ := ih later
              exact ⟨blocker, List.mem_cons_of_mem _ member⟩
          | absent =>
              rw [later] at blocked
              cases blocked

/-- A mark stands on a left action or on a free right action. -/
theorem path_of_mem_matchActions {position : Nat} {free : List (Nat × Action)}
    {lefts : List Action} {mark : Mark}
    (member : mark ∈ config.matchActions position free lefts) :
    (∃ offset < lefts.length, mark.path = [position + offset]) ∨
      ∃ entry ∈ free, mark.path = [entry.1] := by
  induction lefts generalizing position free with
  | nil => cases member
  | cons left rest ih =>
      -- Marks of later actions; what is free then was free before.
      have later : ∀ others : List (Nat × Action), others ⊆ free →
          mark ∈ config.matchActions (position + 1) others rest →
          (∃ offset < (left :: rest).length, mark.path = [position + offset]) ∨
            ∃ entry ∈ free, mark.path = [entry.1] := by
        intro others within marked
        rcases ih marked with onLeft | onRight
        · obtain ⟨offset, inside, path⟩ := onLeft
          refine .inl ⟨offset + 1, Nat.succ_lt_succ inside, ?_⟩
          rw [path, Nat.add_assoc, Nat.add_comm 1]
        · obtain ⟨entry, inOthers, path⟩ := onRight
          exact .inr ⟨entry, within inOthers, path⟩
      have first : ∃ offset < (left :: rest).length,
          [position] = [position + offset] := ⟨0, Nat.succ_pos _, rfl⟩
      rw [matchActions] at member
      cases found : config.search left free with
      | taken others =>
          rw [found] at member
          obtain ⟨chosen, taken⟩ := search_eq_taken_iff.mp found
          exact later others taken.sublist.subset member
      | blocked blocker =>
          rw [found] at member
          rcases List.mem_cons.mp member with rfl | member
          · exact .inl first
          rcases List.mem_cons.mp member with rfl | member
          · obtain ⟨right, free⟩ := mem_of_search_eq_blocked found
            exact .inr ⟨(blocker, right), free, rfl⟩
          · exact later free (List.Subset.refl free) member
      | absent =>
          rw [found] at member
          rcases List.mem_cons.mp member with rfl | member
          · exact .inl first
          · exact later free (List.Subset.refl free) member

theorem path_of_mem_windowMarks {left right : Protocol} {mark : Mark}
    (member : mark ∈ config.windowMarks left right) :
    ∃ position < config.windowSize left, mark.path = [position] := by
  rcases path_of_mem_matchActions member with onLeft | onRight
  · obtain ⟨offset, inside, path⟩ := onLeft
    refine ⟨offset, ?_, by rw [path, Nat.zero_add]⟩
    rw [Protocol.leadingActions_take_windowSize] at inside
    have fewer := inside.trans_le (List.length_filterMap_le _ _)
    rw [List.length_take] at fewer
    omega
  · obtain ⟨⟨position, action⟩, free, path⟩ := onRight
    refine ⟨position, ?_, path⟩
    have found := Protocol.mem_positionedActions.mp free
    have inside := (List.getElem?_eq_some_iff.mp found).1
    rw [List.length_take] at inside
    omega

theorem lt_windowSize_of_mem_windowMarks {left right : Protocol}
    {side : Side} {position : Nat}
    (marked : ⟨side, [position]⟩ ∈ config.windowMarks left right) :
    position < config.windowSize left := by
  obtain ⟨_, inside, path⟩ := path_of_mem_windowMarks marked
  cases path
  exact inside

end Config

namespace Protocol

theorem mem_diffList_iff {start position : Nat} {lefts rights : List Protocol}
    {mark : Mark} :
    mark ∈ diffList config start position lefts rights ↔
      ∃ offset left right inner, start ≤ position + offset ∧
        lefts[offset]? = some left ∧ rights[offset]? = some right ∧
          inner ∈ diff config left right ∧
            mark = inner.below (position + offset) := by
  induction lefts generalizing position rights with
  | nil => simp [diffList]
  | cons head tail ih =>
      cases rights with
      | nil => simp [diffList]
      | cons right rights =>
          rw [diffList, List.mem_append, ih]
          constructor
          · intro marked
            rcases marked with here | later
            · split at here
              case isTrue => cases here
              case isFalse reached =>
                obtain ⟨inner, member, rfl⟩ := List.mem_map.mp here
                exact ⟨0, head, right, inner, Nat.le_of_not_lt reached, rfl, rfl,
                  member, rfl⟩
            · obtain ⟨offset, leftChild, rightChild, inner, reached, leftFound,
                rightFound, member, rfl⟩ := later
              refine ⟨offset + 1, leftChild, rightChild, inner, ?_, leftFound,
                rightFound, member, ?_⟩
              · omega
              · rw [Nat.add_assoc, Nat.add_comm 1]
          · intro marked
            obtain ⟨offset, leftChild, rightChild, inner, reached, leftFound,
              rightFound, member, rfl⟩ := marked
            cases offset with
            | zero =>
                cases leftFound
                cases rightFound
                have notBefore : ¬position < start := Nat.not_lt.mpr reached
                left
                rw [if_neg notBefore]
                exact List.mem_map_of_mem member
            | succ offset =>
                right
                refine ⟨offset, leftChild, rightChild, inner, ?_, leftFound,
                  rightFound, member, ?_⟩
                · omega
                · rw [Nat.add_assoc, Nat.add_comm 1]

/-- Disagreeing nodes are marked themselves.  Agreeing nodes have their marks
among the children that may be reordered and below the other children. -/
theorem mem_diff_iff {left right : Protocol} {mark : Mark} :
    mark ∈ diff config left right ↔
      (config.sameHeader left right = false ∧ mark.path = []) ∨
      (config.sameHeader left right = true ∧
        (mark ∈ config.windowMarks left right ∨
          ∃ position leftChild rightChild inner,
            config.windowSize left ≤ position ∧
              left.children[position]? = some leftChild ∧
                right.children[position]? = some rightChild ∧
                  inner ∈ diff config leftChild rightChild ∧
                    mark = inner.below position)) := by
  rw [diff_eq]
  split
  case isTrue header =>
    rw [List.mem_append, mem_diffList_iff]
    simp [header]
  case isFalse header =>
    obtain ⟨side, path⟩ := mark
    cases side <;> simp [header]

theorem mem_diff_nil_iff {left right : Protocol} {side : Side} :
    ⟨side, []⟩ ∈ diff config left right ↔
      config.sameHeader left right = false := by
  rw [mem_diff_iff]
  constructor
  · intro marked
    rcases marked with ⟨differ, _⟩ | ⟨_, inWindow | below⟩
    · exact differ
    · obtain ⟨position, _, path⟩ := Config.path_of_mem_windowMarks inWindow
      cases path
    · obtain ⟨_, _, _, _, _, _, _, _, same⟩ := below
      cases same
  · intro differ
    exact .inl ⟨differ, rfl⟩

/-- A mark below the outermost node stands on a child that may be reordered, or
it is a mark of two children that are compared with each other. -/
theorem mem_diff_cons_iff {left right : Protocol} {side : Side}
    {position : Nat} {rest : Path} :
    ⟨side, position :: rest⟩ ∈ diff config left right ↔
      config.sameHeader left right = true ∧
        ((⟨side, [position]⟩ ∈ config.windowMarks left right ∧ rest = []) ∨
          (config.windowSize left ≤ position ∧ ∃ leftChild rightChild,
            left.children[position]? = some leftChild ∧
              right.children[position]? = some rightChild ∧
                ⟨side, rest⟩ ∈ diff config leftChild rightChild)) := by
  rw [mem_diff_iff]
  constructor
  · intro marked
    rcases marked with ⟨_, path⟩ | ⟨agree, inWindow | below⟩
    · cases path
    · obtain ⟨_, _, path⟩ := Config.path_of_mem_windowMarks inWindow
      cases path
      exact ⟨agree, .inl ⟨inWindow, rfl⟩⟩
    · obtain ⟨_, leftChild, rightChild, inner, beyond, leftFound, rightFound,
        member, same⟩ := below
      cases same
      exact ⟨agree, .inr ⟨beyond, leftChild, rightChild, leftFound, rightFound,
        member⟩⟩
  · intro marked
    obtain ⟨agree, inWindow | below⟩ := marked
    · obtain ⟨onChild, rfl⟩ := inWindow
      exact .inr ⟨agree, .inl onChild⟩
    · obtain ⟨beyond, leftChild, rightChild, leftFound, rightFound, member⟩ :=
        below
      exact .inr ⟨agree, .inr ⟨position, leftChild, rightChild, ⟨side, rest⟩,
        beyond, leftFound, rightFound, member, rfl⟩⟩

theorem windowSize_le_length_children (protocol : Protocol) :
    config.windowSize protocol ≤ protocol.children.length := by
  cases protocol with
  | loop head body =>
      rw [Config.windowSize]
      split
      case isTrue =>
        rw [length_leadingActions]
        exact (List.takeWhile_prefix _).length_le
      case isFalse => exact Nat.zero_le _
  | _ => exact Nat.zero_le _

/-- Nothing is marked below a child that the left node does not have. -/
theorem notMem_diff_of_no_child {left right : Protocol} {side : Side}
    {position : Nat} {rest : Path}
    (missing : left.children[position]? = none) :
    ⟨side, position :: rest⟩ ∉ diff config left right := by
  intro marked
  obtain ⟨_, inWindow | below⟩ := mem_diff_cons_iff.mp marked
  · have inside := (Config.lt_windowSize_of_mem_windowMarks inWindow.1).trans_le
      (windowSize_le_length_children left)
    exact Nat.not_le.mpr inside (List.getElem?_eq_none_iff.mp missing)
  · obtain ⟨_, leftChild, _, leftFound, _⟩ := below
    rw [missing] at leftFound
    cases leftFound

theorem mem_diff_child_iff {left right leftChild rightChild : Protocol}
    {side : Side} {position : Nat} {rest : Path}
    (agree : config.sameHeader left right = true)
    (beyond : config.windowSize left ≤ position)
    (leftFound : left.children[position]? = some leftChild)
    (rightFound : right.children[position]? = some rightChild) :
    ⟨side, position :: rest⟩ ∈ diff config left right ↔
      ⟨side, rest⟩ ∈ diff config leftChild rightChild := by
  have notInWindow : ⟨side, [position]⟩ ∉ config.windowMarks left right := by
    intro inWindow
    exact Nat.not_le.mpr (Config.lt_windowSize_of_mem_windowMarks inWindow)
      beyond
  rw [mem_diff_cons_iff]
  simp [agree, beyond, leftFound, rightFound, notInWindow]

end Protocol

end Multiparty
