import Mathlib.Data.Fintype.EquivFin
import Mathlib.Data.List.FinRange
import Multiparty.Proofs.GreedyMatching

/-!
# Rearrangements of leading actions

A rearrangement is a permutation of the first few nodes of two lists.  It pairs
nodes that agree, and it changes the order of two nodes only if they share no
channel or a send overtakes a receive.  Every successful search gives one, as
many left actions leave no right action out; and the search succeeds wherever
there is one, provided that agreeing actions block each other.
-/

namespace Multiparty

namespace Protocol

/-- The number of actions that open a list of nodes. -/
def leadingRun (nodes : List Protocol) : Nat :=
  (nodes.takeWhile isAction).length

theorem length_leadingActions (nodes : List Protocol) :
    (leadingActions nodes).length = leadingRun nodes := by
  fun_induction leadingActions nodes with
  | case1 action tail ih =>
      rw [leadingRun, List.takeWhile_cons_of_pos rfl]
      simpa [leadingRun] using ih
  | case2 nodes notAction =>
      cases nodes with
      | nil => rfl
      | cons head tail =>
          cases head with
          | perform action => exact (notAction action tail rfl).elim
          | _ => rfl

theorem take_leadingActions (nodes : List Protocol) :
    nodes.take (leadingActions nodes).length =
      (leadingActions nodes).map perform := by
  fun_induction leadingActions nodes with
  | case1 action tail ih => simpa using ih
  | case2 => rfl

theorem leadingActions_map_perform (actions : List Action) :
    leadingActions (actions.map perform) = actions := by
  induction actions with
  | nil => rfl
  | cons action actions ih => simp [leadingActions, ih]

theorem action?_eq_some_iff {node : Protocol} {action : Action} :
    node.action? = some action ↔ node = perform action := by
  cases node <;> simp [action?]

theorem kind_perform_eq_send_iff {action : Action} :
    (perform action).kind = .send ↔ action.direction = .send := by
  obtain ⟨direction, interaction⟩ := action
  cases direction <;> simp [kind]

theorem kind_perform_eq_recv_iff {action : Action} :
    (perform action).kind = .recv ↔ action.direction = .recv := by
  obtain ⟨direction, interaction⟩ := action
  cases direction <;> simp [kind]

theorem mem_positionedActions {nodes : List Protocol} {position : Nat}
    {action : Action} :
    (position, action) ∈ positionedActions nodes ↔
      nodes[position]? = some (perform action) := by
  simp [positionedActions, List.mk_mem_zipIdx_iff_getElem?, action?_eq_some_iff]

theorem map_snd_positionedActions (nodes : List Protocol) :
    (positionedActions nodes).map Prod.snd = nodes.filterMap action? := by
  have unnumbered : nodes.zipIdx.map Prod.fst = nodes := List.zipIdx_map_fst 0 nodes
  rw [positionedActions, List.map_filterMap]
  conv_rhs => rw [← unnumbered, List.filterMap_map]
  apply List.filterMap_congr
  intro entry _
  simp

theorem positionedActions_inOrder (nodes : List Protocol) :
    Config.InOrder (positionedActions nodes) := by
  have positions : nodes.zipIdx.Pairwise fun earlier later =>
      earlier.2 < later.2 := by
    rw [← List.pairwise_map, List.zipIdx_map_snd]
    exact List.pairwise_lt_range'
  rw [Config.InOrder, positionedActions, List.pairwise_filterMap]
  refine positions.imp ?_
  rintro ⟨_, earlier⟩ ⟨_, later⟩ before first firstFound second secondFound
  simp only [Option.map_eq_some_iff] at firstFound secondFound
  obtain ⟨_, _, rfl⟩ := firstFound
  obtain ⟨_, _, rfl⟩ := secondFound
  exact before

/-- A run of actions consists of all its actions with their positions. -/
theorem perm_positionedActions {nodes : List Protocol} {size : Nat}
    {actions : Fin size → Action}
    (found : ∀ j : Fin size, nodes[j.val]? = some (perform (actions j))) :
    (List.ofFn fun j => (j.val, actions j)).Perm
      (positionedActions (nodes.take size)) := by
  have distinct : (List.ofFn fun j => (j.val, actions j)).Nodup := by
    rw [List.nodup_ofFn]
    intro j k same
    exact Fin.ext (congrArg Prod.fst same)
  have positionsDistinct : (positionedActions (nodes.take size)).Nodup := by
    refine (positionedActions_inOrder _).imp ?_
    rintro earlier later before rfl
    exact Nat.lt_irrefl _ before
  rw [List.perm_ext_iff_of_nodup distinct positionsDistinct]
  rintro ⟨position, action⟩
  rw [mem_positionedActions, List.mem_ofFn, List.getElem?_take]
  constructor
  · rintro ⟨j, same⟩
    cases same
    rw [if_pos j.isLt, found]
  · intro located
    split at located
    case isTrue inside =>
      have same := (found ⟨position, inside⟩).symm.trans located
      simp only [Option.some.injEq, perform.injEq] at same
      exact ⟨⟨position, inside⟩, by rw [same]⟩
    case isFalse => cases located

end Protocol

namespace Config

variable {config : Config}

/-- A permutation of the first nodes of two lists that pairs nodes that agree,
and changes the order only of nodes that share no channel or of a receive and a
send that may overtake it. -/
structure Rearrangement (config : Config) (lefts rights : List Protocol)
    {size : Nat} (target : Equiv.Perm (Fin size)) : Prop where
  agree : ∀ i : Fin size, ∃ left right,
    lefts[i.val]? = some left ∧ rights[(target i).val]? = some right ∧
      config.sameHeader left right = true
  clear : ∀ i k : Fin size, i < k → target k < target i →
    ∀ left right,
      lefts[i.val]? = some left → rights[(target k).val]? = some right →
        left.sharesChannel config.wildcard right = false ∨
          (config.sendOvertakesRecv = true ∧
            left.kind = .recv ∧ right.kind = .send)

theorem sameHeader_perform {left : Action} {right : Protocol} :
    config.sameHeader (.perform left) right = true ↔
      ∃ action, right = .perform action ∧
        config.sameAction left action = true := by
  cases right <;> simp [sameHeader]

theorem blocks_eq_false_iff {left right : Action} :
    config.blocks left right = false ↔
      Protocol.sharesChannel config.wildcard (.perform left) (.perform right) =
          false ∨
        (config.sendOvertakesRecv = true ∧
          (Protocol.perform left).kind = .recv ∧
            (Protocol.perform right).kind = .send) := by
  rw [Protocol.kind_perform_eq_recv_iff, Protocol.kind_perform_eq_send_iff]
  simp only [blocks, Protocol.sharesChannel, Protocol.action?,
    Bool.and_eq_false_iff, Bool.not_eq_false', Bool.and_eq_true, beq_iff_eq,
    and_assoc]

/-- The positions that a matching assigns are different. -/
theorem Matches.nodup_positions {free : List (Nat × Action)}
    {pairs : List (Action × Nat × Action)}
    (matched : Matches config free pairs) (ordered : InOrder free) :
    (pairs.map fun pair => pair.2.1).Nodup := by
  obtain ⟨rest, permutation⟩ := matched.perm
  have distinct : (free.map Prod.fst).Nodup :=
    List.pairwise_map.mpr (ordered.imp Nat.ne_of_lt)
  rw [(permutation.map Prod.fst).nodup_iff, List.map_append, List.map_map]
    at distinct
  exact distinct.of_append_left

/-- A matching of all leading actions is a rearrangement. -/
theorem Matches.exists_rearrangement {lefts rights : List Protocol}
    {pairs : List (Action × Nat × Action)}
    (matched : Matches config
      (Protocol.positionedActions (rights.take pairs.length)) pairs)
    (opens : ∀ i : Fin pairs.length,
      lefts[i.val]? = some (.perform pairs[i].1)) :
    ∃ target : Equiv.Perm (Fin pairs.length),
      Rearrangement config lefts rights target := by
  have ordered := Protocol.positionedActions_inOrder (rights.take pairs.length)
  have located : ∀ i : Fin pairs.length, pairs[i].2.1 < pairs.length ∧
      rights[pairs[i].2.1]? = some (.perform pairs[i].2.2) := by
    intro i
    obtain ⟨rest, permutation⟩ := matched.perm
    have taken : pairs[i].2 ∈ pairs.map Prod.snd :=
      List.mem_map_of_mem (List.getElem_mem i.isLt)
    have found := Protocol.mem_positionedActions.mp
      (permutation.mem_iff.mpr (List.mem_append_left rest taken))
    rw [List.getElem?_take] at found
    split at found
    case isTrue inside => exact ⟨inside, found⟩
    case isFalse => cases found
  let move : Fin pairs.length → Fin pairs.length := fun i =>
    ⟨pairs[i].2.1, (located i).1⟩
  have injective : Function.Injective move := by
    intro i k same
    have distinct := matched.nodup_positions ordered
    apply Fin.ext
    rw [← List.getElem?_inj (by simp) distinct]
    simpa [move] using same
  -- an injective map of the window into itself leaves nothing out
  refine ⟨Equiv.ofBijective move (Finite.injective_iff_bijective.mp injective),
    ?_, ?_⟩
  · intro i
    refine ⟨_, _, opens i, (located i).2, sameHeader_perform.mpr ⟨_, rfl, ?_⟩⟩
    exact matched.same _ (List.getElem_mem i.isLt)
  · intro i k before moved left right leftFound rightFound
    rw [opens i] at leftFound
    cases leftFound
    cases (located k).2.symm.trans rightFound
    rw [← blocks_eq_false_iff]
    exact List.pairwise_iff_getElem.mp (matched.unblocked ordered) i k i.isLt
      k.isLt before moved

theorem Rearrangement.exists_counterpart {lefts rights : List Protocol}
    {size : Nat} {target : Equiv.Perm (Fin size)}
    (rearranged : Rearrangement config lefts rights target) {i : Fin size}
    {action : Action} (found : lefts[i.val]? = some (.perform action)) :
    ∃ counterpart, rights[(target i).val]? = some (.perform counterpart) ∧
      config.sameAction action counterpart = true := by
  obtain ⟨left, right, leftFound, rightFound, same⟩ := rearranged.agree i
  cases found.symm.trans leftFound
  obtain ⟨counterpart, rfl, agrees⟩ := sameHeader_perform.mp same
  exact ⟨counterpart, rightFound, agrees⟩

/-- Where there is a rearrangement of the leading actions, the search finds
counterparts for all of them. -/
theorem matchActions_of_rearrangement {lefts rights : List Protocol}
    {actions : List Action} {target : Equiv.Perm (Fin actions.length)}
    (rearranged : Rearrangement config lefts rights target)
    (opens : ∀ i : Fin actions.length,
      lefts[i.val]? = some (.perform actions[i]))
    (guarded : ∀ action ∈ actions, ∀ right,
      config.sameAction action right = true →
        config.blocks action right = true)
    (position : Nat) :
    config.matchActions position
      (Protocol.positionedActions (rights.take actions.length)) actions = [] := by
  have counterparts : ∀ j : Fin actions.length, ∃ right,
      rights[j.val]? = some (.perform right) ∧
        config.sameAction actions[target.symm j] right = true := by
    intro j
    have located := rearranged.exists_counterpart (opens (target.symm j))
    rw [Equiv.apply_symm_apply] at located
    exact located
  choose counterpart found agrees using counterparts
  rw [matchActions_eq_nil_iff]
  refine ⟨List.ofFn fun i => (actions[i], (target i).val, counterpart (target i)),
    matches_of_unblocked (Protocol.positionedActions_inOrder _) ?_ ?_ ?_ ?_, ?_⟩
  · rw [List.map_ofFn]
    exact (target.ofFn_comp_perm fun j => (j.val, counterpart j)).trans
      (Protocol.perm_positionedActions found)
  · intro pair member
    obtain ⟨i, rfl⟩ := List.mem_ofFn.mp member
    simpa using agrees (target i)
  · rw [List.pairwise_ofFn]
    intro i k before moved
    rw [blocks_eq_false_iff]
    exact rearranged.clear i k before moved _ _ (opens i) (found (target k))
  · intro pair member
    obtain ⟨i, rfl⟩ := List.mem_ofFn.mp member
    exact guarded _ (List.getElem_mem i.isLt)
  · rw [List.map_ofFn]
    exact List.ofFn_getElem

end Config

end Multiparty
