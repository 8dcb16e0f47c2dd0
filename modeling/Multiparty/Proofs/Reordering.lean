import Multiparty.Proofs.Equivalence
import Multiparty.Proofs.HeaderAgreement

/-!
# Reordered actions have no endpoint in common

Wherever the left one of two identical trees has a loop, the right one has a
loop of the same kind, and the actions that open the two bodies correspond to
each other.  Actions that stand in another order on the right never reach a
common endpoint, unless a send is allowed to overtake a receive: neither on the
left nor on the right nor across, and under no assignment of the variables.
-/

namespace Multiparty

/-- Two actions reach no common endpoint under any assignment. -/
def Action.Apart (left right : Action) : Prop :=
  ∀ (assignment : Assignment) (endpoint : Endpoint),
    ¬(left.Reaches assignment endpoint ∧ right.Reaches assignment endpoint)

variable {config : Config}

theorem Action.apart_of_agreeing {left left' right right' : Action}
    (leftPeers : List.Forall₂ config.PeersAgree left.peers left'.peers)
    (rightPeers : List.Forall₂ config.PeersAgree right'.peers right.peers)
    (disjoint : left.sharesChannel config.wildcard right = false) :
    left'.Apart right' := by
  rintro assignment endpoint ⟨fromLeft, fromRight⟩
  have shared :=
    sharesChannel_of_agreeing_reaches leftPeers rightPeers fromLeft fromRight
  rw [shared] at disjoint
  cases disjoint

namespace Protocol

theorem length_flatMap_interrupts {lefts rights : List (Interrupt Protocol)}
    (agree : List.Forall₂ config.InterruptsAgree lefts rights) :
    (lefts.flatMap Interrupt.body).length =
      (rights.flatMap Interrupt.body).length := by
  induction agree with
  | nil => rfl
  | cons head _ ih =>
      simp only [List.flatMap_cons, List.length_append, head.1, ih]

theorem length_children_of_sameHeader {left right : Protocol}
    (header : config.sameHeader left right = true) :
    left.children.length = right.children.length := by
  cases Config.sameHeader_iff.mp header with
  | compose lengths | choice _ lengths => exact lengths
  | recursion lengths | forEach _ lengths => exact lengths
  | interruptible lengths interrupts =>
      simp only [children, List.length_append, lengths,
        length_flatMap_interrupts interrupts]
  | exchange | perform | jump | invoke => rfl

theorem exists_loop_of_sameHeader {head : LoopHead} {body : List Protocol}
    {right : Protocol}
    (header : config.sameHeader (loop head body) right = true) :
    ∃ head' body', right = loop head' body' ∧
      right.kind = (loop head body).kind := by
  cases Config.sameHeader_iff.mp header with
  | recursion | forEach => exact ⟨_, _, rfl, rfl⟩

theorem exists_action_of_lt_leadingRun {nodes : List Protocol} {position : Nat}
    (inside : position < leadingRun nodes) :
    ∃ action, nodes[position]? = some (perform action) := by
  rw [← length_leadingActions] at inside
  exact ⟨_, getElem?_of_leadingActions (List.getElem?_eq_getElem inside)⟩

namespace Equivalent

theorem header {left right : Protocol}
    (equivalent : Equivalent config left right) :
    config.sameHeader left right = true := by
  cases equivalent with
  | inOrder header | rearranged header => exact header

/-- A child that is no action stands opposite an equivalent child: only actions
are rearranged. -/
theorem child {left right leftChild : Protocol} {position : Nat}
    (equivalent : Equivalent config left right)
    (found : left.children[position]? = some leftChild)
    (notAction : leftChild.isAction = false) :
    ∃ rightChild, right.children[position]? = some rightChild ∧
      Equivalent config leftChild rightChild := by
  have inside : position < right.children.length := by
    rw [← length_children_of_sameHeader equivalent.header]
    exact (List.getElem?_eq_some_iff.mp found).1
  have rightFound := List.getElem?_eq_getElem inside
  refine ⟨right.children[position], rightFound, ?_⟩
  cases equivalent with
  | inOrder _ _ below => exact below position _ _ found rightFound
  | rearranged _ _ _ count _ _ below =>
      refine below position _ _ (Nat.le_of_not_lt fun early => ?_) found
        rightFound
      obtain ⟨action, isAction⟩ :=
        exists_action_of_lt_leadingRun (Nat.lt_of_lt_of_eq early count)
      rw [isAction] at found
      cases found
      cases notAction

/-- Subtrees that are no actions stand opposite equivalent subtrees. -/
theorem subtree {left right node : Protocol} {path : Path}
    (equivalent : Equivalent config left right)
    (located : left.at? path = some node)
    (notAction : node.isAction = false) :
    ∃ counterpart, right.at? path = some counterpart ∧
      Equivalent config node counterpart := by
  induction path generalizing left right with
  | nil =>
      cases located
      exact ⟨right, rfl, equivalent⟩
  | cons position path ih =>
      rw [at?, Option.bind_eq_some_iff] at located
      obtain ⟨leftChild, leftFound, located⟩ := located
      have inner : leftChild.isAction = false := by
        cases leftChild with
        | perform action =>
            cases path with
            | nil =>
                cases located
                exact notAction
            | cons => cases located
        | _ => rfl
      obtain ⟨rightChild, rightFound, childEquivalent⟩ :=
        equivalent.child leftFound inner
      obtain ⟨counterpart, found, nodeEquivalent⟩ := ih childEquivalent located
      refine ⟨counterpart, ?_, nodeEquivalent⟩
      rw [at?, child?, rightFound, Option.bind_some, found]

/-- The leading actions of equivalent nodes are a rearrangement of each other;
where nothing may be reordered they are in the same order. -/
theorem exists_rearrangement {left right : Protocol}
    (equivalent : Equivalent config left right) :
    ∃ target : Equiv.Perm (Fin (leadingRun left.children)),
      config.Rearrangement left.children right.children target := by
  have lengths := length_children_of_sameHeader equivalent.header
  cases equivalent with
  | inOrder _ _ below =>
      refine ⟨Equiv.refl _, ?_, ?_⟩
      · intro i
        obtain ⟨action, found⟩ := exists_action_of_lt_leadingRun i.isLt
        have inside : i.val < right.children.length := by
          rw [← lengths]
          exact (List.getElem?_eq_some_iff.mp found).1
        have rightFound := List.getElem?_eq_getElem inside
        exact ⟨_, _, found, rightFound, (below _ _ _ found rightFound).header⟩
      · intro i k before moved
        exact absurd moved (Fin.lt_asymm before)
  | rearranged _ _ _ count _ rearranged =>
      subst count
      exact ⟨_, rearranged⟩

end Equivalent

end Protocol

/-- Actions that open two lists of nodes, paired so that the paired ones agree.
Pairs whose order changes are apart in every combination, unless the second one
is a send that may overtake a receive. -/
structure Config.ActionPairing (config : Config) (lefts rights : List Protocol)
    {size : Nat} (leftAction rightAction : Fin size → Action)
    (target : Equiv.Perm (Fin size)) : Prop where
  onLeft : ∀ i : Fin size, lefts[i.val]? = some (.perform (leftAction i))
  onRight : ∀ j : Fin size, rights[j.val]? = some (.perform (rightAction j))
  agree : ∀ i, config.ActionsAgree (leftAction i) (rightAction (target i))
  apart : ∀ i k, i < k → target k < target i →
    ¬(config.sendOvertakesRecv = true ∧ (leftAction i).direction = .recv ∧
      (leftAction k).direction = .send) →
    (leftAction i).Apart (leftAction k) ∧
      (leftAction i).Apart (rightAction (target k)) ∧
        (rightAction (target i)).Apart (leftAction k) ∧
          (rightAction (target i)).Apart (rightAction (target k))

theorem Config.Rearrangement.exists_pairing {lefts rights : List Protocol}
    {target : Equiv.Perm (Fin (Protocol.leadingRun lefts))}
    (rearranged : config.Rearrangement lefts rights target) :
    ∃ leftAction rightAction,
      config.ActionPairing lefts rights leftAction rightAction target := by
  have actions : ∀ i : Fin (Protocol.leadingRun lefts), ∃ left right,
      lefts[i.val]? = some (.perform left) ∧
        rights[(target i).val]? = some (.perform right) ∧
          config.sameAction left right = true := by
    intro i
    obtain ⟨action, found⟩ := Protocol.exists_action_of_lt_leadingRun i.isLt
    obtain ⟨counterpart, rightFound, agrees⟩ :=
      rearranged.exists_counterpart found
    exact ⟨action, counterpart, found, rightFound, agrees⟩
  choose leftAction counterpart leftFound rightFound same using actions
  have agree := fun i => sameAction_iff.mp (same i)
  refine ⟨leftAction, fun j => counterpart (target.symm j), leftFound, ?_, ?_, ?_⟩
  · intro j
    simpa using rightFound (target.symm j)
  · simpa using agree
  · intro i k before moved kept
    simp only [Equiv.symm_apply_apply]
    have disjoint : (leftAction i).sharesChannel config.wildcard (counterpart k) =
        false := by
      have clear :=
        rearranged.clear i k before moved _ _ (leftFound i) (rightFound k)
      rw [Protocol.kind_perform_eq_recv_iff, Protocol.kind_perform_eq_send_iff,
        ← (agree k).direction] at clear
      exact clear.resolve_right kept
    exact ⟨Action.apart_of_agreeing (peersAgree_self _) (agree k).peers disjoint,
      Action.apart_of_agreeing (peersAgree_self _) (peersAgree_self _) disjoint,
      Action.apart_of_agreeing (agree i).peers (agree k).peers disjoint,
      Action.apart_of_agreeing (agree i).peers (peersAgree_self _) disjoint⟩

/-- If comparison finds no difference, every loop on the left stands opposite a
loop of its kind, and the leading actions of the two bodies can be paired. -/
theorem Protocol.identical_loops_pair_actions {left right : Protocol}
    {outcome : Outcome} (compared : compare config left right = .ok outcome)
    (identical : outcome.identical = true) {path : Path} {head : LoopHead}
    {body : List Protocol} (located : left.at? path = some (loop head body)) :
    ∃ head' body', right.at? path = some (loop head' body') ∧
      (loop head' body').kind = (loop head body).kind ∧
      ∃ (leftAction rightAction : Fin (leadingRun body) → Action)
        (target : Equiv.Perm (Fin (leadingRun body))),
        config.ActionPairing body body' leftAction rightAction target := by
  obtain ⟨_, _, rfl⟩ := compare_eq_ok_iff.mp compared
  have equivalent :=
    equivalent_of_diff_eq_nil (Outcome.identical_ofMarks_iff.mp identical)
  obtain ⟨counterpart, found, loops⟩ := equivalent.subtree located rfl
  obtain ⟨head', body', rfl, sameKind⟩ := exists_loop_of_sameHeader loops.header
  obtain ⟨target, rearranged⟩ := loops.exists_rearrangement
  obtain ⟨leftAction, rightAction, pairing⟩ := rearranged.exists_pairing
  exact ⟨head', body', found, sameKind, leftAction, rightAction, target, pairing⟩

/-- Sends to neighbours change places, although an index is written in another
way on the right. -/
theorem Protocol.identical_loops_pair_neighbours :
    let send (dimension : Expr) : Protocol :=
      perform ⟨.send, { receivers := [⟨"W", [dimension]⟩] }⟩
    let body := [send (.var "i"), send (.binary .add (.lit 1) (.var "i")),
      jump "X"]
    let left := root [loop (.recursion "X") body]
    let right := root [loop (.recursion "Y")
      [send (.binary .add (.var "i") (.lit 1)), send (.var "i"), jump "Y"]]
    let config : Config := { normalizes := true }
    (∃ outcome, compare config left right = .ok outcome ∧
      outcome.identical = true) ∧
    left.at? [0] = some (loop (.recursion "X") body) ∧
    ∃ head' body', right.at? [0] = some (loop head' body') ∧
      (loop head' body').kind = .recursion ∧
      ∃ (leftAction rightAction : Fin (leadingRun body) → Action)
        (target : Equiv.Perm (Fin (leadingRun body))),
        config.ActionPairing body body' leftAction rightAction target := by
  intro send body left right config
  have compared : compare config left right =
      .ok (.ofMarks (diff config left right)) := rfl
  have identical : (Outcome.ofMarks (diff config left right)).identical = true := by
    decide
  have located : left.at? [0] = some (loop (.recursion "X") body) := rfl
  exact ⟨⟨_, compared, identical⟩, located,
    identical_loops_pair_actions compared identical located⟩

end Multiparty
