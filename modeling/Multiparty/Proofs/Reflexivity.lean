import Multiparty.Proofs.Equivalence
import Multiparty.Proofs.HeaderAgreement

/-!
# A tree does not differ from itself

Every node agrees with itself, whatever is switched on and whichever name is the
wildcard.  Among the actions that open the body of a loop the search keeps to
the diagonal: when an action is looked for, those before it have taken
themselves, so it is the first that is free and takes itself at once.  Neither
an equal action further on nor a channel shared with one can get in the way.
-/

namespace Multiparty

variable {config : Config}

theorem Message.compatible_self (message : Message) :
    message.compatible message = true := by
  have shapes : message.payloads.isEqv message.payloads Payload.sameShape =
      true := by
    rw [isEqv_iff_forall₂, List.forall₂_same]
    intro payload _
    simp [Payload.sameShape]
  simp [compatible, shapes]

namespace Config

theorem GuardsAgree.refl (guard : Option Role) :
    config.GuardsAgree guard guard := by
  cases guard with
  | none => exact .none
  | some role => exact .some ⟨rfl, (RolesAgree.refl role).2⟩

theorem ActionsAgree.refl (action : Action) :
    config.ActionsAgree action action where
  direction := rfl
  messages := action.interaction.message.compatible_self
  guards := .refl action.interaction.guard
  peers := peersAgree_self action

theorem InteractionsAgree.refl (interaction : Interaction) :
    config.InteractionsAgree interaction interaction where
  messages := interaction.message.compatible_self
  guards := .refl interaction.guard
  senders := .refl interaction.sender
  receivers := List.forall₂_same.mpr fun receiver _ => .refl receiver

theorem HeadersAgree.refl (protocol : Protocol) :
    config.HeadersAgree protocol protocol := by
  cases protocol with
  | compose how parts => exact .compose rfl
  | exchange interaction => exact .exchange (.refl interaction)
  | perform action => exact .perform (.refl action)
  | choice chooser branches => exact .choice rfl rfl
  | loop head body =>
      cases head with
      | recursion label => exact .recursion rfl
      | forEach index range => exact .forEach (.inl rfl) rfl
  | jump label => exact .jump
  | invoke call =>
      apply HeadersAgree.invoke rfl
      · exact List.forall₂_same.mpr fun role _ => .refl role
      · exact List.forall₂_same.mpr fun message _ => message.compatible_self
  | interruptible scope body interrupts =>
      apply HeadersAgree.interruptible rfl
      exact List.forall₂_same.mpr fun interrupt _ => ⟨rfl, .refl interrupt.trigger⟩

theorem sameAction_self (action : Action) :
    config.sameAction action action = true :=
  sameAction_iff.mpr (.refl action)

theorem sameHeader_self (protocol : Protocol) :
    config.sameHeader protocol protocol = true :=
  sameHeader_iff.mpr (.refl protocol)

/-- If the actions agree one by one, each of them takes the first that is free. -/
theorem matchActions_of_forall₂ {position : Nat} {free : List (Nat × Action)}
    {lefts : List Action}
    (same : List.Forall₂ (fun left entry => config.sameAction left entry.2 = true)
      lefts free) :
    config.matchActions position free lefts = [] := by
  induction same generalizing position with
  | nil => rfl
  | cons agrees _ ih =>
      rw [matchActions, search, if_pos agrees]
      exact ih

theorem matchActions_self (position : Nat) (free : List (Nat × Action)) :
    config.matchActions position free (free.map Prod.snd) = [] := by
  apply matchActions_of_forall₂
  rw [List.forall₂_map_left_iff, List.forall₂_same]
  intro entry _
  exact sameAction_self entry.2

end Config

namespace Protocol

theorem windowMarks_self (protocol : Protocol) :
    config.windowMarks protocol protocol = [] := by
  rw [Config.windowMarks, leadingActions_take_windowSize,
    ← map_snd_positionedActions]
  exact Config.matchActions_self 0 _

theorem diff_self (protocol : Protocol) : diff config protocol protocol = [] := by
  induction protocol using inductionOnChildren with
  | node protocol ih =>
      rw [diff_eq_nil_iff]
      refine ⟨Config.sameHeader_self protocol, windowMarks_self protocol, ?_⟩
      intro position leftChild rightChild _ leftFound rightFound
      have sameChild : leftChild = rightChild :=
        Option.some.inj (leftFound.symm.trans rightFound)
      rw [← sameChild]
      exact ih leftChild (List.mem_of_getElem? leftFound)

/-- Comparison of a tree with itself marks nothing. -/
theorem compare_with_itself (config : Config) {protocol : Protocol}
    (bound : protocol.unresolvedLabel? = none) :
    ∃ outcome, compare config protocol protocol = .ok outcome ∧
      outcome.identical = true ∧ outcome.marks = [] := by
  refine ⟨.ofMarks (diff config protocol protocol),
    compare_eq_ok_iff.mpr ⟨bound, bound, rfl⟩, ?_, ?_⟩
  · exact Outcome.identical_ofMarks_iff.mpr (diff_self protocol)
  · rw [diff_self]
    rfl

/-- Two equal sends on one channel, a receive from the wildcard and a send that
nobody receives open the loop, and all switches are on. -/
theorem compare_with_itself_in_crowded_loop :
    let config : Config :=
      { normalizes := true, sendOvertakesRecv := true, wildcard := some "W" }
    let send : Protocol :=
      perform ⟨.send, { receivers := [⟨"W", [.range (.lit 2) (.lit 1)]⟩] }⟩
    let recv : Protocol := perform ⟨.recv, { sender := some ⟨"W", []⟩ }⟩
    let unheard : Protocol := perform ⟨.send, {}⟩
    let protocol : Protocol :=
      root [loop (.recursion "X") [send, send, recv, unheard, jump "X"]]
    protocol.unresolvedLabel? = none ∧
      ∃ outcome, compare config protocol protocol = .ok outcome ∧
        outcome.identical = true ∧ outcome.marks = [] := by
  intro config send recv unheard protocol
  have bound : protocol.unresolvedLabel? = none := rfl
  exact ⟨bound, compare_with_itself config bound⟩

end Protocol

end Multiparty
