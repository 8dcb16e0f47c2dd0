import Multiparty.Proofs.Items

/-!
# Duality of two views

In a tree without actions, the messages from one family of roles to another can
be read off the exchanges.  The view of the sender shows them as sends and the
view of the receiver as receives, in the same order; neither view shows any
other message between the two.
-/

namespace Multiparty

theorem Role.sameFamily_of_common {left right common : Role}
    (leftSame : left.sameFamily common = true)
    (rightSame : right.sameFamily common = true) :
    left.sameFamily right = true := by
  rw [sameFamily_iff] at leftSame rightSame ⊢
  exact ⟨leftSame.1.trans rightSame.1.symm, leftSame.2.trans rightSame.2.symm⟩

theorem Interaction.SentBy.sameFamily {left right : Role}
    {interaction : Interaction} (leftSends : interaction.SentBy left)
    (rightSends : interaction.SentBy right) : left.sameFamily right = true := by
  obtain ⟨sender, known, leftSame⟩ := leftSends
  obtain ⟨same, sameKnown, rightSame⟩ := rightSends
  cases Option.mem_unique known sameKnown
  exact Role.sameFamily_of_common leftSame rightSame

namespace Action

/-- A send with a receiver in the family of a role. -/
def SendsTo (receiver : Role) (action : Action) : Prop :=
  action.direction = .send ∧ action.interaction.ReceivedBy receiver

/-- A receive whose sender is in the family of a role. -/
def ReceivesFrom (sender : Role) (action : Action) : Prop :=
  action.direction = .recv ∧ action.interaction.SentBy sender

instance (receiver : Role) : DecidablePred (SendsTo receiver) := fun _ =>
  inferInstanceAs (Decidable (_ ∧ _))

instance (sender : Role) : DecidablePred (ReceivesFrom sender) := fun _ =>
  inferInstanceAs (Decidable (_ ∧ _))

end Action

/-- The action that a content is, if it is one. -/
def Content.action? : Content → Option Action
  | perform action => some action
  | _ => none

namespace Protocol

/-- The actions of a tree in the order of a walk. -/
def actions (protocol : Protocol) : List Action :=
  protocol.collect action?

/-- The messages that a view sends to the family of a role. -/
def sentTo (receiver : Role) (view : Protocol) : List Interaction :=
  (view.actions.filter (·.SendsTo receiver)).map Action.interaction

/-- The messages that a view receives from the family of a role. -/
def receivedFrom (sender : Role) (view : Protocol) : List Interaction :=
  (view.actions.filter (·.ReceivesFrom sender)).map Action.interaction

/-- The interaction of an exchange. -/
def exchange? : Protocol → Option Interaction
  | exchange interaction => some interaction
  | _ => none

/-- The exchanges of a tree in the order of a walk. -/
def exchanges (protocol : Protocol) : List Interaction :=
  protocol.collect exchange?

theorem actions_eq (protocol : Protocol) :
    protocol.actions = protocol.contents.filterMap Content.action? := by
  rw [contents, filterMap_collect, actions]
  apply collect_congr
  intro _ node _
  cases node <;> rfl

theorem actions_of_project {protocol view : Protocol} {role : Role}
    (noAction : protocol.actions = [])
    (projected : protocol.project role = .ok view) :
    view.actions = protocol.exchanges.filterMap (Interaction.viewOf role) := by
  rw [actions_eq, contents_of_project projected, contents, exchanges,
    filterMap_collect, filterMap_collect, filterMap_collect]
  apply collect_congr
  intro path node visited
  cases node with
  | exchange interaction =>
      simp only [content?, exchange?, Option.bind_some, Content.seenBy_exchange]
      cases interaction.viewOf role <;> rfl
  | perform action =>
      have listed : action ∈ protocol.actions :=
        mem_collect_iff.mpr ⟨path, perform action, visited, rfl⟩
      rw [noAction] at listed
      cases listed
  | _ => rfl

end Protocol

namespace Interaction

/-- The message goes from the family of one role to that of another. -/
def Connects (sender receiver : Role) (interaction : Interaction) : Prop :=
  interaction.SentBy sender ∧ interaction.ReceivedBy receiver

instance (sender receiver : Role) :
    DecidablePred (Connects sender receiver) := fun _ =>
  inferInstanceAs (Decidable (_ ∧ _))

theorem connects_iff_sendsTo {sender receiver : Role}
    {interaction : Interaction} :
    interaction.Connects sender receiver ↔
      ∃ action, interaction.viewOf sender = some action ∧
        action.SendsTo receiver := by
  constructor
  · intro connects
    exact ⟨⟨.send, interaction⟩, viewOf_eq_send_iff.mpr ⟨rfl, connects.1⟩, rfl,
      connects.2⟩
  · intro sent
    obtain ⟨⟨direction, shown⟩, seen, isSend, received⟩ := sent
    cases isSend
    obtain ⟨rfl, sends⟩ := viewOf_eq_send_iff.mp seen
    exact ⟨sends, received⟩

/-- A receiver shows the message as a receive, because it is no sender of it. -/
theorem connects_iff_receivesFrom {sender receiver : Role}
    {interaction : Interaction} (apart : sender.sameFamily receiver = false) :
    interaction.Connects sender receiver ↔
      ∃ action, interaction.viewOf receiver = some action ∧
        action.ReceivesFrom sender := by
  constructor
  · intro connects
    have notSender : ¬interaction.SentBy receiver := by
      intro sends
      have same := connects.1.sameFamily sends
      rw [apart] at same
      cases same
    exact ⟨⟨.recv, interaction⟩,
      viewOf_eq_recv_iff.mpr ⟨rfl, notSender, connects.2⟩, rfl, connects.1⟩
  · intro received
    obtain ⟨⟨direction, shown⟩, seen, isRecv, sends⟩ := received
    cases isRecv
    obtain ⟨rfl, _, receives⟩ := viewOf_eq_recv_iff.mp seen
    exact ⟨sends, receives⟩

theorem filter_views {role : Role} {wanted : Action → Prop}
    {chosen : Interaction → Prop} [DecidablePred wanted] [DecidablePred chosen]
    (same : ∀ interaction : Interaction, chosen interaction ↔
      ∃ action, interaction.viewOf role = some action ∧ wanted action)
    (interactions : List Interaction) :
    ((interactions.filterMap (viewOf role)).filter fun action =>
        wanted action).map Action.interaction =
      interactions.filter fun interaction => chosen interaction := by
  induction interactions with
  | nil => rfl
  | cons head tail ih =>
      cases seen : head.viewOf role with
      | none =>
          have skipped : ¬chosen head := by
            rw [same, seen]
            simp
          rw [List.filterMap_cons_none seen, ih,
            List.filter_cons_of_neg (by simpa using skipped)]
      | some action =>
          have carried := interaction_of_viewOf seen
          have agrees : chosen head ↔ wanted action := by
            rw [same, seen]
            simp
          rw [List.filterMap_cons_some seen]
          by_cases wants : wanted action
          · rw [List.filter_cons_of_pos (by simpa using wants),
              List.filter_cons_of_pos (by simpa using agrees.mpr wants),
              List.map_cons, ih, carried]
          · rw [List.filter_cons_of_neg (by simpa using wants), ih,
              List.filter_cons_of_neg (by simpa [agrees] using wants)]

end Interaction

namespace Protocol

/-- The messages that the view of one role sends to another role are those that
the view of the other role receives from the first. -/
theorem projections_are_dual {protocol senderView receiverView : Protocol}
    {sender receiver : Role} (noAction : protocol.actions = [])
    (apart : sender.sameFamily receiver = false)
    (senderProjected : protocol.project sender = .ok senderView)
    (receiverProjected : protocol.project receiver = .ok receiverView) :
    senderView.sentTo receiver = receiverView.receivedFrom sender := by
  calc senderView.sentTo receiver
      = protocol.exchanges.filter (·.Connects sender receiver) := by
        rw [sentTo, actions_of_project noAction senderProjected]
        exact Interaction.filter_views
          (fun _ => Interaction.connects_iff_sendsTo) _
    _ = receiverView.receivedFrom sender := by
        rw [receivedFrom, actions_of_project noAction receiverProjected]
        exact (Interaction.filter_views
          (fun _ => Interaction.connects_iff_receivesFrom apart) _).symm

/-- Two messages from `A` reach `B`, one of them together with other receivers;
what `B` sends to itself and to `A` is not among them. -/
theorem projections_are_dual_for_multicast :
    let message (sender : String) (receivers : List String) : Interaction :=
      { sender := some { name := sender },
        receivers := receivers.map fun name => { name } }
    let protocol := loop (.recursion "X")
      [exchange (message "A" ["C", "B", "A"]),
        choice { name := "B" }
          [exchange (message "B" ["B", "A"]), exchange (message "A" ["C"])],
        parallel [exchange (message "C" ["B"]), exchange (message "A" ["B"])],
        jump "X"]
    protocol.actions = [] ∧
      Role.sameFamily { name := "A" } { name := "B" } = false ∧
      ∃ senderView receiverView,
        protocol.project { name := "A" } = .ok senderView ∧
        protocol.project { name := "B" } = .ok receiverView ∧
        senderView.sentTo { name := "B" } =
          receiverView.receivedFrom { name := "A" } ∧
        receiverView.receivedFrom { name := "A" } =
          [message "A" ["C", "B", "A"], message "A" ["B"]] := by
  intro message protocol
  have noAction : protocol.actions = [] := by decide
  have apart : Role.sameFamily { name := "A" } { name := "B" } = false := by
    decide
  refine ⟨noAction, apart, _, _, rfl, rfl, ?_, ?_⟩
  · exact projections_are_dual noAction apart rfl rfl
  · decide

end Protocol

end Multiparty
