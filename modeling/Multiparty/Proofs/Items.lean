import Multiparty.Proofs.Visibility
import Multiparty.Proofs.Walk

/-!
# What projection keeps

A walk lists the items of a tree: everything but the compositions, each with
the chain of nodes that enclose it.  The items of a projected tree are those of
the tree in the same order and with the same chains, except that an exchange is
replaced by the action of the role in it or left out.
-/

namespace Multiparty

/-- What a node says apart from its children. -/
inductive Content where
  | exchange (interaction : Interaction)
  | perform (action : Action)
  | choice (chooser : Role) (size : Nat)
  | loop (head : LoopHead)
  | jump (label : String)
  | invoke (call : Invocation)
  | interruptible (scope : String) (triggers : List Role)
  deriving DecidableEq

/-- How a node encloses one of its children. -/
inductive Enclosure where
  | part (how : Composition)
  | branch (chooser : Role) (size position : Nat)
  | iteration (head : LoopHead)
  | body (scope : String) (triggers : List Role)
  | handler (scope : String) (triggers : List Role) (position : Nat)
  deriving DecidableEq

/-- A node in its place; the chain leads from the node outwards. -/
structure Item where
  content : Content
  chain : List Enclosure
  deriving DecidableEq

namespace Interaction

/-- The sender is known and in the family of the role. -/
def SentBy (role : Role) (interaction : Interaction) : Prop :=
  ∃ sender ∈ interaction.sender, role.sameFamily sender = true

/-- Some receiver is in the family of the role. -/
def ReceivedBy (role : Role) (interaction : Interaction) : Prop :=
  ∃ receiver ∈ interaction.receivers, role.sameFamily receiver = true

instance (role : Role) : DecidablePred (SentBy role) := fun interaction =>
  inferInstanceAs (Decidable (∃ sender ∈ interaction.sender, _))

instance (role : Role) : DecidablePred (ReceivedBy role) := fun interaction =>
  inferInstanceAs (Decidable (∃ receiver ∈ interaction.receivers, _))

theorem viewOf_eq (role : Role) (interaction : Interaction) :
    interaction.viewOf role =
      if interaction.SentBy role then some ⟨.send, interaction⟩
      else if interaction.ReceivedBy role then some ⟨.recv, interaction⟩
      else none := by
  have sends : interaction.sender.any role.sameFamily = true ↔
      interaction.SentBy role := Option.any_eq_true _ _
  have receives : interaction.receivers.any role.sameFamily = true ↔
      interaction.ReceivedBy role := List.any_eq_true
  exact if_congr sends rfl (if_congr receives rfl rfl)

theorem viewOf_eq_send_iff {role : Role} {interaction shown : Interaction} :
    interaction.viewOf role = some ⟨.send, shown⟩ ↔
      interaction = shown ∧ interaction.SentBy role := by
  rw [viewOf_eq]
  by_cases sends : interaction.SentBy role
  · simp [sends]
  · by_cases receives : interaction.ReceivedBy role
    · simp [sends, receives]
    · simp [sends, receives]

theorem viewOf_eq_recv_iff {role : Role} {interaction shown : Interaction} :
    interaction.viewOf role = some ⟨.recv, shown⟩ ↔
      interaction = shown ∧ ¬interaction.SentBy role ∧
        interaction.ReceivedBy role := by
  rw [viewOf_eq]
  by_cases sends : interaction.SentBy role
  · simp [sends]
  · by_cases receives : interaction.ReceivedBy role
    · simp [sends, receives]
    · simp [sends, receives]

theorem interaction_of_viewOf {role : Role} {interaction : Interaction}
    {action : Action} (seen : interaction.viewOf role = some action) :
    action.interaction = interaction := by
  obtain ⟨direction, shown⟩ := action
  cases direction with
  | send => exact (viewOf_eq_send_iff.mp seen).1.symm
  | recv => exact (viewOf_eq_recv_iff.mp seen).1.symm

end Interaction

/-- What a role sees of a node: its own part in an exchange, as a sender rather
than as a receiver, and every other node as it is. -/
def Content.seenBy (role : Role) : Content → Option Content
  | exchange interaction =>
      if interaction.SentBy role then some (perform ⟨.send, interaction⟩)
      else if interaction.ReceivedBy role then
        some (perform ⟨.recv, interaction⟩)
      else none
  | other => some other

theorem Content.seenBy_exchange (role : Role) (interaction : Interaction) :
    (exchange interaction).seenBy role =
      (interaction.viewOf role).map perform := by
  rw [seenBy, Interaction.viewOf_eq]
  split
  · rfl
  · split <;> rfl

/-- What a role sees of an item, in the same place. -/
def Item.seenBy (role : Role) (item : Item) : Option Item :=
  (item.content.seenBy role).map fun content => ⟨content, item.chain⟩

theorem Item.map_content_seenBy (role : Role) (item : Item) :
    (item.seenBy role).map Item.content = item.content.seenBy role := by
  unfold Item.seenBy
  cases item.content.seenBy role <;> rfl

namespace Protocol

/-- The content of the outermost node, unless that is a composition. -/
def content? : Protocol → Option Content
  | compose _ _ => none
  | exchange interaction => some (.exchange interaction)
  | perform action => some (.perform action)
  | choice chooser branches => some (.choice chooser branches.length)
  | loop head _ => some (.loop head)
  | jump label => some (.jump label)
  | invoke call => some (.invoke call)
  | interruptible scope _ interrupts =>
      some (.interruptible scope (interrupts.map Interrupt.trigger))

/-- The children of the outermost node, each with the way it is enclosed. -/
def enclosed : Protocol → List (Enclosure × Protocol)
  | compose how parts => parts.map fun part => (.part how, part)
  | choice chooser branches =>
      branches.zipIdx.map fun entry =>
        (.branch chooser branches.length entry.2, entry.1)
  | loop head body => body.map fun part => (.iteration head, part)
  | interruptible scope body interrupts =>
      (body.map fun part =>
        (.body scope (interrupts.map Interrupt.trigger), part)) ++
      interrupts.zipIdx.flatMap fun entry => entry.1.body.map fun part =>
        (.handler scope (interrupts.map Interrupt.trigger) entry.2, part)
  | exchange _ | perform _ | jump _ | invoke _ => []

theorem map_snd_enclosed (protocol : Protocol) :
    protocol.enclosed.map Prod.snd = protocol.children := by
  have inOrder : ∀ interrupts : List (Interrupt Protocol),
      (interrupts.zipIdx.flatMap fun entry => entry.1.body) =
        interrupts.flatMap Interrupt.body := by
    intro interrupts
    conv_rhs => rw [← List.zipIdx_map_fst 0 interrupts, List.flatMap_map]
  cases protocol <;>
    simp [enclosed, children, List.map_flatMap, Function.comp_def, inOrder]

theorem mem_children_of_mem_enclosed {protocol : Protocol}
    {entry : Enclosure × Protocol} (member : entry ∈ protocol.enclosed) :
    entry.2 ∈ protocol.children := by
  rw [← map_snd_enclosed]
  exact List.mem_map_of_mem member

/-- The item of the outermost node, unless that is a composition. -/
def item? (chain : List Enclosure) (protocol : Protocol) : Option Item :=
  protocol.content?.map fun content => ⟨content, chain⟩

/-- The items of a tree that a chain of nodes encloses: that of the outermost
node, then those of the children. -/
def items (chain : List Enclosure) (protocol : Protocol) : List Item :=
  (protocol.item? chain).toList ++
    protocol.enclosed.attach.flatMap fun entry =>
      entry.1.2.items (entry.1.1 :: chain)
termination_by protocol
decreasing_by
  exact sizeOf_lt_of_mem_children (mem_children_of_mem_enclosed entry.2)

theorem items_eq (chain : List Enclosure) (protocol : Protocol) :
    protocol.items chain =
      (protocol.item? chain).toList ++
        protocol.enclosed.flatMap fun entry =>
          entry.2.items (entry.1 :: chain) := by
  rw [items]
  conv_rhs =>
    rw [← List.attach_map_subtype_val protocol.enclosed, List.flatMap_map]

/-- The items of a tree; the outermost root belongs to no chain. -/
def itemList (protocol : Protocol) : List Item :=
  protocol.topLevel.flatMap (items [])

theorem items_compose (chain : List Enclosure) (how : Composition)
    (parts : List Protocol) :
    (compose how parts).items chain =
      parts.flatMap (items (.part how :: chain)) := by
  rw [items_eq, enclosed, List.flatMap_map]
  rfl

theorem flatMap_visible (role : Role) (list : Protocol → List Item)
    (parts : List Protocol) :
    (parts.filterMap (visibleTo role)).flatMap list =
      parts.flatMap fun part => (part.visibleTo role).toList.flatMap list := by
  rw [List.filterMap_eq_flatMap_toList, List.flatMap_assoc]

/-- A node that a role sees encloses what the role sees of its children in the
same way; an empty branch of a choice adds no item. -/
theorem items_visibleTo_step (role : Role) (chain : List Enclosure)
    (protocol : Protocol) :
    (protocol.visibleTo role).toList.flatMap (items chain) =
      ((protocol.item? chain).bind (Item.seenBy role)).toList ++
        protocol.enclosed.flatMap fun entry =>
          (entry.2.visibleTo role).toList.flatMap
            (items (entry.1 :: chain)) := by
  cases protocol with
  | exchange interaction =>
      rw [visibleTo, item?, content?, Option.map_some, Option.bind_some,
        Item.seenBy, Content.seenBy_exchange]
      cases interaction.viewOf role with
      | none => rfl
      | some action =>
          rw [Option.map_some, Option.toList_some, List.flatMap_singleton,
            items_eq]
          rfl
  | perform | jump | invoke =>
      rw [visibleTo, Option.toList_some, List.flatMap_singleton, items_eq]
      rfl
  | compose how parts =>
      have below : (parts.filterMap (visibleTo role)).flatMap
          (items (.part how :: chain)) = _ := flatMap_visible role _ parts
      rw [visibleTo, item?, content?, enclosed, List.flatMap_map, ← below]
      cases parts.filterMap (visibleTo role) with
      | nil => rfl
      | cons => simp [composeNonempty, items_compose]
  | choice chooser branches =>
      have inBranch : ∀ (branch : Protocol) (chain : List Enclosure),
          ((branch.visibleTo role).getD (block [])).items chain =
            (branch.visibleTo role).toList.flatMap (items chain) := by
        intro branch chain
        cases branch.visibleTo role with
        | none => exact items_compose chain .block []
        | some view => simp
      rw [visibleTo, Option.toList_some, List.flatMap_singleton, items_eq]
      simp only [item?, content?, enclosed, List.length_map, List.zipIdx_map,
        List.map_map, List.flatMap_map, Function.comp_def, Prod.map, inBranch]
      rfl
  | loop head body =>
      rw [visibleTo, Option.toList_some, List.flatMap_singleton, items_eq]
      simp only [item?, content?, enclosed, List.flatMap_map, flatMap_visible]
      rfl
  | interruptible scope body interrupts =>
      rw [visibleTo, Option.toList_some, List.flatMap_singleton, items_eq]
      simp only [item?, content?, enclosed, List.map_map, List.zipIdx_map,
        List.flatMap_append, List.flatMap_assoc, List.flatMap_map,
        Function.comp_def, Prod.map, flatMap_visible]
      rfl

theorem items_visibleTo (role : Role) (chain : List Enclosure)
    (protocol : Protocol) :
    (protocol.visibleTo role).toList.flatMap (items chain) =
      (protocol.items chain).filterMap (Item.seenBy role) := by
  induction protocol using inductionOnChildren generalizing chain with
  | node protocol ih =>
      have itself : ((protocol.item? chain).bind (Item.seenBy role)).toList =
          (protocol.item? chain).toList.filterMap (Item.seenBy role) := by
        cases protocol.item? chain with
        | none => rfl
        | some item => cases seen : item.seenBy role <;> simp [seen]
      have below : protocol.enclosed.flatMap (fun entry =>
          (entry.2.visibleTo role).toList.flatMap (items (entry.1 :: chain))) =
          protocol.enclosed.flatMap fun entry =>
            (entry.2.items (entry.1 :: chain)).filterMap
              (Item.seenBy role) := by
        apply List.flatMap_congr
        intro entry member
        exact ih entry.2 (mem_children_of_mem_enclosed member) _
      rw [items_visibleTo_step, items_eq, List.filterMap_append,
        List.filterMap_flatMap, itself, below]

/-- What a tree says, in the order of a walk. -/
def contents (protocol : Protocol) : List Content :=
  protocol.collect content?

theorem map_content_items (chain : List Enclosure) (protocol : Protocol) :
    (protocol.items chain).map Item.content = protocol.contents := by
  induction protocol using inductionOnChildren generalizing chain with
  | node protocol ih =>
      have below : protocol.enclosed.flatMap (fun entry =>
          (entry.2.items (entry.1 :: chain)).map Item.content) =
            protocol.children.flatMap contents := by
        rw [← map_snd_enclosed, List.flatMap_map]
        apply List.flatMap_congr
        intro entry member
        exact ih entry.2 (mem_children_of_mem_enclosed member) _
      have itself : (protocol.item? chain).toList.map Item.content =
          protocol.content?.toList := by
        rw [item?]
        cases protocol.content? <;> rfl
      rw [items_eq, List.map_append, List.map_flatMap, below, itself, contents,
        collect_eq]
      rfl

theorem map_content_itemList (protocol : Protocol) :
    protocol.itemList.map Item.content = protocol.contents := by
  have listed : protocol.itemList.map Item.content =
      protocol.topLevel.flatMap contents := by
    simp only [itemList, List.map_flatMap, map_content_items]
  rw [listed]
  unfold topLevel
  split
  · rw [contents, collect_eq]
    rfl
  · exact List.flatMap_singleton _ _

theorem itemList_visible (role : Role) (parts : List Protocol) :
    (root (parts.filterMap (visibleTo role))).itemList =
      (parts.flatMap (items [])).filterMap (Item.seenBy role) := by
  calc (root (parts.filterMap (visibleTo role))).itemList
      = parts.flatMap fun part =>
          (part.visibleTo role).toList.flatMap (items []) :=
        flatMap_visible role (items []) parts
    _ = parts.flatMap fun part =>
          (part.items []).filterMap (Item.seenBy role) :=
        List.flatMap_congr fun part _ => items_visibleTo role [] part
    _ = (parts.flatMap (items [])).filterMap (Item.seenBy role) := by
        rw [List.filterMap_flatMap]

theorem contents_of_project {protocol view : Protocol} {role : Role}
    (projected : protocol.project role = .ok view) :
    view.contents = protocol.contents.filterMap (Content.seenBy role) := by
  obtain ⟨_, rfl⟩ := project_eq_ok_iff.mp projected
  rw [← map_content_itemList, ← map_content_itemList, itemList_visible,
    List.filterMap_map, List.map_filterMap]
  apply List.filterMap_congr
  intro item _
  exact item.map_content_seenBy role

/-- Projection loses, repeats and moves nothing: it turns the exchanges in which
the role takes part into actions and drops the other exchanges. -/
theorem projection_keeps_items {protocol view : Protocol} {role : Role}
    (projected : protocol.project role = .ok view) :
    view.itemList = protocol.itemList.filterMap (Item.seenBy role) := by
  obtain ⟨_, rfl⟩ := project_eq_ok_iff.mp projected
  exact itemList_visible role protocol.topLevel

/-- A branch of a choice, a part of a block and a message inside an interrupt
disappear, and everything else stays in its place. -/
theorem projection_keeps_items_around_gaps :
    let message (sender receiver label : String) : Interaction :=
      { sender := some { name := sender }, receivers := [{ name := receiver }],
        message := { label } }
    let protocol := root
      [choice { name := "B" }
        [exchange (message "B" "C" "Other"),
          block [exchange (message "A" "B" "Offer"),
            exchange (message "B" "C" "Log")]],
        loop (.recursion "X")
          [interruptible "scope" [exchange (message "B" "A" "Tick"), jump "X"]
            [⟨{ name := "B" }, [exchange (message "B" "C" "Stop"),
              exchange (message "A" "A" "Note")]⟩]]]
    let view := root
      [choice { name := "B" }
        [block [], block [perform ⟨.send, message "A" "B" "Offer"⟩]],
        loop (.recursion "X")
          [interruptible "scope"
            [perform ⟨.recv, message "B" "A" "Tick"⟩, jump "X"]
            [⟨{ name := "B" }, [perform ⟨.send, message "A" "A" "Note"⟩]⟩]]]
    protocol.project { name := "A" } = .ok view ∧
      view.itemList =
        protocol.itemList.filterMap (Item.seenBy { name := "A" }) := by
  intro message protocol view
  have projected : protocol.project { name := "A" } = .ok view := rfl
  exact ⟨projected, projection_keeps_items projected⟩

end Protocol

end Multiparty
