import Mathlib.Data.List.Basic
import Multiparty.Comparison.Window
import Multiparty.Proofs.Binding
import Multiparty.Proofs.Denotation

/-!
# Normal forms of trees

A tree is brought to normal form by normalising every expression in it: the
indices of roles and guards, the ranges of loops and the dimensions of payloads.
Nothing else changes, so the normal form has its subtrees at the same paths, the
same actions among its children and the same unbound labels.
-/

namespace Multiparty

def Payload.normalize (payload : Payload) : Payload :=
  { payload with dimensions := payload.dimensions.map Expr.normalize }

def Message.normalize (message : Message) : Message :=
  { message with payloads := message.payloads.map Payload.normalize }

def Interaction.normalize (interaction : Interaction) : Interaction where
  sender := interaction.sender.map Role.normalize
  receivers := interaction.receivers.map Role.normalize
  message := interaction.message.normalize
  guard := interaction.guard.map Role.normalize

def Action.normalize (action : Action) : Action :=
  { action with interaction := action.interaction.normalize }

def LoopHead.normalize : LoopHead → LoopHead
  | recursion label => recursion label
  | forEach index range => forEach index range.normalize

def Invocation.normalize (call : Invocation) : Invocation :=
  { call with
    roles := call.roles.map Role.normalize
    args := call.args.map Message.normalize }

@[simp]
theorem LoopHead.binder_normalize (head : LoopHead) :
    head.normalize.binder = head.binder := by
  cases head <;> rfl

@[simp]
theorem Role.isWildcard_normalize (wildcard : Option String) (role : Role) :
    role.normalize.isWildcard wildcard = role.isWildcard wildcard := rfl

theorem Action.peers_normalize (action : Action) :
    action.normalize.peers = action.peers.map (Option.map Role.normalize) := by
  obtain ⟨direction, interaction⟩ := action
  cases direction with
  | send => simp [Action.normalize, Interaction.normalize, peers]
  | recv => rfl

namespace Protocol

mutual

/-- The tree with all its expressions normalised. -/
def normalize : Protocol → Protocol
  | compose how parts => compose how (normalizeList parts)
  | exchange interaction => exchange interaction.normalize
  | perform action => perform action.normalize
  | choice chooser branches =>
      choice chooser.normalize (normalizeList branches)
  | loop head body => loop head.normalize (normalizeList body)
  | jump label => jump label
  | invoke call => invoke call.normalize
  | interruptible scope body interrupts =>
      interruptible scope (normalizeList body) (normalizeInterrupts interrupts)

/-- List counterpart of `normalize`. -/
def normalizeList : List Protocol → List Protocol
  | [] => []
  | head :: tail => head.normalize :: normalizeList tail

/-- Counterpart of `normalize` for interrupts. -/
def normalizeInterrupts :
    List (Interrupt Protocol) → List (Interrupt Protocol)
  | [] => []
  | ⟨trigger, body⟩ :: tail =>
      ⟨trigger.normalize, normalizeList body⟩ :: normalizeInterrupts tail

end

@[simp]
theorem normalizeList_eq_map (protocols : List Protocol) :
    normalizeList protocols = protocols.map normalize := by
  induction protocols with
  | nil => rfl
  | cons head tail ih => rw [normalizeList, ih, List.map_cons]

@[simp]
theorem normalizeInterrupts_eq_map (interrupts : List (Interrupt Protocol)) :
    normalizeInterrupts interrupts =
      interrupts.map fun interrupt =>
        ⟨interrupt.trigger.normalize, interrupt.body.map normalize⟩ := by
  induction interrupts with
  | nil => rfl
  | cons head tail ih =>
      obtain ⟨trigger, body⟩ := head
      rw [normalizeInterrupts, ih, normalizeList_eq_map, List.map_cons]

theorem children_normalize (protocol : Protocol) :
    protocol.normalize.children = protocol.children.map normalize := by
  cases protocol with
  | interruptible scope body interrupts =>
      simp [normalize, children, List.flatMap_map, List.map_flatMap]
  | _ => simp [normalize, children]

theorem child_normalize_eq_some_iff {protocol normal : Protocol}
    {position : Nat} :
    protocol.normalize.children[position]? = some normal ↔
      ∃ child, protocol.children[position]? = some child ∧
        child.normalize = normal := by
  rw [children_normalize, List.getElem?_map, Option.map_eq_some_iff]

theorem action?_normalize (protocol : Protocol) :
    protocol.normalize.action? = protocol.action?.map Action.normalize := by
  cases protocol <;> simp [normalize, action?]

theorem leadingActions_map_normalize (nodes : List Protocol) :
    leadingActions (nodes.map normalize) =
      (leadingActions nodes).map Action.normalize := by
  induction nodes with
  | nil => rfl
  | cons head tail ih =>
      cases head with
      | perform action =>
          simp only [List.map_cons, normalize, leadingActions, ih]
      | _ => rfl

theorem positionedActions_map_normalize (nodes : List Protocol) :
    positionedActions (nodes.map normalize) =
      (positionedActions nodes).map (Prod.map id Action.normalize) := by
  rw [positionedActions, positionedActions, List.zipIdx_map, List.filterMap_map,
    List.map_filterMap]
  apply List.filterMap_congr
  intro entry _
  obtain ⟨node, position⟩ := entry
  simp [action?_normalize, Function.comp_def]

theorem danglingLabelList?_map {scope : List String} {protocols : List Protocol}
    {replace : Protocol → Protocol}
    (same : ∀ protocol ∈ protocols,
      (replace protocol).danglingLabel? scope = protocol.danglingLabel? scope) :
    danglingLabelList? scope (protocols.map replace) =
      danglingLabelList? scope protocols := by
  induction protocols with
  | nil => rfl
  | cons head tail ih =>
      rw [List.forall_mem_cons] at same
      rw [List.map_cons, danglingLabelList?, danglingLabelList?, same.1,
        ih same.2]

theorem danglingLabel?_normalize (scope : List String) (protocol : Protocol) :
    protocol.normalize.danglingLabel? scope = protocol.danglingLabel? scope := by
  induction protocol using inductionOnChildren generalizing scope with
  | node protocol ih =>
      by_cases isJump : ∃ label, protocol = jump label
      · obtain ⟨label, rfl⟩ := isJump
        rfl
      · have notJump : ∀ label, protocol ≠ jump label := by
          intro label same
          exact isJump ⟨label, same⟩
        have stillNoJump : ∀ label, protocol.normalize ≠ jump label := by
          intro label same
          cases protocol with
          | jump other => exact notJump other rfl
          | _ => cases same
        have sameBinders : protocol.normalize.binders = protocol.binders := by
          cases protocol <;> simp [normalize, binders]
        rw [danglingLabel?_eq_of_not_jump notJump,
          danglingLabel?_eq_of_not_jump stillNoJump, sameBinders,
          children_normalize]
        apply danglingLabelList?_map
        intro child member
        exact ih child member _

theorem unresolvedLabel?_normalize (protocol : Protocol) :
    protocol.normalize.unresolvedLabel? = protocol.unresolvedLabel? :=
  danglingLabel?_normalize [] protocol

end Protocol

end Multiparty
