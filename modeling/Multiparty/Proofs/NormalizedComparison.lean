import Multiparty.Proofs.HeaderAgreement
import Multiparty.Proofs.Marks
import Multiparty.Proofs.TreeNormalize

/-!
# Comparison of normal forms

Comparing by normal forms is comparing normal forms as they are written, as far
as agreement of nodes is concerned: nodes that agree have normal forms that
agree, and conversely if the dimensions of their payloads are written alike.
The search for counterparts in a loop also asks which actions share a channel,
and it asks this of the actions as they are written.  Normal forms share fewer
channels.  So both comparisons mark a node or neither does, unless its own
message, or one among the leading actions of a loop to which it belongs, agrees
with another one in normal form only, or normalisation separates two channels of
these actions.
-/

namespace Multiparty

section Lists

variable {α β : Type}

theorem isEqv_map {replace : α → β} {same : β → β → Bool}
    {same' : α → α → Bool} {lefts rights : List α}
    (agree : ∀ pair ∈ lefts.zip rights,
      same (replace pair.1) (replace pair.2) = same' pair.1 pair.2) :
    (lefts.map replace).isEqv (rights.map replace) same =
      lefts.isEqv rights same' := by
  induction lefts generalizing rights with
  | nil => cases rights <;> rfl
  | cons left lefts ih =>
      cases rights with
      | nil => rfl
      | cons right rights =>
          rw [List.zip_cons_cons, List.forall_mem_cons] at agree
          rw [List.map_cons, List.map_cons, List.isEqv_cons_cons, agree.1,
            ih agree.2, List.isEqv_cons_cons]

theorem sameOption_map {replace : α → β} {same : β → β → Bool}
    {same' : α → α → Bool} {left right : Option α}
    (agree : ∀ left right,
      same (replace left) (replace right) = same' left right) :
    sameOption same (left.map replace) (right.map replace) =
      sameOption same' left right := by
  cases left with
  | none => cases right <;> rfl
  | some left =>
      cases right with
      | none => rfl
      | some right => exact agree left right

end Lists

namespace Message

variable {left right : Message}

theorem normalize_compatible (same : left.compatible right = true) :
    left.normalize.compatible right.normalize = true := by
  rw [compatible, Bool.and_eq_true, isEqv_iff_forall₂] at same ⊢
  refine ⟨same.1, ?_⟩
  rw [normalize, normalize, List.forall₂_map_left_iff,
    List.forall₂_map_right_iff]
  apply same.2.imp
  intro payload other sameShape
  simp only [Payload.sameShape, Payload.normalize, Bool.and_eq_true,
    beq_iff_eq] at sameShape ⊢
  exact ⟨sameShape.1, congrArg _ sameShape.2⟩

/-- The messages agree if their normal forms do. -/
def WrittenAlike (left right : Message) : Prop :=
  left.normalize.compatible right.normalize = true → left.compatible right = true
deriving Decidable

theorem WrittenAlike.compatible_normalize (alike : left.WrittenAlike right) :
    left.normalize.compatible right.normalize = left.compatible right :=
  Bool.eq_iff_iff.mpr ⟨alike, normalize_compatible⟩

end Message

/-- Messages that stand opposite each other in nodes of one kind are written
alike. -/
def Protocol.MessagesAlike (left right : Protocol) : Prop :=
  left.kind = right.kind →
    ∀ pair ∈ left.messages.zip right.messages, pair.1.WrittenAlike pair.2
deriving Decidable

theorem Protocol.kind_perform_eq {left right : Action}
    (oneWay : left.direction = right.direction) :
    (perform left).kind = (perform right).kind := by
  obtain ⟨direction, _⟩ := left
  obtain ⟨direction', _⟩ := right
  cases oneWay
  cases direction <;> rfl

theorem Protocol.MessagesAlike.of_child {left right child : Protocol}
    {position : Nat} (found : left.children[position]? = some child) :
    left.MessagesAlike right := by
  simp [MessagesAlike, messages_eq_nil_of_child found]

namespace Config

/-- The same comparison of expressions as they are written. -/
def asWritten (config : Config) : Config :=
  { config with normalizes := false }

variable {config : Config}

section Agreement

variable (normalizes : config.normalizes = true)

include normalizes

theorem sameExpr_normalize (left right : Expr) :
    config.asWritten.sameExpr left.normalize right.normalize =
      config.sameExpr left right := by
  rw [sameExpr, sameExpr, if_pos normalizes]
  rfl

theorem sameIndices_normalize (left right : Role) :
    config.asWritten.sameIndices left.normalize right.normalize =
      config.sameIndices left right :=
  isEqv_map fun pair _ => sameExpr_normalize normalizes pair.1 pair.2

theorem samePeer_normalize (left right : Role) :
    config.asWritten.samePeer left.normalize right.normalize =
      config.samePeer left right := by
  rw [samePeer, samePeer, sameIndices_normalize normalizes]
  rfl

theorem sameGuard_normalize (left right : Role) :
    config.asWritten.sameGuard left.normalize right.normalize =
      config.sameGuard left right := by
  rw [sameGuard, sameGuard, sameIndices_normalize normalizes]
  rfl

theorem sameSender_normalize (left right : Interaction) :
    config.asWritten.sameSender left.normalize right.normalize =
      config.sameSender left right :=
  sameOption_map (samePeer_normalize normalizes)

theorem sameReceivers_normalize (left right : Interaction) :
    config.asWritten.sameReceivers left.normalize right.normalize =
      config.sameReceivers left right :=
  isEqv_map fun pair _ => samePeer_normalize normalizes pair.1 pair.2

theorem sameContent_normalize {left right : Interaction}
    (alike : left.message.WrittenAlike right.message) :
    config.asWritten.sameContent left.normalize right.normalize =
      config.sameContent left right := by
  have guards : sameOption config.asWritten.sameGuard
      (left.guard.map Role.normalize) (right.guard.map Role.normalize) =
        sameOption config.sameGuard left.guard right.guard :=
    sameOption_map (sameGuard_normalize normalizes)
  rw [sameContent, sameContent, Interaction.normalize, Interaction.normalize,
    alike.compatible_normalize, guards]

theorem sameAction_normalize {left right : Action}
    (alike : left.direction = right.direction →
      left.interaction.message.WrittenAlike right.interaction.message) :
    config.asWritten.sameAction left.normalize right.normalize =
      config.sameAction left right := by
  obtain ⟨direction, interaction⟩ := left
  by_cases oneWay : direction = right.direction
  · simp only [sameAction, Action.normalize,
      sameContent_normalize normalizes (alike oneWay),
      sameReceivers_normalize normalizes, sameSender_normalize normalizes]
  · have differ : (direction == right.direction) = false := beq_false_of_ne oneWay
    simp only [sameAction, Action.normalize, differ, Bool.false_and]

theorem sameInteraction_normalize {left right : Interaction}
    (alike : left.message.WrittenAlike right.message) :
    config.asWritten.sameInteraction left.normalize right.normalize =
      config.sameInteraction left right := by
  rw [sameInteraction, sameInteraction, sameContent_normalize normalizes alike,
    sameSender_normalize normalizes, sameReceivers_normalize normalizes]

theorem sameLoopHead_normalize (left right : LoopHead) :
    config.asWritten.sameLoopHead left.normalize right.normalize =
      config.sameLoopHead left right := by
  cases left with
  | recursion label => cases right <;> rfl
  | forEach index range =>
      cases right with
      | recursion label => rfl
      | forEach index' range' =>
          simp only [LoopHead.normalize, sameLoopHead,
            sameExpr_normalize normalizes]

theorem sameInvocation_normalize {left right : Invocation}
    (alike : ∀ pair ∈ left.args.zip right.args, pair.1.WrittenAlike pair.2) :
    config.asWritten.sameInvocation left.normalize right.normalize =
      config.sameInvocation left right := by
  have roles : (left.roles.map Role.normalize).isEqv
      (right.roles.map Role.normalize) config.asWritten.samePeer =
        left.roles.isEqv right.roles config.samePeer :=
    isEqv_map fun pair _ => samePeer_normalize normalizes pair.1 pair.2
  have args : (left.args.map Message.normalize).isEqv
      (right.args.map Message.normalize) Message.compatible =
        left.args.isEqv right.args Message.compatible :=
    isEqv_map fun pair opposite => (alike pair opposite).compatible_normalize
  rw [sameInvocation, sameInvocation, Invocation.normalize, Invocation.normalize,
    roles, args]

/-- Nodes agree exactly if their normal forms agree as they are written. -/
theorem sameHeader_normalize {left right : Protocol}
    (alike : left.MessagesAlike right) :
    config.asWritten.sameHeader left.normalize right.normalize =
      config.sameHeader left right := by
  cases left with
  | compose how parts =>
      cases right with
      | compose how' parts' => simp [Protocol.normalize, sameHeader]
      | _ => rfl
  | exchange interaction =>
      cases right with
      | exchange interaction' =>
          apply sameInteraction_normalize normalizes
          exact alike rfl (_, _) List.mem_cons_self
      | _ => rfl
  | perform action =>
      cases right with
      | perform action' =>
          apply sameAction_normalize normalizes
          intro oneWay
          exact alike (Protocol.kind_perform_eq oneWay) (_, _) List.mem_cons_self
      | _ => rfl
  | choice chooser branches =>
      cases right with
      | choice chooser' branches' =>
          simp [Protocol.normalize, sameHeader, Role.normalize]
      | _ => rfl
  | loop head body =>
      cases right with
      | loop head' body' =>
          simp [Protocol.normalize, sameHeader, sameLoopHead_normalize normalizes]
      | _ => rfl
  | jump label => cases right <;> rfl
  | invoke call =>
      cases right with
      | invoke call' => exact sameInvocation_normalize normalizes (alike rfl)
      | _ => rfl
  | interruptible scope body interrupts =>
      cases right with
      | interruptible scope' body' interrupts' =>
          simp only [Protocol.normalize, sameHeader,
            Protocol.normalizeList_eq_map, Protocol.normalizeInterrupts_eq_map,
            List.length_map]
          congr 1
          apply isEqv_map
          intro pair _
          simp only [sameInterrupt, List.length_map,
            samePeer_normalize normalizes]
      | _ => rfl

/-- Normal forms agree where the nodes do. -/
theorem sameHeader_normalize_of_same {left right : Protocol}
    (header : config.sameHeader left right = true) :
    config.asWritten.sameHeader left.normalize right.normalize = true := by
  have alike : left.MessagesAlike right := fun _ pair opposite _ =>
    compatible_of_sameHeader header pair opposite
  rw [sameHeader_normalize normalizes alike, header]

end Agreement

end Config

theorem peersOverlap_of_normalize {wildcard : Option String}
    {left right : Option Role}
    (overlap : peersOverlap wildcard (left.map Role.normalize)
      (right.map Role.normalize) = true) :
    peersOverlap wildcard left right = true := by
  cases left with
  | none => rfl
  | some left =>
      cases right with
      | none => rfl
      | some right =>
          simp only [Option.map_some, peersOverlap, Role.isWildcard_normalize,
            Bool.or_eq_true] at overlap ⊢
          exact overlap.imp_right Role.overlaps_of_overlaps_normalize

/-- Normalisation joins no channels. -/
theorem Action.sharesChannel_of_normalize {wildcard : Option String}
    {left right : Action}
    (shared : left.normalize.sharesChannel wildcard right.normalize = true) :
    left.sharesChannel wildcard right = true := by
  rw [sharesChannel, peers_normalize, peers_normalize] at shared
  simp only [List.any_map, List.any_eq_true, Function.comp_apply] at shared
  obtain ⟨leftPeer, inLeft, rightPeer, inRight, overlap⟩ := shared
  exact sharesChannel_of_peersOverlap inLeft inRight
    (peersOverlap_of_normalize overlap)

namespace Config

variable {config : Config}

theorem blocks_normalize {left right : Action}
    (sharesAlike : left.normalize.sharesChannel config.wildcard right.normalize =
      left.sharesChannel config.wildcard right) :
    config.asWritten.blocks left.normalize right.normalize =
      config.blocks left right := by
  unfold blocks
  rw [← sharesAlike]
  rfl

theorem blocks_of_normalize {left right : Action}
    (blocked : config.asWritten.blocks left.normalize right.normalize = true) :
    config.blocks left right = true := by
  unfold blocks at blocked ⊢
  rw [Bool.and_eq_true] at blocked ⊢
  exact ⟨Action.sharesChannel_of_normalize blocked.1, blocked.2⟩

theorem windowSize_normalize (protocol : Protocol) :
    config.asWritten.windowSize protocol.normalize =
      config.windowSize protocol := by
  cases protocol with
  | loop head body =>
      simp [Protocol.normalize, windowSize, asWritten,
        Protocol.leadingActions_map_normalize]
  | _ => rfl

/-- The actions among the children that may be reordered. -/
def windowActions (config : Config) (loop protocol : Protocol) : List Action :=
  (protocol.children.take (config.windowSize loop)).filterMap Protocol.action?

/-- Messages of actions that may be reordered are written alike, as far as the
actions have one direction. -/
def WindowsAlike (config : Config) (left right : Protocol) : Prop :=
  ∀ leftAction ∈ config.windowActions left left,
    ∀ rightAction ∈ config.windowActions left right,
      leftAction.direction = rightAction.direction →
        leftAction.interaction.message.WrittenAlike
          rightAction.interaction.message
deriving Decidable

/-- Actions that may be reordered share a channel only if their normal forms
do. -/
def KeepsChannels (config : Config) (left right : Protocol) : Prop :=
  ∀ leftAction ∈ config.windowActions left left,
    ∀ rightAction ∈ config.windowActions left right,
      leftAction.sharesChannel config.wildcard rightAction = true →
        leftAction.normalize.sharesChannel config.wildcard
          rightAction.normalize = true
deriving Decidable

end Config

namespace Protocol

variable {config : Config} {left right : Protocol}

/-- The relation holds between any two nodes at one path. -/
def AtEveryPath (relation : Protocol → Protocol → Prop)
    (left right : Protocol) : Prop :=
  ∀ path inner opposite, left.at? path = some inner →
    right.at? path = some opposite → relation inner opposite

theorem AtEveryPath.root {relation : Protocol → Protocol → Prop}
    (everywhere : AtEveryPath relation left right) : relation left right :=
  everywhere [] left right rfl rfl

theorem AtEveryPath.child {relation : Protocol → Protocol → Prop}
    {leftChild rightChild : Protocol} {position : Nat}
    (everywhere : AtEveryPath relation left right)
    (leftFound : left.children[position]? = some leftChild)
    (rightFound : right.children[position]? = some rightChild) :
    AtEveryPath relation leftChild rightChild := by
  intro path inner opposite innerFound oppositeFound
  apply everywhere (position :: path) inner opposite
  · exact at?_cons_eq_some_iff.mpr ⟨leftChild, leftFound, innerFound⟩
  · exact at?_cons_eq_some_iff.mpr ⟨rightChild, rightFound, oppositeFound⟩

theorem atEveryPath_iff_preorder {relation : Protocol → Protocol → Prop} :
    AtEveryPath relation left right ↔
      ∀ entry ∈ left.preorder, ∀ entry' ∈ right.preorder,
        entry.1 = entry'.1 → relation entry.2 entry'.2 := by
  constructor
  · intro everywhere entry visited entry' visited' samePath
    apply everywhere entry.1 entry.2 entry'.2
    · exact mem_preorder_iff.mp visited
    · rw [samePath]
      exact mem_preorder_iff.mp visited'
  · intro visited path inner opposite innerFound oppositeFound
    exact visited (path, inner) (mem_preorder_iff.mpr innerFound)
      (path, opposite) (mem_preorder_iff.mpr oppositeFound) rfl

instance (relation : Protocol → Protocol → Prop) [DecidableRel relation] :
    Decidable (AtEveryPath relation left right) :=
  decidable_of_iff _ atEveryPath_iff_preorder.symm

/-- What decides on a mark at the path is left alone by normalisation: the
messages there are written alike, and if the path leads to a child that may be
reordered, so are the messages among such children, and their channels are
kept. -/
structure SettledAt (config : Config) (left right : Protocol) (path : Path) :
    Prop where
  node : ∀ inner opposite, left.at? path = some inner →
    right.at? path = some opposite → inner.MessagesAlike opposite
  window : ∀ front position outer opposite, path = front.child position →
    left.at? front = some outer → right.at? front = some opposite →
      position < config.windowSize outer →
        config.WindowsAlike outer opposite ∧ config.KeepsChannels outer opposite

theorem SettledAt.child {leftChild rightChild : Protocol} {position : Nat}
    {path : Path} (settled : SettledAt config left right (position :: path))
    (leftFound : left.children[position]? = some leftChild)
    (rightFound : right.children[position]? = some rightChild) :
    SettledAt config leftChild rightChild path := by
  constructor
  · intro inner opposite innerFound oppositeFound
    apply settled.node
    · exact at?_cons_eq_some_iff.mpr ⟨leftChild, leftFound, innerFound⟩
    · exact at?_cons_eq_some_iff.mpr ⟨rightChild, rightFound, oppositeFound⟩
  · intro front last outer opposite whole outerFound oppositeFound inside
    apply settled.window (position :: front) last outer opposite
    · rw [whole]
      rfl
    · exact at?_cons_eq_some_iff.mpr ⟨leftChild, leftFound, outerFound⟩
    · exact at?_cons_eq_some_iff.mpr ⟨rightChild, rightFound, oppositeFound⟩
    · exact inside

theorem windowMarks_eq_matchActions :
    config.windowMarks left right =
      config.matchActions 0
        (positionedActions (right.children.take (config.windowSize left)))
        (config.windowActions left left) := by
  rw [Config.windowMarks, leadingActions_take_windowSize, Config.windowActions]

theorem windowMarks_normalize_eq_matchActions :
    config.asWritten.windowMarks left.normalize right.normalize =
      config.asWritten.matchActions 0
        ((positionedActions (right.children.take (config.windowSize left))).map
          (Prod.map id Action.normalize))
        ((config.windowActions left left).map Action.normalize) := by
  rw [Config.windowMarks, Config.windowSize_normalize, children_normalize,
    children_normalize, ← List.map_take, ← List.map_take,
    positionedActions_map_normalize, leadingActions_map_normalize,
    leadingActions_take_windowSize, Config.windowActions]

theorem mem_windowActions_of_mem_positionedActions {entry : Nat × Action}
    (member : entry ∈
      positionedActions (right.children.take (config.windowSize left))) :
    entry.2 ∈ config.windowActions left right := by
  rw [Config.windowActions, ← map_snd_positionedActions]
  exact List.mem_map_of_mem member

section Normalizing

variable (normalizes : config.normalizes = true)

include normalizes

theorem windowMarks_normalize (alike : config.WindowsAlike left right)
    (kept : config.KeepsChannels left right) :
    config.asWritten.windowMarks left.normalize right.normalize =
      config.windowMarks left right := by
  rw [windowMarks_normalize_eq_matchActions, windowMarks_eq_matchActions]
  apply Config.matchActions_map
  · intro leftAction inLeft entry free
    exact Config.sameAction_normalize normalizes
      (alike leftAction inLeft entry.2
        (mem_windowActions_of_mem_positionedActions free))
  · intro leftAction inLeft entry free
    apply Config.blocks_normalize
    rw [Bool.eq_iff_iff]
    exact ⟨Action.sharesChannel_of_normalize,
      kept leftAction inLeft entry.2
        (mem_windowActions_of_mem_positionedActions free)⟩

theorem windowMarks_normalize_eq_nil (alike : config.WindowsAlike left right)
    (unmarked : config.windowMarks left right = []) :
    config.asWritten.windowMarks left.normalize right.normalize = [] := by
  rw [windowMarks_eq_matchActions] at unmarked
  rw [windowMarks_normalize_eq_matchActions]
  apply Config.matchActions_map_eq_nil unmarked
  · intro leftAction inLeft entry free
    exact Config.sameAction_normalize normalizes
      (alike leftAction inLeft entry.2
        (mem_windowActions_of_mem_positionedActions free))
  · intro leftAction _ entry _
    exact Config.blocks_of_normalize

/-- Normal forms are not marked where the trees are not. -/
theorem diff_normalize_eq_nil
    (alike : AtEveryPath config.WindowsAlike left right)
    (unmarked : diff config left right = []) :
    diff config.asWritten left.normalize right.normalize = [] := by
  induction left using inductionOnChildren generalizing right with
  | node left ih =>
      obtain ⟨header, window, rest⟩ := diff_eq_nil_iff.mp unmarked
      rw [diff_eq_nil_iff]
      refine ⟨Config.sameHeader_normalize_of_same normalizes header,
        windowMarks_normalize_eq_nil normalizes alike.root window, ?_⟩
      intro position leftNormal rightNormal beyond leftLocated rightLocated
      rw [Config.windowSize_normalize] at beyond
      obtain ⟨leftChild, leftFound, rfl⟩ :=
        child_normalize_eq_some_iff.mp leftLocated
      obtain ⟨rightChild, rightFound, rfl⟩ :=
        child_normalize_eq_some_iff.mp rightLocated
      exact ih leftChild (List.mem_of_getElem? leftFound)
        (alike.child leftFound rightFound)
        (rest position leftChild rightChild beyond leftFound rightFound)

theorem mem_windowMarks_normalize_iff {side : Side} {position : Nat}
    (settled : SettledAt config left right [position]) :
    ⟨side, [position]⟩ ∈
        config.asWritten.windowMarks left.normalize right.normalize ↔
      ⟨side, [position]⟩ ∈ config.windowMarks left right := by
  by_cases inside : position < config.windowSize left
  · obtain ⟨alike, kept⟩ := settled.window [] position left right rfl rfl rfl inside
    rw [windowMarks_normalize normalizes alike kept]
  · apply iff_of_false
    · intro marked
      have within := Config.lt_windowSize_of_mem_windowMarks marked
      rw [Config.windowSize_normalize] at within
      exact inside within
    · intro marked
      exact inside (Config.lt_windowSize_of_mem_windowMarks marked)

/-- Both comparisons mark a path or neither does, if normalisation leaves alone
what decides on it. -/
theorem mem_diff_normalize_iff {side : Side} {path : Path}
    (settled : SettledAt config left right path) :
    ⟨side, path⟩ ∈ diff config.asWritten left.normalize right.normalize ↔
      ⟨side, path⟩ ∈ diff config left right := by
  induction path generalizing left right with
  | nil =>
      have alike := settled.node left right rfl rfl
      rw [mem_diff_nil_iff, mem_diff_nil_iff,
        Config.sameHeader_normalize normalizes alike]
  | cons position rest ih =>
      cases leftFound : left.children[position]? with
      | none =>
          have missing : left.normalize.children[position]? = none := by
            rw [children_normalize, List.getElem?_map, leftFound, Option.map_none]
          exact iff_of_false (notMem_diff_of_no_child missing)
            (notMem_diff_of_no_child leftFound)
      | some leftChild =>
          rw [mem_diff_cons_iff, mem_diff_cons_iff, Config.windowSize_normalize,
            Config.sameHeader_normalize normalizes (.of_child leftFound)]
          apply and_congr_right
          intro _
          apply or_congr
          · apply and_congr_left
            rintro rfl
            exact mem_windowMarks_normalize_iff normalizes settled
          · cases rightFound : right.children[position]? with
            | none => simp [children_normalize, rightFound]
            | some rightChild =>
                simp [children_normalize, leftFound, rightFound,
                  ih (settled.child leftFound rightFound)]

end Normalizing

/-- Comparison by normal forms is comparison of the normal forms as they are
written.  Only two things make a difference: messages that agree in normal form
only, at the path of a mark or among leading actions of a loop, and channels of
such actions that normalisation separates.  The latter never makes normal forms
of identical trees differ. -/
theorem normalizing_compares_normal_forms
    (normalizes : config.normalizes = true)
    (leftBound : left.unresolvedLabel? = none)
    (rightBound : right.unresolvedLabel? = none) :
    ∃ outcome normal, compare config left right = .ok outcome ∧
      compare config.asWritten left.normalize right.normalize = .ok normal ∧
      (AtEveryPath config.WindowsAlike left right →
        outcome.identical = true → normal.identical = true) ∧
      (∀ side path, SettledAt config left right path →
        normal.isMarked side path = outcome.isMarked side path) ∧
      (AtEveryPath MessagesAlike left right →
        AtEveryPath config.WindowsAlike left right →
        AtEveryPath config.KeepsChannels left right → normal = outcome) := by
  refine ⟨.ofMarks (diff config left right),
    .ofMarks (diff config.asWritten left.normalize right.normalize),
    compare_eq_ok_iff.mpr ⟨leftBound, rightBound, rfl⟩,
    compare_eq_ok_iff.mpr ⟨?_, ?_, rfl⟩, ?_, ?_, ?_⟩
  · rw [unresolvedLabel?_normalize, leftBound]
  · rw [unresolvedLabel?_normalize, rightBound]
  · intro alike identical
    rw [Outcome.identical_ofMarks_iff] at identical ⊢
    exact diff_normalize_eq_nil normalizes alike identical
  · intro side path settled
    rw [Bool.eq_iff_iff, Outcome.isMarked_ofMarks_iff,
      Outcome.isMarked_ofMarks_iff]
    exact mem_diff_normalize_iff normalizes settled
  · intro nodesAlike windowsAlike kept
    apply Outcome.ofMarks_congr
    intro ⟨side, path⟩
    apply mem_diff_normalize_iff normalizes
    constructor
    · exact nodesAlike path
    · intro front position outer opposite _ outerFound oppositeFound _
      exact ⟨windowsAlike front outer opposite outerFound oppositeFound,
        kept front outer opposite outerFound oppositeFound⟩

/-- A send to the next worker moves behind a receive.  The index of the worker
and the range of the loop are equal in normal form only. -/
theorem normalizing_compares_normal_forms_of_workers :
    let config : Config := { normalizes := true, wildcard := none }
    let next : Expr := .binary .add (.var "i") (.lit 1)
    let next' : Expr := .binary .add (.lit 1) (.var "i")
    let send (index : Expr) : Protocol :=
      perform ⟨.send, { receivers := [⟨"W", [index]⟩]
                        message := ⟨"M", [⟨"", "int", [next, next']⟩]⟩ }⟩
    let recv : Protocol := perform ⟨.recv, { sender := some ⟨"C", []⟩ }⟩
    let left := loop (.forEach "i" (.range (.lit 0) next)) [send next', recv]
    let right := loop (.forEach "i" (.range (.lit 0) next')) [recv, send next]
    config.normalizes = true ∧
      left.unresolvedLabel? = none ∧ right.unresolvedLabel? = none ∧
      AtEveryPath MessagesAlike left right ∧
      AtEveryPath config.WindowsAlike left right ∧
      AtEveryPath config.KeepsChannels left right ∧
      compare config left right = .ok (.ofMarks []) ∧
      compare config.asWritten left.normalize right.normalize =
        .ok (.ofMarks []) := by
  intro config next next' send recv left right
  have nodesAlike : AtEveryPath MessagesAlike left right := by decide
  have windowsAlike : AtEveryPath config.WindowsAlike left right := by decide
  have kept : AtEveryPath config.KeepsChannels left right := by decide
  obtain ⟨outcome, normal, compared, comparedNormal, _, _, same⟩ :=
    normalizing_compares_normal_forms (show config.normalizes = true from rfl)
      (show left.unresolvedLabel? = none from rfl)
      (show right.unresolvedLabel? = none from rfl)
  have unmarked : compare config left right = .ok (.ofMarks []) := rfl
  obtain rfl : outcome = .ofMarks [] :=
    Except.ok.inj (compared.symm.trans unmarked)
  rw [same nodesAlike windowsAlike kept] at comparedNormal
  exact ⟨rfl, rfl, rfl, nodesAlike, windowsAlike, kept, unmarked,
    comparedNormal⟩

/-- Two sends to workers may not be exchanged if an index has to be normalised
to tell the workers apart, and payload dimensions have to be written alike.
There normal forms are identical where the trees are not. -/
theorem normalizing_may_differ_from_normal_forms :
    let config : Config := { normalizes := true, wildcard := none }
    let next : Expr := .binary .add (.var "i") (.lit 1)
    let next' : Expr := .binary .add (.lit 1) (.var "i")
    let same : Expr := .binary .mul (.var "i") (.lit 1)
    let send (label : String) (index : Expr) : Protocol :=
      perform ⟨.send, { receivers := [⟨"W", [index]⟩], message := ⟨label, []⟩ }⟩
    let array (dimension : Expr) : Protocol :=
      perform ⟨.send, { receivers := [⟨"B", []⟩]
                        message := ⟨"M", [⟨"", "int", [dimension]⟩]⟩ }⟩
    let left := loop (.recursion "L")
      [send "M" same, send "N" next, jump "L"]
    let right := loop (.recursion "L")
      [send "N" next, send "M" same, jump "L"]
    (∃ outcome normal, compare config left right = .ok outcome ∧
      compare config.asWritten left.normalize right.normalize = .ok normal ∧
      outcome.identical = false ∧ normal.identical = true) ∧
    ∃ outcome normal, compare config (array next') (array next) = .ok outcome ∧
      compare config.asWritten (array next').normalize (array next).normalize =
        .ok normal ∧
      outcome.identical = false ∧ normal.identical = true := by
  intro config next next' same send array left right
  exact ⟨⟨_, _, rfl, rfl, by decide, by decide⟩,
    _, _, rfl, rfl, by decide, by decide⟩

end Protocol

end Multiparty
