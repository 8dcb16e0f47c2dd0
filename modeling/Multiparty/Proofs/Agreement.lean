import Multiparty.Comparison.Window
import Multiparty.Proofs.OverlapNormalize

/-!
# Agreement of actions

Actions that agree have the same direction, compatible messages, equal guards
and the same peers, up to normalisation of the indices and a wildcard among the
peers on the right.  Peers that agree have one normal form unless the right one
is a wildcard, so actions that agree share a channel whenever they have a
channel to share; and an action that shares no channel with another one reaches
no endpoint of whatever agrees with that other one.
-/

namespace Multiparty

/-- Every send has a receiver, and no index range of a peer is known to be
empty. -/
structure Action.WellAddressed (action : Action) : Prop where
  addressed : action.direction = .send → action.interaction.receivers ≠ []
  inhabited : ∀ role, some role ∈ action.peers →
    ∀ dimension ∈ role.dimensions, dimension.rangesInhabited = true

theorem Action.wellAddressed_iff {action : Action} :
    action.WellAddressed ↔
      (action.direction = .send → action.interaction.receivers ≠ []) ∧
        ∀ peer ∈ action.peers, ∀ role ∈ peer,
          ∀ dimension ∈ role.dimensions, dimension.rangesInhabited = true := by
  constructor
  · intro addressed
    refine ⟨addressed.addressed, ?_⟩
    intro peer member role isRole
    apply addressed.inhabited role
    rw [← Option.mem_def.mp isRole]
    exact member
  · intro ⟨addressed, inhabited⟩
    refine ⟨addressed, ?_⟩
    intro role member
    exact inhabited (some role) member role rfl

instance : DecidablePred Action.WellAddressed := fun _ =>
  decidable_of_iff _ Action.wellAddressed_iff.symm

theorem sameOption_iff_rel {α : Type} {same : α → α → Bool}
    {related : α → α → Prop} {left right : Option α}
    (relates : ∀ left right, same left right = true ↔ related left right) :
    sameOption same left right = true ↔ Option.Rel related left right := by
  cases left with
  | none =>
      cases right with
      | none => exact iff_of_true rfl .none
      | some => exact iff_of_false Bool.false_ne_true nofun
  | some left =>
      cases right with
      | none => exact iff_of_false Bool.false_ne_true nofun
      | some right =>
          constructor
          · intro agree
            exact .some ((relates left right).mp agree)
          · rintro ⟨agree⟩
            exact (relates left right).mpr agree

namespace Config

variable {config : Config}

/-- Two expressions are equal, or normalisation is switched on and they have one
normal form. -/
def ExprsAgree (config : Config) (left right : Expr) : Prop :=
  left = right ∨
    (config.normalizes = true ∧ left.normalize = right.normalize)

/-- Two roles have equal names and indices; a wildcard on the right has any
name. -/
def RolesAgree (config : Config) (left right : Role) : Prop :=
  (left.name = right.name ∨ config.wildcard = some right.name) ∧
    List.Forall₂ config.ExprsAgree left.dimensions right.dimensions

/-- Two peers are both unknown, or known and agree. -/
def PeersAgree (config : Config) : Option Role → Option Role → Prop :=
  Option.Rel config.RolesAgree

/-- Two guards are both absent, or have equal names and indices. -/
def GuardsAgree (config : Config) : Option Role → Option Role → Prop :=
  Option.Rel fun left right => left.name = right.name ∧
    List.Forall₂ config.ExprsAgree left.dimensions right.dimensions

/-- Two actions have one direction, compatible messages, the same guard and the
same peers. -/
structure ActionsAgree (config : Config) (left right : Action) : Prop where
  direction : left.direction = right.direction
  messages : left.interaction.message.compatible right.interaction.message = true
  guards : config.GuardsAgree left.interaction.guard right.interaction.guard
  peers : List.Forall₂ config.PeersAgree left.peers right.peers

theorem sameExpr_iff {left right : Expr} :
    config.sameExpr left right = true ↔ config.ExprsAgree left right := by
  unfold sameExpr ExprsAgree
  split
  case isTrue normalizes =>
    rw [beq_iff_eq]
    constructor
    · intro same
      exact .inr ⟨normalizes, same⟩
    · rintro (rfl | ⟨_, same⟩)
      · rfl
      · exact same
  case isFalse asWritten => simp [asWritten]

theorem sameIndices_iff {left right : Role} :
    config.sameIndices left right = true ↔
      List.Forall₂ config.ExprsAgree left.dimensions right.dimensions := by
  simp only [sameIndices, isEqv_iff_forall₂, sameExpr_iff]

theorem samePeer_iff {left right : Role} :
    config.samePeer left right = true ↔ config.RolesAgree left right := by
  simp only [samePeer, RolesAgree, Role.isWildcard, Bool.and_eq_true,
    Bool.or_eq_true, beq_iff_eq, sameIndices_iff]

theorem sameGuards_iff {left right : Option Role} :
    sameOption config.sameGuard left right = true ↔
      config.GuardsAgree left right := by
  apply sameOption_iff_rel
  intro leftGuard rightGuard
  rw [sameGuard, Bool.and_eq_true, beq_iff_eq, sameIndices_iff]

theorem sameSender_iff {left right : Interaction} :
    config.sameSender left right = true ↔
      config.PeersAgree left.sender right.sender := by
  apply sameOption_iff_rel
  intro leftSender rightSender
  exact samePeer_iff

theorem sameReceivers_iff {left right : Interaction} :
    config.sameReceivers left right = true ↔
      List.Forall₂ config.RolesAgree left.receivers right.receivers := by
  simp only [sameReceivers, isEqv_iff_forall₂, samePeer_iff]

theorem peersAgree_some_iff {left right : Role} :
    config.PeersAgree (some left) (some right) ↔
      config.RolesAgree left right := by
  constructor
  · rintro ⟨agree⟩
    exact agree
  · exact .some

theorem peersAgree_send_iff {left right : Interaction} :
    List.Forall₂ config.PeersAgree (Action.mk .send left).peers
        (Action.mk .send right).peers ↔
      List.Forall₂ config.RolesAgree left.receivers right.receivers := by
  simp only [Action.peers, List.forall₂_map_left_iff,
    List.forall₂_map_right_iff, peersAgree_some_iff]

theorem peersAgree_recv_iff {left right : Interaction} :
    List.Forall₂ config.PeersAgree (Action.mk .recv left).peers
        (Action.mk .recv right).peers ↔
      config.PeersAgree left.sender right.sender := by
  simp [Action.peers]

theorem sameAction_iff {left right : Action} :
    config.sameAction left right = true ↔ config.ActionsAgree left right := by
  obtain ⟨direction, interaction⟩ := left
  obtain ⟨direction', interaction'⟩ := right
  simp only [sameAction, sameContent, Bool.and_eq_true, beq_iff_eq,
    sameGuards_iff]
  constructor
  · rintro ⟨⟨rfl, compatible, guards⟩, peers⟩
    refine ⟨rfl, compatible, guards, ?_⟩
    cases direction with
    | send => exact peersAgree_send_iff.mpr (sameReceivers_iff.mp peers)
    | recv => exact peersAgree_recv_iff.mpr (sameSender_iff.mp peers)
  · rintro ⟨⟨⟩, compatible, guards, peers⟩
    refine ⟨⟨rfl, compatible, guards⟩, ?_⟩
    cases direction with
    | send => exact sameReceivers_iff.mpr (peersAgree_send_iff.mp peers)
    | recv => exact sameSender_iff.mpr (peersAgree_recv_iff.mp peers)

theorem RolesAgree.refl (role : Role) : config.RolesAgree role role :=
  ⟨.inl rfl, List.forall₂_same.mpr fun _ _ => .inl rfl⟩

theorem PeersAgree.refl (peer : Option Role) : config.PeersAgree peer peer := by
  cases peer with
  | none => exact .none
  | some role => exact .some (.refl role)

theorem peersAgree_self (action : Action) :
    List.Forall₂ config.PeersAgree action.peers action.peers :=
  List.forall₂_same.mpr fun peer _ => PeersAgree.refl peer

theorem map_normalize_eq {lefts rights : List Expr}
    (agree : List.Forall₂ config.ExprsAgree lefts rights) :
    lefts.map Expr.normalize = rights.map Expr.normalize := by
  induction agree with
  | nil => rfl
  | cons head _ ih =>
      rw [List.map_cons, List.map_cons, ih]
      rcases head with rfl | ⟨_, same⟩
      · rfl
      · rw [same]

theorem RolesAgree.normalize_eq {left right : Role}
    (agree : config.RolesAgree left right)
    (named : left.name = right.name) : left.normalize = right.normalize := by
  rw [Role.normalize, Role.normalize, named, map_normalize_eq agree.2]

/-- Peers that agree overlap, unless a range in their indices is empty. -/
theorem PeersAgree.overlap {left right : Option Role}
    (agree : config.PeersAgree left right)
    (inhabited : ∀ role, left = some role →
      ∀ dimension ∈ role.dimensions, dimension.rangesInhabited = true) :
    peersOverlap config.wildcard left right = true := by
  cases agree with
  | none => rfl
  | @some left right agree =>
      rcases agree.1 with named | wild
      · have overlap : left.overlaps right = true :=
          Role.overlaps_of_normalize_eq (agree.normalize_eq named)
            (inhabited left rfl)
        simp [peersOverlap, overlap]
      · simp [peersOverlap, Role.isWildcard, wild]

/-- If roles that agree with two others denote a common endpoint, the two
overlap.  A wildcard must stand on the right of an agreement, so it either is
one of the two or has a name of its own. -/
theorem RolesAgree.overlap {assignment : Assignment}
    {endpoint : Endpoint} {left left' right right' : Role}
    (leftAgree : config.RolesAgree left left')
    (rightAgree : config.RolesAgree right' right)
    (inLeft : left'.Denotes assignment endpoint)
    (inRight : right'.Denotes assignment endpoint) :
    peersOverlap config.wildcard (some left) (some right) = true := by
  by_cases wild : config.wildcard = some right.name
  · simp [peersOverlap, Role.isWildcard, wild]
  · have rightNamed : right'.name = right.name :=
      rightAgree.1.resolve_right wild
    have shared : left'.name = right.name :=
      (inLeft.1.trans inRight.1.symm).trans rightNamed
    have leftNamed : left.name = left'.name := by
      apply leftAgree.1.resolve_right
      rw [shared]
      exact wild
    have overlap : left.overlaps right = true :=
      Role.overlaps_of_normalize_denotes
        (leftAgree.normalize_eq leftNamed).symm
        (rightAgree.normalize_eq rightNamed) inLeft inRight
    simp [peersOverlap, overlap]

theorem PeersAgree.peers_overlap {assignment : Assignment}
    {endpoint : Endpoint} {left left' right right' : Option Role}
    (leftAgree : config.PeersAgree left left')
    (rightAgree : config.PeersAgree right' right)
    (inLeft : ∀ role, left' = some role → role.Denotes assignment endpoint)
    (inRight : ∀ role, right' = some role → role.Denotes assignment endpoint) :
    peersOverlap config.wildcard left right = true := by
  cases leftAgree with
  | none => rfl
  | @some left left' leftAgree =>
      cases rightAgree with
      | none => rfl
      | @some right' right rightAgree =>
          exact leftAgree.overlap rightAgree (inLeft left' rfl)
            (inRight right' rfl)

end Config

theorem exists_left_of_forall₂ {α β : Type} {related : α → β → Prop}
    {lefts : List α} {rights : List β}
    (all : List.Forall₂ related lefts rights) {right : β}
    (member : right ∈ rights) : ∃ left ∈ lefts, related left right := by
  induction all with
  | nil => cases member
  | cons head _ ih =>
      rcases List.mem_cons.mp member with rfl | later
      · exact ⟨_, List.mem_cons_self, head⟩
      · obtain ⟨left, inTail, tail⟩ := ih later
        exact ⟨left, List.mem_cons_of_mem _ inTail, tail⟩

namespace Action

variable {config : Config}

theorem WellAddressed.sharesChannel {left right : Action}
    (addressed : left.WellAddressed) (agree : config.ActionsAgree left right) :
    left.sharesChannel config.wildcard right = true := by
  have hasPeer : left.peers ≠ [] := by
    unfold Action.peers
    cases direction : left.direction with
    | send => simpa using addressed.addressed direction
    | recv => simp
  obtain ⟨peer, member⟩ := List.exists_mem_of_ne_nil _ hasPeer
  obtain ⟨counterpart, inRight, peersAgree⟩ :=
    exists_left_of_forall₂ agree.peers.flip member
  apply sharesChannel_of_peersOverlap member inRight
  apply Config.PeersAgree.overlap peersAgree
  rintro role rfl
  exact addressed.inhabited role member

/-- Actions that agree and are well addressed block each other. -/
theorem WellAddressed.blocks {left right : Action}
    (addressed : left.WellAddressed)
    (same : config.sameAction left right = true) :
    config.blocks left right = true := by
  have agree := Config.sameAction_iff.mp same
  rw [Config.blocks, addressed.sharesChannel agree, agree.direction]
  cases right.direction <;> simp

/-- If actions with the same peers as two others reach a common endpoint, the
two share a channel. -/
theorem sharesChannel_of_agreeing_reaches {assignment : Assignment}
    {endpoint : Endpoint} {left left' right right' : Action}
    (leftPeers : List.Forall₂ config.PeersAgree left.peers left'.peers)
    (rightPeers : List.Forall₂ config.PeersAgree right'.peers right.peers)
    (fromLeft : left'.Reaches assignment endpoint)
    (fromRight : right'.Reaches assignment endpoint) :
    left.sharesChannel config.wildcard right = true := by
  rw [reaches_iff] at fromLeft fromRight
  obtain ⟨leftPeer', leftMember', inLeft⟩ := fromLeft
  obtain ⟨rightPeer', rightMember', inRight⟩ := fromRight
  obtain ⟨leftPeer, leftMember, leftAgree⟩ :=
    exists_left_of_forall₂ leftPeers leftMember'
  obtain ⟨rightPeer, rightMember, rightAgree⟩ :=
    exists_left_of_forall₂ rightPeers.flip rightMember'
  exact sharesChannel_of_peersOverlap leftMember rightMember
    (leftAgree.peers_overlap rightAgree inLeft inRight)

end Action

end Multiparty
