import Multiparty.Proofs.WindowEquivalence

/-!
# Symmetry of comparison

Whether two expressions, roles or actions overlap does not depend on which of
them comes first.  Without a wildcard the same is true of agreement.  A
rearrangement read backwards is one as well: it exchanges the same pairs, and
each of them is tested in the other direction.  So equivalence is symmetric, and
the two searches of a comparison and its opposite succeed together, although
they look for different counterparts in different orders.
-/

namespace Multiparty

section Lists

variable {α : Type}

theorem isEqv_comm {same : α → α → Bool}
    (commutes : ∀ left right, same left right = same right left)
    (lefts rights : List α) :
    lefts.isEqv rights same = rights.isEqv lefts same := by
  induction lefts generalizing rights with
  | nil => cases rights <;> rfl
  | cons left lefts ih =>
      cases rights with
      | nil => rfl
      | cons right rights =>
          rw [List.isEqv_cons_cons, List.isEqv_cons_cons, commutes, ih]

theorem forall₂_symm {related : α → α → Prop} {lefts rights : List α}
    (symmetric : ∀ left right, related left right → related right left)
    (all : List.Forall₂ related lefts rights) :
    List.Forall₂ related rights lefts := by
  apply List.Forall₂.flip
  exact all.imp symmetric

theorem optionRel_symm {related : α → α → Prop} {left right : Option α}
    (symmetric : ∀ left right, related left right → related right left)
    (relates : Option.Rel related left right) :
    Option.Rel related right left := by
  cases relates with
  | none => exact .none
  | some relates => exact .some (symmetric _ _ relates)

end Lists

/-! ## Overlap -/

theorem Extent.overlaps_comm (left right : Extent) :
    left.overlaps right = right.overlaps left := by
  cases left with
  | interval low high =>
      cases right with
      | interval low' high' => exact Bool.and_comm _ _
      | shifted | unknown => rfl
  | shifted name distance =>
      cases right with
      | shifted name' distance' =>
          rw [overlaps, overlaps, bne_comm, BEq.comm]
      | interval | unknown => rfl
  | unknown => cases right <;> rfl

theorem Expr.overlaps_comm (left right : Expr) :
    left.overlaps right = right.overlaps left := by
  fun_induction overlaps left right with
  | case1 first second first' second' firstIH secondIH =>
      rw [overlaps, firstIH, secondIH]
  | case2 left right notBothSeq =>
      rw [overlaps, Extent.overlaps_comm]
      intro first second first' second' rightIsSeq leftIsSeq
      exact notBothSeq _ _ _ _ leftIsSeq rightIsSeq

theorem Expr.overlapsOptional_comm (left right : Option Expr) :
    overlapsOptional left right = overlapsOptional right left := by
  cases left with
  | none => cases right <;> rfl
  | some left =>
      cases right with
      | none => rfl
      | some right => exact overlaps_comm left right

theorem Role.overlaps_comm (left right : Role) :
    left.overlaps right = right.overlaps left := by
  rw [overlaps, overlaps, isEqv_comm Expr.overlaps_comm, bne_comm,
    BEq.comm (a := left.name)]

theorem peersOverlap_comm (wildcard : Option String)
    (left right : Option Role) :
    peersOverlap wildcard left right = peersOverlap wildcard right left := by
  cases left with
  | none => cases right <;> rfl
  | some left =>
      cases right with
      | none => rfl
      | some right =>
          rw [peersOverlap, peersOverlap, Role.overlaps_comm,
            Bool.or_comm (left.isWildcard wildcard)]

theorem Action.sharesChannel_symm {wildcard : Option String}
    {left right : Action} (shared : left.sharesChannel wildcard right = true) :
    right.sharesChannel wildcard left = true := by
  simp only [sharesChannel, List.any_eq_true] at shared
  obtain ⟨leftPeer, inLeft, rightPeer, inRight, overlap⟩ := shared
  apply sharesChannel_of_peersOverlap inRight inLeft
  rw [peersOverlap_comm]
  exact overlap

theorem Action.sharesChannel_comm (wildcard : Option String)
    (left right : Action) :
    left.sharesChannel wildcard right = right.sharesChannel wildcard left := by
  rw [Bool.eq_iff_iff]
  exact ⟨sharesChannel_symm, sharesChannel_symm⟩

theorem Protocol.sharesChannel_comm (wildcard : Option String)
    (left right : Protocol) :
    left.sharesChannel wildcard right = right.sharesChannel wildcard left := by
  unfold sharesChannel
  cases left.action? with
  | none => cases right.action? <;> rfl
  | some action =>
      cases right.action? with
      | none => rfl
      | some action' => exact Action.sharesChannel_comm wildcard action action'

/-- Overlap does not depend on the order, whether of two dimensions that may be
left open, of two roles or of the channels of two nodes, whatever name is
reserved for any role. -/
theorem overlap_is_symmetric :
    (∀ left right : Option Expr,
      Expr.overlapsOptional left right = Expr.overlapsOptional right left) ∧
    (∀ left right : Role, left.overlaps right = right.overlaps left) ∧
    (∀ (wildcard : Option String) (left right : Protocol),
      left.sharesChannel wildcard right = right.sharesChannel wildcard left) :=
  ⟨Expr.overlapsOptional_comm, Role.overlaps_comm, Protocol.sharesChannel_comm⟩

/-! ## Agreement -/

theorem Payload.sameShape_comm (left right : Payload) :
    left.sameShape right = right.sameShape left := by
  rw [sameShape, sameShape, BEq.comm, BEq.comm (a := left.dimensions)]

theorem Message.compatible_comm (left right : Message) :
    left.compatible right = right.compatible left := by
  rw [compatible, compatible, isEqv_comm Payload.sameShape_comm,
    Bool.or_comm left.label.isEmpty, BEq.comm]

namespace Config

variable {config : Config}

theorem ExprsAgree.symm {left right : Expr}
    (agree : config.ExprsAgree left right) : config.ExprsAgree right left := by
  rcases agree with same | ⟨normalizes, same⟩
  · exact .inl same.symm
  · exact .inr ⟨normalizes, same.symm⟩

theorem GuardsAgree.symm {left right : Option Role}
    (agree : config.GuardsAgree left right) : config.GuardsAgree right left := by
  apply optionRel_symm _ agree
  intro leftGuard rightGuard ⟨named, indices⟩
  exact ⟨named.symm, forall₂_symm (fun _ _ => ExprsAgree.symm) indices⟩

/-- Without overtaking, nodes change their order only if they share no
channel. -/
theorem Rearrangement.disjoint {lefts rights : List Protocol} {size : Nat}
    {target : Equiv.Perm (Fin size)}
    (rearranged : config.Rearrangement lefts rights target)
    (noOvertaking : config.sendOvertakesRecv = false) {i k : Fin size}
    (before : i < k) (moved : target k < target i) {left right : Protocol}
    (leftFound : lefts[i.val]? = some left)
    (rightFound : rights[(target k).val]? = some right) :
    left.sharesChannel config.wildcard right = false := by
  apply (rearranged.clear i k before moved left right leftFound
    rightFound).resolve_right
  intro overtaking
  rw [noOvertaking] at overtaking
  cases overtaking.1

section WithoutWildcard

variable (noWildcard : config.wildcard = none)

include noWildcard

theorem RolesAgree.symm {left right : Role}
    (agree : config.RolesAgree left right) : config.RolesAgree right left := by
  obtain ⟨named, indices⟩ := agree
  refine ⟨?_, forall₂_symm (fun _ _ => ExprsAgree.symm) indices⟩
  rcases named with same | wild
  · exact .inl same.symm
  · rw [noWildcard] at wild
    cases wild

theorem PeersAgree.symm {left right : Option Role}
    (agree : config.PeersAgree left right) : config.PeersAgree right left :=
  optionRel_symm (fun _ _ => RolesAgree.symm noWildcard) agree

theorem ActionsAgree.symm {left right : Action}
    (agree : config.ActionsAgree left right) :
    config.ActionsAgree right left where
  direction := agree.direction.symm
  messages := (Message.compatible_comm _ _).trans agree.messages
  guards := agree.guards.symm
  peers := forall₂_symm (fun _ _ => PeersAgree.symm noWildcard) agree.peers

theorem InteractionsAgree.symm {left right : Interaction}
    (agree : config.InteractionsAgree left right) :
    config.InteractionsAgree right left where
  messages := (Message.compatible_comm _ _).trans agree.messages
  guards := agree.guards.symm
  senders := PeersAgree.symm noWildcard agree.senders
  receivers :=
    forall₂_symm (fun _ _ => RolesAgree.symm noWildcard) agree.receivers

theorem InterruptsAgree.symm {left right : Interrupt Protocol}
    (agree : config.InterruptsAgree left right) :
    config.InterruptsAgree right left :=
  ⟨agree.1.symm, RolesAgree.symm noWildcard agree.2⟩

theorem HeadersAgree.symm {left right : Protocol}
    (agree : config.HeadersAgree left right) :
    config.HeadersAgree right left := by
  cases agree with
  | compose lengths => exact .compose lengths.symm
  | exchange agree => exact .exchange (agree.symm noWildcard)
  | perform agree => exact .perform (agree.symm noWildcard)
  | choice named lengths => exact .choice named.symm lengths.symm
  | recursion lengths => exact .recursion lengths.symm
  | forEach ranges lengths => exact .forEach ranges.symm lengths.symm
  | jump => exact .jump
  | invoke named roles args =>
      apply HeadersAgree.invoke named.symm
      · exact forall₂_symm (fun _ _ => RolesAgree.symm noWildcard) roles
      · apply forall₂_symm _ args
        intro arg arg' compatible
        rw [Message.compatible_comm]
        exact compatible
  | interruptible lengths interrupts =>
      apply HeadersAgree.interruptible lengths.symm
      exact forall₂_symm (fun _ _ => InterruptsAgree.symm noWildcard) interrupts

theorem sameHeader_symm {left right : Protocol}
    (header : config.sameHeader left right = true) :
    config.sameHeader right left = true := by
  rw [sameHeader_iff] at header ⊢
  exact header.symm noWildcard

/-- A rearrangement can be read from right to left, unless overtaking is
allowed, which only left receives may suffer. -/
theorem Rearrangement.symm {lefts rights : List Protocol} {size : Nat}
    {target : Equiv.Perm (Fin size)}
    (noOvertaking : config.sendOvertakesRecv = false)
    (rearranged : config.Rearrangement lefts rights target) :
    config.Rearrangement rights lefts target.symm := by
  constructor
  · intro j
    obtain ⟨left, right, leftFound, rightFound, header⟩ :=
      rearranged.agree (target.symm j)
    rw [Equiv.apply_symm_apply] at rightFound
    exact ⟨right, left, rightFound, leftFound, sameHeader_symm noWildcard header⟩
  · intro j k before moved right left rightFound leftFound
    -- Seen from the left, the later one of the two is passed by the earlier one.
    left
    rw [Protocol.sharesChannel_comm]
    apply rearranged.disjoint noOvertaking moved _ leftFound
    · simpa using rightFound
    · simpa using before

end WithoutWildcard

end Config

namespace Protocol

variable {config : Config}

/-- Without a wildcard and without overtaking, equivalence is symmetric. -/
theorem Equivalent.symm {left right : Protocol}
    (noWildcard : config.wildcard = none)
    (noOvertaking : config.sendOvertakesRecv = false)
    (equivalent : Equivalent config left right) :
    Equivalent config right left := by
  induction left using inductionOnChildren generalizing right with
  | node left ih =>
      have size := equivalent.windowSize_eq
      obtain ⟨header, ⟨target, rearranged⟩, below⟩ := equivalent_iff.mp equivalent
      rw [equivalent_iff, ← size]
      refine ⟨Config.sameHeader_symm noWildcard header,
        ⟨target.symm, rearranged.symm noWildcard noOvertaking⟩, ?_⟩
      intro position rightChild leftChild beyond rightFound leftFound
      apply ih leftChild (List.mem_of_getElem? leftFound)
      exact below position leftChild rightChild beyond leftFound rightFound

theorem diff_eq_nil_symm {left right : Protocol}
    (noWildcard : config.wildcard = none)
    (noOvertaking : config.sendOvertakesRecv = false)
    (addressed : right.WellAddressed) (unmarked : diff config left right = []) :
    diff config right left = [] := by
  apply diff_eq_nil_of_equivalent _ addressed
  exact (equivalent_of_diff_eq_nil unmarked).symm noWildcard noOvertaking

/-- Without a wildcard and without overtaking, a comparison of well addressed
trees and its opposite come to the same verdict. -/
theorem opposite_comparisons_agree (left right : Protocol)
    (noWildcard : config.wildcard = none)
    (noOvertaking : config.sendOvertakesRecv = false)
    (leftBound : left.unresolvedLabel? = none)
    (rightBound : right.unresolvedLabel? = none)
    (leftAddressed : left.WellAddressed) (rightAddressed : right.WellAddressed) :
    ∃ outcome opposite, compare config left right = .ok outcome ∧
      compare config right left = .ok opposite ∧
        outcome.identical = opposite.identical := by
  refine ⟨.ofMarks (diff config left right), .ofMarks (diff config right left),
    compare_eq_ok_iff.mpr ⟨leftBound, rightBound, rfl⟩,
    compare_eq_ok_iff.mpr ⟨rightBound, leftBound, rfl⟩, ?_⟩
  rw [Bool.eq_iff_iff, Outcome.identical_ofMarks_iff,
    Outcome.identical_ofMarks_iff]
  constructor
  · exact diff_eq_nil_symm noWildcard noOvertaking rightAddressed
  · exact diff_eq_nil_symm noWildcard noOvertaking leftAddressed

/-- Two sends to neighbours and a receive are in reverse order on the right.
Messages without a label are compatible with more than one other, and an index
has to be normalised. -/
theorem opposite_comparisons_agree_for_neighbours :
    let config : Config := { normalizes := true, wildcard := none }
    let send (label : String) (index : Expr) : Protocol :=
      perform ⟨.send, { receivers := [⟨"W", [index]⟩], message := ⟨label, []⟩ }⟩
    let recv : Protocol := perform ⟨.recv, { sender := some ⟨"C", []⟩ }⟩
    let left := loop (.recursion "X")
      [send "" (.var "i"), send "N" (.binary .add (.lit 1) (.var "i")), recv,
        jump "X"]
    let right := loop (.recursion "Y")
      [recv, send "" (.binary .add (.var "i") (.lit 1)), send "M" (.var "i"),
        jump "Y"]
    (config.wildcard = none ∧ config.sendOvertakesRecv = false ∧
      left.unresolvedLabel? = none ∧ right.unresolvedLabel? = none ∧
      left.WellAddressed ∧ right.WellAddressed) ∧
    ∃ outcome opposite, compare config left right = .ok outcome ∧
      compare config right left = .ok opposite ∧
        outcome.identical = true ∧ opposite.identical = true := by
  intro config send recv left right
  have leftAddressed : left.WellAddressed := by decide
  have rightAddressed : right.WellAddressed := by decide
  obtain ⟨outcome, opposite, compared, comparedBack, same⟩ :=
    opposite_comparisons_agree left right (show config.wildcard = none from rfl)
      rfl rfl rfl leftAddressed rightAddressed
  have identical : outcome.identical = true := by
    obtain ⟨_, _, rfl⟩ := compare_eq_ok_iff.mp compared
    decide
  exact ⟨⟨rfl, rfl, rfl, rfl, leftAddressed, rightAddressed⟩, outcome, opposite,
    compared, comparedBack, identical, same ▸ identical⟩

end Protocol

end Multiparty
