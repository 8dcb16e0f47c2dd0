import Multiparty.Proofs.Reflexivity
import Multiparty.Proofs.WindowEquivalence

/-!
# Relaxed comparisons

Identical trees stay identical when a switch is turned on.  If actions may be
reordered, those that agreed one by one still find each other first.  If sends
may overtake receives, fewer actions block the way and the same ones are taken.
If expressions are compared by their normal forms, an action may agree with
others than before, but these share a channel with it; so it had to find its
counterpart in front of them, and finds it there again.
-/

namespace Multiparty

theorem optionRel_imp {α : Type} {related related' : α → α → Prop}
    {left right : Option α}
    (implies : ∀ left right, related left right → related' left right)
    (relates : Option.Rel related left right) :
    Option.Rel related' left right := by
  cases relates with
  | none => exact .none
  | some relates => exact .some (implies _ _ relates)

namespace Config

variable {config : Config}

/-- The same comparison, which may reorder actions. -/
def reordering (config : Config) : Config :=
  { config with reorders := true }

/-- The same comparison, in which sends may overtake receives. -/
def overtaking (config : Config) : Config :=
  { config with sendOvertakesRecv := true }

/-- The same comparison of expressions by their normal forms. -/
def normalizing (config : Config) : Config :=
  { config with normalizes := true }

theorem reordering_eq_self (reorders : config.reorders = true) :
    config.reordering = config := by
  rw [reordering, ← reorders]

/-! ## Agreement of normal forms -/

theorem ExprsAgree.normalizing {left right : Expr}
    (agree : config.ExprsAgree left right) :
    config.normalizing.ExprsAgree left right := by
  rcases agree with same | ⟨_, same⟩
  · exact .inl same
  · exact .inr ⟨rfl, same⟩

theorem RolesAgree.normalizing {left right : Role}
    (agree : config.RolesAgree left right) :
    config.normalizing.RolesAgree left right :=
  ⟨agree.1, agree.2.imp fun _ _ => ExprsAgree.normalizing⟩

theorem PeersAgree.normalizing {left right : Option Role}
    (agree : config.PeersAgree left right) :
    config.normalizing.PeersAgree left right :=
  optionRel_imp (fun _ _ => RolesAgree.normalizing) agree

theorem GuardsAgree.normalizing {left right : Option Role}
    (agree : config.GuardsAgree left right) :
    config.normalizing.GuardsAgree left right := by
  apply optionRel_imp _ agree
  intro leftGuard rightGuard ⟨named, indices⟩
  exact ⟨named, indices.imp fun _ _ => ExprsAgree.normalizing⟩

theorem ActionsAgree.normalizing {left right : Action}
    (agree : config.ActionsAgree left right) :
    config.normalizing.ActionsAgree left right where
  direction := agree.direction
  messages := agree.messages
  guards := agree.guards.normalizing
  peers := agree.peers.imp fun _ _ => PeersAgree.normalizing

theorem InteractionsAgree.normalizing {left right : Interaction}
    (agree : config.InteractionsAgree left right) :
    config.normalizing.InteractionsAgree left right where
  messages := agree.messages
  guards := agree.guards.normalizing
  senders := agree.senders.normalizing
  receivers := agree.receivers.imp fun _ _ => RolesAgree.normalizing

theorem HeadersAgree.normalizing {left right : Protocol}
    (agree : config.HeadersAgree left right) :
    config.normalizing.HeadersAgree left right := by
  cases agree with
  | compose lengths => exact .compose lengths
  | exchange agree => exact .exchange agree.normalizing
  | perform agree => exact .perform agree.normalizing
  | choice named lengths => exact .choice named lengths
  | recursion lengths => exact .recursion lengths
  | forEach ranges lengths => exact .forEach ranges.normalizing lengths
  | jump => exact .jump
  | invoke named roles args =>
      apply HeadersAgree.invoke named _ args
      exact roles.imp fun _ _ => RolesAgree.normalizing
  | interruptible lengths interrupts =>
      apply HeadersAgree.interruptible lengths
      exact interrupts.imp fun _ _ agree => ⟨agree.1, agree.2.normalizing⟩

theorem sameHeader_normalizing {left right : Protocol}
    (header : config.sameHeader left right = true) :
    config.normalizing.sameHeader left right = true := by
  rw [sameHeader_iff] at header ⊢
  exact header.normalizing

theorem Rearrangement.normalizing {lefts rights : List Protocol} {size : Nat}
    {target : Equiv.Perm (Fin size)}
    (rearranged : config.Rearrangement lefts rights target) :
    config.normalizing.Rearrangement lefts rights target := by
  constructor
  · intro i
    obtain ⟨left, right, leftFound, rightFound, header⟩ := rearranged.agree i
    exact ⟨left, right, leftFound, rightFound, sameHeader_normalizing header⟩
  · exact rearranged.clear

/-! ## Fewer obstacles -/

theorem blocks_of_overtaking {left right : Action}
    (blocked : config.overtaking.blocks left right = true) :
    config.blocks left right = true := by
  unfold blocks at blocked ⊢
  rw [Bool.and_eq_true] at blocked ⊢
  refine ⟨blocked.1, ?_⟩
  cases recv : left.direction == .recv <;> cases send : right.direction == .send <;>
    simp_all [overtaking]

theorem matchActions_overtaking {position : Nat} {free : List (Nat × Action)}
    {lefts : List Action}
    (unmarked : config.matchActions position free lefts = []) :
    config.overtaking.matchActions position free lefts = [] := by
  have same : ∀ left ∈ lefts, ∀ entry ∈ free,
      config.overtaking.sameAction (id left) (id entry.2) =
        config.sameAction left entry.2 := by
    intro left _ entry _
    rfl
  have fewer : ∀ left ∈ lefts, ∀ entry ∈ free,
      config.overtaking.blocks (id left) (id entry.2) = true →
        config.blocks left entry.2 = true := by
    intro left _ entry _
    exact blocks_of_overtaking
  simpa using matchActions_map_eq_nil unmarked same fewer

end Config

namespace Protocol

variable {config : Config} {left right : Protocol}

theorem Equivalent.normalizing (equivalent : Equivalent config left right) :
    Equivalent config.normalizing left right := by
  induction left using inductionOnChildren generalizing right with
  | node left ih =>
      obtain ⟨header, ⟨target, rearranged⟩, below⟩ := equivalent_iff.mp equivalent
      rw [equivalent_iff]
      refine ⟨Config.sameHeader_normalizing header,
        ⟨target, rearranged.normalizing⟩, ?_⟩
      intro position leftChild rightChild beyond leftFound rightFound
      apply ih leftChild (List.mem_of_getElem? leftFound)
      exact below position leftChild rightChild beyond leftFound rightFound

theorem diff_overtaking_eq_nil (unmarked : diff config left right = []) :
    diff config.overtaking left right = [] := by
  induction left using inductionOnChildren generalizing right with
  | node left ih =>
      obtain ⟨header, window, rest⟩ := diff_eq_nil_iff.mp unmarked
      rw [diff_eq_nil_iff]
      refine ⟨header, Config.matchActions_overtaking window, ?_⟩
      intro position leftChild rightChild beyond leftFound rightFound
      apply ih leftChild (List.mem_of_getElem? leftFound)
      exact rest position leftChild rightChild beyond leftFound rightFound

/-! ## Reordering -/

theorem actions_of_sameHeader (header : config.sameHeader left right = true) :
    Option.Rel (fun left right => config.sameAction left right = true)
      left.action? right.action? := by
  cases Config.sameHeader_iff.mp header with
  | perform agree => exact .some (Config.sameAction_iff.mpr agree)
  | _ => exact .none

/-- Actions that agree one by one need not be reordered. -/
theorem windowMarks_of_forall₂
    (same : List.Forall₂ (fun left right => config.sameHeader left right = true)
      left.children right.children) : config.windowMarks left right = [] := by
  have actions : List.Forall₂
      (fun left right => config.sameAction left right = true)
      ((left.children.take (config.windowSize left)).filterMap action?)
      ((right.children.take (config.windowSize left)).filterMap action?) := by
    apply List.rel_filterMap _ (List.forall₂_take _ same)
    intro leftChild rightChild
    exact actions_of_sameHeader
  rw [← map_snd_positionedActions (right.children.take _),
    List.forall₂_map_right_iff] at actions
  rw [Config.windowMarks, leadingActions_take_windowSize]
  exact Config.matchActions_of_forall₂ actions

theorem diff_reordering_eq_nil (unmarked : diff config left right = []) :
    diff config.reordering left right = [] := by
  by_cases reorders : config.reorders = true
  · rw [Config.reordering_eq_self reorders]
    exact unmarked
  · induction left using inductionOnChildren generalizing right with
    | node left ih =>
        obtain ⟨header, _, rest⟩ := diff_eq_nil_iff.mp unmarked
        have size : config.windowSize left = 0 := by
          apply windowSize_of_not_reordered
          intro reordered
          exact reorders reordered.1
        rw [size] at rest
        have same : List.Forall₂
            (fun left right => config.sameHeader left right = true)
            left.children right.children := by
          rw [List.forall₂_iff_get]
          refine ⟨length_children_of_sameHeader header, ?_⟩
          intro position inLeft inRight
          exact (diff_eq_nil_iff.mp (rest position _ _ (Nat.zero_le position)
            (List.getElem?_eq_getElem inLeft)
            (List.getElem?_eq_getElem inRight))).1
        rw [diff_eq_nil_iff]
        refine ⟨header, windowMarks_of_forall₂ same, ?_⟩
        intro position leftChild rightChild _ leftFound rightFound
        apply ih leftChild (List.mem_of_getElem? leftFound)
        exact rest position leftChild rightChild (Nat.zero_le position) leftFound
          rightFound

/-- Trees that are identical stay so if actions may be reordered, if sends may
overtake receives, and, provided that they are well addressed, if expressions
are compared by their normal forms. -/
theorem relaxed_comparisons_stay_identical {outcome : Outcome}
    (compared : compare config left right = .ok outcome)
    (identical : outcome.identical = true) :
    (∃ relaxed, compare config.reordering left right = .ok relaxed ∧
      relaxed.identical = true) ∧
    (∃ relaxed, compare config.overtaking left right = .ok relaxed ∧
      relaxed.identical = true) ∧
    (left.WellAddressed →
      ∃ relaxed, compare config.normalizing left right = .ok relaxed ∧
        relaxed.identical = true) := by
  obtain ⟨leftBound, rightBound, rfl⟩ := compare_eq_ok_iff.mp compared
  rw [Outcome.identical_ofMarks_iff] at identical
  refine ⟨?_, ?_, ?_⟩
  · apply exists_identical_of_diff_eq_nil leftBound rightBound
    exact diff_reordering_eq_nil identical
  · apply exists_identical_of_diff_eq_nil leftBound rightBound
    exact diff_overtaking_eq_nil identical
  · intro addressed
    apply exists_identical_of_diff_eq_nil leftBound rightBound
    apply diff_eq_nil_of_equivalent _ addressed
    exact (equivalent_of_diff_eq_nil identical).normalizing

/-- Two sends to neighbours and a receive, first in the same order without
reordering and then in another one with it.  The unlabelled message is compatible
with both others, and an index is not in normal form. -/
theorem relaxed_comparisons_stay_identical_for_neighbours :
    let config : Config := { wildcard := none }
    let strict : Config := { config with reorders := false }
    let send (label : String) (index : Expr) : Protocol :=
      perform ⟨.send, { receivers := [⟨"W", [index]⟩], message := ⟨label, []⟩ }⟩
    let recv : Protocol := perform ⟨.recv, { sender := some ⟨"C", []⟩ }⟩
    let next (label : String) : Protocol :=
      send label (.binary .add (.lit 1) (.var "i"))
    let left := loop (.recursion "X")
      [recv, next "", send "M" (.var "i"), jump "X"]
    let same := loop (.recursion "Y")
      [recv, next "N", send "M" (.var "i"), jump "Y"]
    let right := loop (.recursion "Y")
      [send "M" (.var "i"), next "N", recv, jump "Y"]
    ((∃ outcome, compare strict left same = .ok outcome ∧
        outcome.identical = true) ∧
      ∃ relaxed, compare strict.reordering left same = .ok relaxed ∧
        relaxed.identical = true) ∧
    (∃ outcome, compare config left right = .ok outcome ∧
      outcome.identical = true) ∧ left.WellAddressed ∧
    (∃ relaxed, compare config.overtaking left right = .ok relaxed ∧
      relaxed.identical = true) ∧
    ∃ relaxed, compare config.normalizing left right = .ok relaxed ∧
      relaxed.identical = true := by
  intro config strict send recv next left same right
  have comparedStrictly : compare strict left same = .ok (.ofMarks []) := rfl
  have compared : compare config left right = .ok (.ofMarks []) := rfl
  have addressed : left.WellAddressed := by decide
  obtain ⟨reordered, _, _⟩ :=
    relaxed_comparisons_stay_identical comparedStrictly rfl
  obtain ⟨_, overtaken, normalized⟩ :=
    relaxed_comparisons_stay_identical compared rfl
  exact ⟨⟨⟨_, comparedStrictly, rfl⟩, reordered⟩, ⟨_, compared, rfl⟩, addressed,
    overtaken, normalized addressed⟩

end Protocol

end Multiparty
