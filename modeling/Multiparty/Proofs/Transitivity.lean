import Multiparty.Proofs.Symmetry

/-!
# Identical trees in a chain

If expressions are compared as they are written and there is no wildcard, nodes
that agree have equal peers, and hence the same channels.  A message with a label
passes agreement on; one without does not, as it is compatible with messages that
are not compatible with each other.  Rearrangements can then be composed.  Two
actions that stand in another order at the end have changed their order in the
first step or in the second, and what was clear there is clear between the ends.
-/

namespace Multiparty

theorem forall₂_trans {α : Type} {related : α → α → Prop}
    {lefts middles rights : List α}
    (transitive : ∀ middle ∈ middles, ∀ left right,
      related left middle → related middle right → related left right)
    (first : List.Forall₂ related lefts middles)
    (second : List.Forall₂ related middles rights) :
    List.Forall₂ related lefts rights := by
  induction first generalizing rights with
  | nil =>
      cases second
      exact .nil
  | cons head _ ih =>
      rw [List.forall_mem_cons] at transitive
      cases second with
      | cons head' tail' =>
          apply List.Forall₂.cons
          · exact transitive.1 _ _ head head'
          · exact ih transitive.2 tail'

theorem eq_of_forall₂ {α : Type} {related : α → α → Prop} {lefts rights : List α}
    (equal : ∀ left right, related left right → left = right)
    (all : List.Forall₂ related lefts rights) : lefts = rights := by
  rw [← List.forall₂_eq_eq_eq]
  exact all.imp equal

theorem Payload.sameShape_trans {left middle right : Payload}
    (first : left.sameShape middle = true)
    (second : middle.sameShape right = true) : left.sameShape right = true := by
  simp only [sameShape, Bool.and_eq_true, beq_iff_eq] at first second ⊢
  exact ⟨first.1.trans second.1, first.2.trans second.2⟩

/-- Compatibility is passed on by a message with a label. -/
theorem Message.compatible_trans {left middle right : Message}
    (labelled : middle.isLabelled = true)
    (first : left.compatible middle = true)
    (second : middle.compatible right = true) :
    left.compatible right = true := by
  simp only [isLabelled, Bool.not_eq_true'] at labelled
  simp only [compatible, labelled, Bool.and_eq_true, Bool.or_eq_true,
    Bool.false_eq_true, or_false, false_or, beq_iff_eq, isEqv_iff_forall₂]
    at first second ⊢
  constructor
  · rcases first.1 with unlabelled | same
    · exact .inl (.inl unlabelled)
    · rw [same]
      exact second.1.elim (.inl ∘ .inr) .inr
  · apply forall₂_trans _ first.2 second.2
    intro payload _ _ _
    exact Payload.sameShape_trans

namespace Config

variable {config : Config} (noWildcard : config.wildcard = none)
  (asWritten : config.normalizes = false)

section Equality

include asWritten

theorem ExprsAgree.eq {left right : Expr}
    (agree : config.ExprsAgree left right) : left = right := by
  rcases agree with same | ⟨normalizes, _⟩
  · exact same
  · rw [asWritten] at normalizes
    cases normalizes

theorem eq_of_indices {left right : Role} (named : left.name = right.name)
    (indices : List.Forall₂ config.ExprsAgree left.dimensions right.dimensions) :
    left = right := by
  obtain ⟨name, dimensions⟩ := left
  obtain ⟨name', dimensions'⟩ := right
  have sameIndices : dimensions = dimensions' :=
    eq_of_forall₂ (fun _ _ => ExprsAgree.eq asWritten) indices
  rw [sameIndices, show name = name' from named]

theorem GuardsAgree.eq {left right : Option Role}
    (agree : config.GuardsAgree left right) : left = right := by
  cases agree with
  | none => rfl
  | some agree => rw [eq_of_indices asWritten agree.1 agree.2]

include noWildcard

theorem RolesAgree.eq {left right : Role}
    (agree : config.RolesAgree left right) : left = right := by
  apply eq_of_indices asWritten _ agree.2
  apply agree.1.resolve_right
  rw [noWildcard]
  intro wild
  cases wild

theorem PeersAgree.eq {left right : Option Role}
    (agree : config.PeersAgree left right) : left = right := by
  cases agree with
  | none => rfl
  | some agree => rw [agree.eq noWildcard asWritten]

theorem ActionsAgree.peers_eq {left right : Action}
    (agree : config.ActionsAgree left right) : left.peers = right.peers :=
  eq_of_forall₂ (fun _ _ => PeersAgree.eq noWildcard asWritten) agree.peers

theorem HeadersAgree.sharesChannel_eq {left right : Protocol}
    (agree : config.HeadersAgree left right) (wildcard : Option String)
    (other : Protocol) :
    left.sharesChannel wildcard other = right.sharesChannel wildcard other := by
  cases agree with
  | perform agree =>
      cases other with
      | perform action =>
          simp only [Protocol.sharesChannel, Protocol.action?,
            Action.sharesChannel, agree.peers_eq noWildcard asWritten]
      | _ => rfl
  | _ => rfl

end Equality

section Labelled

include noWildcard asWritten

theorem ActionsAgree.trans {left middle right : Action}
    (labelled : middle.interaction.message.isLabelled = true)
    (first : config.ActionsAgree left middle)
    (second : config.ActionsAgree middle right) :
    config.ActionsAgree left right where
  direction := first.direction.trans second.direction
  messages := Message.compatible_trans labelled first.messages second.messages
  guards := first.guards.eq asWritten ▸ second.guards
  peers := first.peers_eq noWildcard asWritten ▸ second.peers

theorem InteractionsAgree.trans {left middle right : Interaction}
    (labelled : middle.message.isLabelled = true)
    (first : config.InteractionsAgree left middle)
    (second : config.InteractionsAgree middle right) :
    config.InteractionsAgree left right where
  messages := Message.compatible_trans labelled first.messages second.messages
  guards := first.guards.eq asWritten ▸ second.guards
  senders := first.senders.eq noWildcard asWritten ▸ second.senders
  receivers :=
    eq_of_forall₂ (fun _ _ => RolesAgree.eq noWildcard asWritten)
      first.receivers ▸ second.receivers

theorem HeadersAgree.trans {left middle right : Protocol}
    (labelled : ∀ message ∈ middle.messages, message.isLabelled = true)
    (first : config.HeadersAgree left middle)
    (second : config.HeadersAgree middle right) :
    config.HeadersAgree left right := by
  cases first with
  | compose lengths =>
      cases second with
      | compose lengths' => exact .compose (lengths.trans lengths')
  | exchange agree =>
      cases second with
      | exchange agree' =>
          apply HeadersAgree.exchange
          exact agree.trans noWildcard asWritten
            (labelled _ List.mem_cons_self) agree'
  | perform agree =>
      cases second with
      | perform agree' =>
          apply HeadersAgree.perform
          exact agree.trans noWildcard asWritten
            (labelled _ List.mem_cons_self) agree'
  | choice named lengths =>
      cases second with
      | choice named' lengths' =>
          exact .choice (named.trans named') (lengths.trans lengths')
  | recursion lengths =>
      cases second with
      | recursion lengths' => exact .recursion (lengths.trans lengths')
  | forEach ranges lengths =>
      cases second with
      | forEach ranges' lengths' =>
          rw [ranges.eq asWritten]
          exact .forEach ranges' (lengths.trans lengths')
  | jump =>
      cases second with
      | jump => exact .jump
  | invoke named roles args =>
      cases second with
      | invoke named' roles' args' =>
          apply HeadersAgree.invoke (named.trans named')
          · rw [eq_of_forall₂ (fun _ _ => RolesAgree.eq noWildcard asWritten)
              roles]
            exact roles'
          · apply forall₂_trans _ args args'
            intro arg member _ _
            exact Message.compatible_trans (labelled arg member)
  | interruptible lengths interrupts =>
      cases second with
      | interruptible lengths' interrupts' =>
          apply HeadersAgree.interruptible (lengths.trans lengths')
          apply forall₂_trans _ interrupts interrupts'
          intro middle _ left right agree agree'
          refine ⟨agree.1.trans agree'.1, ?_⟩
          rw [agree.2.eq noWildcard asWritten]
          exact agree'.2

/-- Two rearrangements one after the other are a rearrangement. -/
theorem Rearrangement.trans {lefts middles rights : List Protocol} {size : Nat}
    {target target' : Equiv.Perm (Fin size)}
    (noOvertaking : config.sendOvertakesRecv = false)
    (labelled : ∀ node ∈ middles, ∀ message ∈ node.messages,
      message.isLabelled = true)
    (first : config.Rearrangement lefts middles target)
    (second : config.Rearrangement middles rights target') :
    config.Rearrangement lefts rights (target.trans target') := by
  constructor
  · intro i
    obtain ⟨left, middle, leftFound, middleFound, header⟩ := first.agree i
    obtain ⟨middle', right, middleFound', rightFound, header'⟩ :=
      second.agree (target i)
    cases middleFound.symm.trans middleFound'
    refine ⟨left, right, leftFound, rightFound, ?_⟩
    rw [sameHeader_iff] at header header' ⊢
    exact header.trans noWildcard asWritten
      (labelled middle (List.mem_of_getElem? middleFound)) header'
  · intro i k before moved left right leftFound rightFound
    left
    -- The middle nodes in question, and what agrees with them at the ends.
    obtain ⟨left', middle, leftFound', middleFound, header⟩ := first.agree i
    obtain ⟨middle', right', middleFound', rightFound', header'⟩ :=
      second.agree (target k)
    cases leftFound.symm.trans leftFound'
    cases rightFound.symm.trans rightFound'
    rw [sameHeader_iff] at header header'
    have distinct : target i ≠ target k := by
      intro same
      rw [target.injective same] at before
      exact lt_irrefl k before
    rcases lt_or_gt_of_ne distinct with inOrder | exchanged
    · rw [header.sharesChannel_eq noWildcard asWritten]
      exact second.disjoint noOvertaking inOrder moved middleFound rightFound
    · rw [Protocol.sharesChannel_comm,
        ← header'.sharesChannel_eq noWildcard asWritten,
        Protocol.sharesChannel_comm]
      exact first.disjoint noOvertaking before exchanged leftFound middleFound'

end Labelled

end Config

namespace Protocol

variable {config : Config}

/-- Every message in a tree has a label, those of interactions, of actions and of
invocations. -/
def Labelled (protocol : Protocol) : Prop :=
  ∀ path node, protocol.at? path = some node →
    ∀ message ∈ node.messages, message.isLabelled = true

instance : DecidablePred Labelled := fun _ =>
  decidable_of_iff _ (forall_at?_iff_preorder _).symm

theorem Labelled.child {protocol child : Protocol} {position : Nat}
    (labelled : protocol.Labelled)
    (found : protocol.children[position]? = some child) : child.Labelled := by
  intro path node located
  apply labelled (position :: path)
  exact at?_cons_eq_some_iff.mpr ⟨child, found, located⟩

/-- Equivalences through a labelled tree compose, if expressions are compared as
they are written and there is neither a wildcard nor overtaking. -/
theorem Equivalent.trans {left middle right : Protocol}
    (noWildcard : config.wildcard = none)
    (noOvertaking : config.sendOvertakesRecv = false)
    (asWritten : config.normalizes = false) (labelled : middle.Labelled)
    (first : Equivalent config left middle)
    (second : Equivalent config middle right) : Equivalent config left right := by
  induction left using inductionOnChildren generalizing middle right with
  | node left ih =>
      have size := first.windowSize_eq
      have lengths := length_children_of_sameHeader first.header
      obtain ⟨header, ⟨target, rearranged⟩, below⟩ := equivalent_iff.mp first
      rw [equivalent_iff, ← size] at second
      obtain ⟨header', ⟨target', rearranged'⟩, below'⟩ := second
      rw [equivalent_iff]
      refine ⟨?_, ⟨target.trans target', ?_⟩, ?_⟩
      · rw [Config.sameHeader_iff] at header header' ⊢
        exact header.trans noWildcard asWritten (labelled [] middle rfl) header'
      · apply rearranged.trans noWildcard asWritten noOvertaking _ rearranged'
        intro node member
        obtain ⟨position, found⟩ := List.mem_iff_getElem?.mp member
        exact labelled.child found [] node rfl
      · intro position leftChild rightChild beyond leftFound rightFound
        have inside : position < middle.children.length := by
          rw [← lengths]
          exact (List.getElem?_eq_some_iff.mp leftFound).1
        have middleFound := List.getElem?_eq_getElem inside
        apply ih leftChild (List.mem_of_getElem? leftFound)
          (labelled.child middleFound)
        · exact below position _ _ beyond leftFound middleFound
        · exact below' position _ _ beyond middleFound rightFound

/-- Trees that are identical to one labelled tree from either side are identical
to each other.  It is enough that the first one is well addressed. -/
theorem identical_comparisons_compose {left middle right : Protocol}
    (noWildcard : config.wildcard = none)
    (noOvertaking : config.sendOvertakesRecv = false)
    (asWritten : config.normalizes = false)
    (addressed : left.WellAddressed) (labelled : middle.Labelled)
    {outcome outcome' : Outcome}
    (compared : compare config left middle = .ok outcome)
    (compared' : compare config middle right = .ok outcome')
    (identical : outcome.identical = true)
    (identical' : outcome'.identical = true) :
    ∃ composed, compare config left right = .ok composed ∧
      composed.identical = true := by
  obtain ⟨leftBound, _, rfl⟩ := compare_eq_ok_iff.mp compared
  obtain ⟨_, rightBound, rfl⟩ := compare_eq_ok_iff.mp compared'
  rw [Outcome.identical_ofMarks_iff] at identical identical'
  apply exists_identical_of_diff_eq_nil leftBound rightBound
  apply diff_eq_nil_of_equivalent _ addressed
  exact (equivalent_of_diff_eq_nil identical).trans noWildcard noOvertaking
    asWritten labelled (equivalent_of_diff_eq_nil identical')

/-- A send is moved behind one of two others in each step. -/
theorem identical_comparisons_compose_step_by_step :
    let config : Config := { wildcard := none }
    let send (receiver : String) : Protocol :=
      perform ⟨.send, { receivers := [⟨receiver, []⟩], message := ⟨"M", []⟩ }⟩
    let tree (first second third : String) : Protocol :=
      root [invoke { protocol := "P", args := [⟨"N", []⟩] },
        loop (.recursion "X") [send first, send second, send third, jump "X"]]
    let left := tree "A" "B" "C"
    let middle := tree "B" "A" "C"
    let right := tree "B" "C" "A"
    (config.wildcard = none ∧ config.sendOvertakesRecv = false ∧
      config.normalizes = false ∧ left.WellAddressed ∧ middle.Labelled) ∧
    (∃ outcome outcome', compare config left middle = .ok outcome ∧
      compare config middle right = .ok outcome' ∧
      outcome.identical = true ∧ outcome'.identical = true) ∧
    ∃ composed, compare config left right = .ok composed ∧
      composed.identical = true := by
  intro config send tree left middle right
  have addressed : left.WellAddressed := by decide
  have labelled : middle.Labelled := by decide
  have compared : compare config left middle = .ok (.ofMarks []) := rfl
  have compared' : compare config middle right = .ok (.ofMarks []) := rfl
  refine ⟨⟨rfl, rfl, rfl, addressed, labelled⟩,
    ⟨_, _, compared, compared', rfl, rfl⟩, ?_⟩
  exact identical_comparisons_compose (show config.wildcard = none from rfl) rfl
    rfl addressed labelled compared compared' rfl rfl

end Protocol

end Multiparty
