import Multiparty.Proofs.Binding
import Multiparty.Proofs.Visibility

/-!
# Local normal forms

Projection leaves no exchanges, binds every jump and trims compositions that
have no parts; only a branch of a choice may be an empty block.  The trees with
these properties are exactly the results of projections, and every projection
leaves them as they are.
-/

namespace Multiparty

namespace Protocol

/-- The node at the path is a branch of a choice. -/
def IsBranchAt (protocol : Protocol) (path : Path) : Prop :=
  ∃ (front : Path) (position : Nat), path = front.child position ∧
    ∃ chooser branches, protocol.at? front = some (choice chooser branches)

/-- A root without exchanges and without childless compositions, apart from
itself and from empty branches of choices, in which every jump is bound. -/
structure IsLocalNormal (protocol : Protocol) : Prop where
  isRoot : ∃ parts, protocol = root parts
  noExchange : ∀ path interaction,
    protocol.at? path ≠ some (exchange interaction)
  noEmptyParallel : ∀ path, protocol.at? path ≠ some (parallel [])
  noEmptyRoot : ∀ path, path ≠ [] → protocol.at? path ≠ some (root [])
  emptyBlock : ∀ path, protocol.at? path = some (block []) →
    protocol.IsBranchAt path
  bound : ∀ path label, protocol.at? path = some (jump label) →
    protocol.BoundAt path label

/-- A tree below the root of a local normal form, apart from an empty branch. -/
inductive IsSettled : Protocol → Prop where
  | perform (action : Action) : IsSettled (perform action)
  | invoke (call : Invocation) : IsSettled (invoke call)
  | jump (label : String) : IsSettled (jump label)
  | compose {how : Composition} {parts : List Protocol} : parts ≠ [] →
      (∀ part ∈ parts, IsSettled part) → IsSettled (compose how parts)
  | choice {chooser : Role} {branches : List Protocol} :
      (∀ branch ∈ branches, branch ≠ block [] → IsSettled branch) →
        IsSettled (choice chooser branches)
  | loop {head : LoopHead} {body : List Protocol} :
      (∀ part ∈ body, IsSettled part) → IsSettled (loop head body)
  | interruptible {scope : String} {body : List Protocol}
      {interrupts : List (Interrupt Protocol)} :
      (∀ part ∈ body, IsSettled part) →
      (∀ part ∈ interrupts.flatMap Interrupt.body, IsSettled part) →
        IsSettled (interruptible scope body interrupts)

theorem forall_visible {role : Role} {parts : List Protocol}
    (settled : ∀ part ∈ parts, ∀ view, part.visibleTo role = some view →
      IsSettled view) :
    ∀ part ∈ parts.filterMap (visibleTo role), IsSettled part := by
  intro view member
  obtain ⟨part, inParts, seen⟩ := List.mem_filterMap.mp member
  exact settled part inParts view seen

theorem isSettled_of_visibleTo {role : Role} {protocol view : Protocol}
    (seen : protocol.visibleTo role = some view) : IsSettled view := by
  induction protocol generalizing view with
  | exchange interaction =>
      rw [visibleTo, Option.map_eq_some_iff] at seen
      obtain ⟨action, _, rfl⟩ := seen
      exact .perform action
  | perform action =>
      rw [visibleTo] at seen
      cases seen
      exact .perform action
  | jump label =>
      rw [visibleTo] at seen
      cases seen
      exact .jump label
  | invoke call =>
      rw [visibleTo] at seen
      cases seen
      exact .invoke call
  | compose how parts ih =>
      have below := forall_visible fun part member view => ih part member
      rw [visibleTo, composeNonempty] at seen
      split at seen
      · cases seen
      case isFalse nonempty =>
        cases seen
        exact .compose (by simpa using nonempty) below
  | choice chooser branches ih =>
      rw [visibleTo] at seen
      cases seen
      apply IsSettled.choice
      intro view member nonempty
      obtain ⟨branch, inBranches, rfl⟩ := List.mem_map.mp member
      cases shown : branch.visibleTo role with
      | none => exact absurd (by rw [shown]; rfl) nonempty
      | some view => exact ih branch inBranches shown
  | loop head body ih =>
      rw [visibleTo] at seen
      cases seen
      exact .loop (forall_visible fun part member view => ih part member)
  | interruptible scope body interrupts bodyIH handlerIH =>
      rw [visibleTo] at seen
      cases seen
      apply IsSettled.interruptible
      · exact forall_visible fun part member view => bodyIH part member
      · rw [List.flatMap_map, ← List.filterMap_flatMap]
        exact forall_visible fun part member view => handlerIH part member

theorem filterMap_visibleTo_eq_self {role : Role} {parts : List Protocol}
    (same : ∀ part ∈ parts, part.visibleTo role = some part) :
    parts.filterMap (visibleTo role) = parts := by
  rw [List.filterMap_congr same]
  exact List.filterMap_some

theorem IsSettled.visibleTo_eq_self {protocol : Protocol}
    (settled : IsSettled protocol) (role : Role) :
    protocol.visibleTo role = some protocol := by
  induction settled with
  | perform | invoke | jump => rw [visibleTo]
  | compose nonempty _ ih =>
      rw [visibleTo, filterMap_visibleTo_eq_self ih, composeNonempty,
        if_neg (by simpa using nonempty)]
  | @choice chooser branches _ ih =>
      have same : (branches.map fun branch =>
          (branch.visibleTo role).getD (block [])) = branches := by
        conv_rhs => rw [← List.map_id branches]
        apply List.map_congr_left
        intro branch member
        by_cases empty : branch = block []
        · subst empty
          rw [visibleTo]
          rfl
        · rw [ih branch member empty]
          rfl
      rw [visibleTo, same]
  | loop _ ih => rw [visibleTo, filterMap_visibleTo_eq_self ih]
  | @interruptible scope body interrupts _ _ bodyIH handlerIH =>
      have same : (interrupts.map fun interrupt =>
          (⟨interrupt.trigger, interrupt.body.filterMap (visibleTo role)⟩ :
            Interrupt Protocol)) = interrupts := by
        conv_rhs => rw [← List.map_id interrupts]
        apply List.map_congr_left
        intro interrupt member
        rw [filterMap_visibleTo_eq_self]
        · rfl
        · intro part inside
          exact handlerIH part (List.mem_flatMap_of_mem member inside)
      rw [visibleTo, filterMap_visibleTo_eq_self bodyIH, same]

theorem not_isBranchAt_nil (protocol : Protocol) : ¬protocol.IsBranchAt [] := by
  intro branch
  obtain ⟨front, position, whole, _⟩ := branch
  exact List.cons_ne_nil _ _ (List.append_eq_nil_iff.mp whole.symm).2

theorem isBranchAt_cons_iff {protocol child : Protocol} {position : Nat}
    {path : Path} (located : protocol.children[position]? = some child) :
    protocol.IsBranchAt (position :: path) ↔
      (path = [] ∧ ∃ chooser branches, protocol = choice chooser branches) ∨
        child.IsBranchAt path := by
  constructor
  · intro branch
    obtain ⟨front, last, whole, chooser, branches, found⟩ := branch
    cases front with
    | nil =>
        cases whole
        exact .inl ⟨rfl, chooser, branches, Option.some.inj found⟩
    | cons first front =>
        cases whole
        obtain ⟨same, sameLocated, below⟩ := at?_cons_eq_some_iff.mp found
        rw [located] at sameLocated
        cases sameLocated
        exact .inr ⟨front, last, rfl, chooser, branches, below⟩
  · intro branch
    rcases branch with ⟨rfl, chooser, branches, rfl⟩ | below
    · exact ⟨[], position, rfl, chooser, branches, rfl⟩
    · obtain ⟨front, last, rfl, chooser, branches, found⟩ := below
      exact ⟨position :: front, last, rfl, chooser, branches,
        at?_cons_eq_some_iff.mpr ⟨child, located, found⟩⟩

/-- The conditions on exchanges and childless compositions, for the outermost
node as for the others. -/
structure IsTrimmed (protocol : Protocol) : Prop where
  noExchange : ∀ path interaction,
    protocol.at? path ≠ some (exchange interaction)
  childless : ∀ path how, protocol.at? path = some (compose how []) →
    path = [] ∨ how = .block ∧ protocol.IsBranchAt path

theorem IsLocalNormal.trimmed {protocol : Protocol}
    (normal : protocol.IsLocalNormal) : protocol.IsTrimmed := by
  refine ⟨normal.noExchange, ?_⟩
  intro path how found
  cases how with
  | root =>
      left
      by_contra inner
      exact normal.noEmptyRoot path inner found
  | block => exact .inr ⟨rfl, normal.emptyBlock path found⟩
  | parallel => exact absurd found (normal.noEmptyParallel path)

namespace IsTrimmed

theorem child {protocol child : Protocol} {position : Nat}
    (trimmed : protocol.IsTrimmed)
    (located : protocol.children[position]? = some child) :
    child.IsTrimmed := by
  constructor
  · intro path interaction found
    exact trimmed.noExchange (position :: path) interaction
      (at?_cons_eq_some_iff.mpr ⟨child, located, found⟩)
  · intro path how found
    have outer := trimmed.childless (position :: path) how
      (at?_cons_eq_some_iff.mpr ⟨child, located, found⟩)
    rw [isBranchAt_cons_iff located] at outer
    rcases outer with whole | ⟨isBlock, ⟨here, _⟩ | below⟩
    · cases whole
    · exact .inl here
    · exact .inr ⟨isBlock, below⟩

/-- Only a choice has a composition without parts as a child. -/
theorem childless_child {protocol : Protocol} {position : Nat}
    {how : Composition} (trimmed : protocol.IsTrimmed)
    (located : protocol.children[position]? = some (compose how [])) :
    how = .block ∧ ∃ chooser branches, protocol = choice chooser branches := by
  have outer := trimmed.childless [position] how
    (at?_cons_eq_some_iff.mpr ⟨_, located, rfl⟩)
  rw [isBranchAt_cons_iff located] at outer
  rcases outer with whole | ⟨isBlock, ⟨_, isChoice⟩ | below⟩
  · cases whole
  · exact ⟨isBlock, isChoice⟩
  · exact absurd below (not_isBranchAt_nil _)

theorem isSettled {protocol : Protocol} (trimmed : protocol.IsTrimmed)
    (nonempty : ∀ how, protocol ≠ compose how []) : IsSettled protocol := by
  induction protocol using inductionOnChildren with
  | node protocol ih =>
      have settled : ∀ child ∈ protocol.children,
          (∀ how, child ≠ compose how []) → IsSettled child := by
        intro child member filled
        obtain ⟨position, located⟩ := List.mem_iff_getElem?.mp member
        exact ih child member (trimmed.child located) filled
      have filled : (∀ chooser branches, protocol ≠ choice chooser branches) →
          ∀ child ∈ protocol.children, IsSettled child := by
        intro notChoice child member
        apply settled child member
        intro how childless
        subst childless
        obtain ⟨position, located⟩ := List.mem_iff_getElem?.mp member
        obtain ⟨_, chooser, branches, isChoice⟩ :=
          trimmed.childless_child located
        exact notChoice chooser branches isChoice
      cases protocol with
      | exchange interaction =>
          exact absurd rfl (trimmed.noExchange [] interaction)
      | perform action => exact .perform action
      | jump label => exact .jump label
      | invoke call => exact .invoke call
      | compose how parts =>
          apply IsSettled.compose
          · intro childless
            subst childless
            exact nonempty how rfl
          · exact filled (by simp)
      | choice chooser branches =>
          apply IsSettled.choice
          intro branch member notEmpty
          apply settled branch member
          intro how childless
          subst childless
          obtain ⟨position, located⟩ := List.mem_iff_getElem?.mp member
          obtain ⟨rfl, _⟩ := trimmed.childless_child located
          exact notEmpty rfl
      | loop head body => exact .loop (filled (by simp))
      | interruptible scope body interrupts =>
          have all := filled (by simp)
          apply IsSettled.interruptible
          · intro part member
            exact all part (List.mem_append_left _ member)
          · intro part member
            exact all part (List.mem_append_right _ member)

end IsTrimmed

namespace IsSettled

theorem child {protocol child : Protocol} (settled : IsSettled protocol)
    (member : child ∈ protocol.children) :
    IsSettled child ∨ child = block [] ∧
      ∃ chooser branches, protocol = Protocol.choice chooser branches := by
  cases settled with
  | perform | invoke | jump => cases member
  | compose _ all | loop all => exact .inl (all child member)
  | choice all =>
      by_cases empty : child = block []
      · exact .inr ⟨empty, _, _, rfl⟩
      · exact .inl (all child member empty)
  | interruptible inBody inHandlers =>
      left
      rcases List.mem_append.mp member with body | handler
      · exact inBody child body
      · exact inHandlers child handler

theorem subtree {protocol node : Protocol} {path : Path}
    (settled : IsSettled protocol) (found : protocol.at? path = some node) :
    IsSettled node ∨ node = block [] ∧ protocol.IsBranchAt path := by
  induction path generalizing protocol with
  | nil =>
      cases found
      exact .inl settled
  | cons position path ih =>
      obtain ⟨child, located, below⟩ := at?_cons_eq_some_iff.mp found
      rw [isBranchAt_cons_iff located]
      have children := settled.child (List.mem_of_getElem? located)
      rcases children with inner | ⟨rfl, isChoice⟩
      · rcases ih inner below with nodeSettled | ⟨empty, branch⟩
        · exact .inl nodeSettled
        · exact .inr ⟨empty, .inr branch⟩
      · cases path with
        | nil =>
            cases below
            exact .inr ⟨rfl, .inl ⟨rfl, isChoice⟩⟩
        | cons => cases below

theorem not_childless (how : Composition) :
    ¬IsSettled (Protocol.compose how []) := by
  intro settled
  cases settled with
  | compose nonempty _ => exact nonempty rfl

end IsSettled

theorem IsLocalNormal.isSettled {parts : List Protocol}
    (normal : (root parts).IsLocalNormal) : ∀ part ∈ parts, IsSettled part := by
  intro part member
  obtain ⟨position, located⟩ := List.mem_iff_getElem?.mp member
  apply (normal.trimmed.child located).isSettled
  intro how childless
  subst childless
  obtain ⟨_, chooser, branches, isChoice⟩ :=
    normal.trimmed.childless_child located
  cases isChoice

theorem isLocalNormal_of_isSettled {parts : List Protocol}
    (resolved : (root parts).unresolvedLabel? = none)
    (settled : ∀ part ∈ parts, IsSettled part) :
    (root parts).IsLocalNormal := by
  have inner : ∀ path node, (root parts).at? path = some node →
      path = [] ∨ IsSettled node ∨
        node = block [] ∧ (root parts).IsBranchAt path := by
    intro path node found
    cases path with
    | nil => exact .inl rfl
    | cons position path =>
        right
        obtain ⟨part, located, below⟩ := at?_cons_eq_some_iff.mp found
        rw [isBranchAt_cons_iff located]
        have partSettled := settled part (List.mem_of_getElem? located)
        rcases partSettled.subtree below with nodeSettled | ⟨empty, branch⟩
        · exact .inl nodeSettled
        · exact .inr ⟨empty, .inr branch⟩
  constructor
  · exact ⟨parts, rfl⟩
  · intro path interaction found
    rcases inner path _ found with rfl | nodeSettled | ⟨empty, _⟩
    · cases found
    · cases nodeSettled
    · cases empty
  · intro path found
    rcases inner path _ found with rfl | nodeSettled | ⟨empty, _⟩
    · cases found
    · exact IsSettled.not_childless _ nodeSettled
    · cases empty
  · intro path nonempty found
    rcases inner path _ found with rfl | nodeSettled | ⟨empty, _⟩
    · exact nonempty rfl
    · exact IsSettled.not_childless _ nodeSettled
    · cases empty
  · intro path found
    rcases inner path _ found with rfl | nodeSettled | ⟨_, branch⟩
    · cases found
    · exact absurd nodeSettled (IsSettled.not_childless _)
    · exact branch
  · exact unresolvedLabel?_eq_none_iff.mp resolved

theorem isLocalNormal_of_project {protocol view : Protocol} {role : Role}
    (projected : protocol.project role = .ok view) : view.IsLocalNormal := by
  have resolved := unresolvedLabel?_of_project projected
  obtain ⟨_, rfl⟩ := project_eq_ok_iff.mp projected
  apply isLocalNormal_of_isSettled resolved
  exact forall_visible fun part _ view seen => isSettled_of_visibleTo seen

theorem IsLocalNormal.project_eq_self {view : Protocol}
    (normal : view.IsLocalNormal) (role : Role) :
    view.project role = .ok view := by
  obtain ⟨parts, rfl⟩ := normal.isRoot
  rw [project_eq_ok_iff]
  refine ⟨unresolvedLabel?_eq_none_iff.mpr normal.bound, ?_⟩
  rw [topLevel, filterMap_visibleTo_eq_self]
  intro part member
  exact (normal.isSettled part member).visibleTo_eq_self role

/-- The local normal forms are the results of projections, and they are the
trees that every projection leaves as they are; so a second projection, also to
another role, changes nothing. -/
theorem projections_are_local_normal_forms (view : Protocol) :
    ((∃ (protocol : Protocol) (role : Role),
      protocol.project role = .ok view) ↔ view.IsLocalNormal) ∧
    (view.IsLocalNormal ↔ ∀ role, view.project role = .ok view) := by
  constructor
  · constructor
    · intro result
      obtain ⟨protocol, role, projected⟩ := result
      exact isLocalNormal_of_project projected
    · intro normal
      exact ⟨view, default, normal.project_eq_self default⟩
  · constructor
    · intro normal role
      exact normal.project_eq_self role
    · intro unchanged
      exact isLocalNormal_of_project (unchanged default)

/-- The view of `A`, with an empty branch and a parallel composition of one
part, is a local normal form and stays as it is when it is projected to `B`. -/
theorem projections_are_local_normal_forms_across_roles :
    let message (sender receiver : String) : Interaction :=
      { sender := some { name := sender }, receivers := [{ name := receiver }] }
    let protocol := root [block [exchange (message "B" "C")],
      choice { name := "B" } [parallel [], exchange (message "B" "A")],
      loop (.recursion "X")
        [parallel [root [], exchange (message "A" "B")], jump "X"]]
    let view := root
      [choice { name := "B" } [block [], perform ⟨.recv, message "B" "A"⟩],
        loop (.recursion "X")
          [parallel [perform ⟨.send, message "A" "B"⟩], jump "X"]]
    protocol.project { name := "A" } = .ok view ∧ view.IsLocalNormal ∧
      view.project { name := "B" } = .ok view := by
  intro message protocol view
  have projected : protocol.project { name := "A" } = .ok view := rfl
  obtain ⟨results, fixed⟩ := projections_are_local_normal_forms view
  have normal : view.IsLocalNormal := results.mp ⟨protocol, _, projected⟩
  exact ⟨projected, normal, fixed.mp normal { name := "B" }⟩

end Protocol

end Multiparty
