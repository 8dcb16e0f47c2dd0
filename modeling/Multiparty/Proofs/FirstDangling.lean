import Mathlib.Data.List.Basic
import Multiparty.Proofs.Binding

/-!
# The first jump that nothing binds

The search for a dangling label enters the children of a node from the first to
the last, each with the scope of the node.  What it reports is therefore the
label of the unbound jump with the least path, whatever loops it has passed on
the way.
-/

namespace Multiparty

namespace Protocol

/-- A jump at the path names a label that no loop above it binds. -/
def DanglesAt (protocol : Protocol) (path : Path) (label : String) : Prop :=
  protocol.at? path = some (jump label) ∧ ¬protocol.BoundAt path label

/-- The path is the least one of a dangling jump whose label is not in
`scope`, and `label` is the label of that jump. -/
structure FirstDangling (scope : List String) (protocol : Protocol)
    (path : Path) (label : String) : Prop where
  dangles : protocol.DanglesAt path label
  unscoped : label ∉ scope
  least : ∀ other otherLabel, protocol.DanglesAt other otherLabel →
    otherLabel ∉ scope → (path.order other).isLE = true

theorem danglesAt_cons_iff {protocol : Protocol} {position : Nat} {path : Path}
    {label : String} :
    protocol.DanglesAt (position :: path) label ↔
      ∃ child, protocol.children[position]? = some child ∧
        child.DanglesAt path label ∧ label ∉ protocol.binders := by
  constructor
  · intro dangles
    obtain ⟨found, free⟩ := dangles
    obtain ⟨child, located, below⟩ := at?_cons_eq_some_iff.mp found
    rw [boundAt_cons_iff located, not_or] at free
    exact ⟨child, located, ⟨below, free.2⟩, free.1⟩
  · intro dangles
    obtain ⟨child, located, ⟨below, free⟩, unbound⟩ := dangles
    refine ⟨at?_cons_eq_some_iff.mpr ⟨child, located, below⟩, ?_⟩
    rw [boundAt_cons_iff located]
    exact not_or.mpr ⟨unbound, free⟩

theorem not_danglesAt_of_eq_none {protocol : Protocol} {scope : List String}
    {path : Path} {label : String}
    (nothing : protocol.danglingLabel? scope = none) (unscoped : label ∉ scope) :
    ¬protocol.DanglesAt path label := by
  intro dangles
  have bound := danglingLabel?_eq_none_iff.mp nothing path label dangles.1
  exact dangles.2 (bound.resolve_left unscoped)

theorem danglingLabelList?_eq_findSome? (scope : List String)
    (protocols : List Protocol) :
    danglingLabelList? scope protocols =
      protocols.findSome? (danglingLabel? scope) := by
  induction protocols with
  | nil => rfl
  | cons head tail ih =>
      rw [danglingLabelList?, ih, List.findSome?_cons]
      cases head.danglingLabel? scope <;> rfl

/-- The first dangling jump of the first child that has one is the first one of
the node. -/
theorem FirstDangling.of_child {protocol child : Protocol}
    {before after : List Protocol} {scope : List String} {path : Path}
    {label : String} (notJump : ∀ label, protocol ≠ jump label)
    (siblings : protocol.children = before ++ child :: after)
    (nothing : ∀ sibling ∈ before,
      sibling.danglingLabel? (protocol.binders ++ scope) = none)
    (inChild : child.FirstDangling (protocol.binders ++ scope) path label) :
    protocol.FirstDangling scope (before.length :: path) label := by
  obtain ⟨dangles, unscoped, least⟩ := inChild
  rw [List.mem_append, not_or] at unscoped
  have located : protocol.children[before.length]? = some child := by
    rw [siblings, List.getElem?_append_right (Nat.le_refl _), Nat.sub_self]
    rfl
  refine ⟨?_, unscoped.2, ?_⟩
  · exact danglesAt_cons_iff.mpr ⟨child, located, dangles, unscoped.1⟩
  · intro other otherLabel otherDangles otherUnscoped
    cases other with
    | nil => exact absurd (Option.some.inj otherDangles.1) (notJump otherLabel)
    | cons position rest =>
        obtain ⟨sibling, found, below, unbound⟩ :=
          danglesAt_cons_iff.mp otherDangles
        have outside : otherLabel ∉ protocol.binders ++ scope := by
          rw [List.mem_append]
          exact not_or.mpr ⟨unbound, otherUnscoped⟩
        rw [Path.isLE_order_cons_iff]
        -- A jump below an earlier child would have been found there, and one
        -- below a later child has a greater path.
        rcases Nat.lt_trichotomy before.length position with less | same | greater
        · exact .inl less
        · subst same
          rw [located] at found
          cases found
          exact .inr ⟨rfl, least rest otherLabel below outside⟩
        · rw [siblings, List.getElem?_append_left greater] at found
          have resolved := nothing sibling (List.mem_of_getElem? found)
          exact absurd below (not_danglesAt_of_eq_none resolved outside)

theorem exists_firstDangling {protocol : Protocol} {scope : List String}
    {label : String} (found : protocol.danglingLabel? scope = some label) :
    ∃ path, protocol.FirstDangling scope path label := by
  induction protocol using inductionOnChildren generalizing scope with
  | node protocol ih =>
      by_cases isJump : ∃ target, protocol = jump target
      · obtain ⟨target, rfl⟩ := isJump
        rw [danglingLabel?] at found
        split at found
        case isTrue => cases found
        case isFalse unscoped =>
          cases found
          refine ⟨[], ⟨rfl, not_boundAt_nil _ _⟩, unscoped, ?_⟩
          intro other _ _ _
          exact Path.isLE_order_nil other
      · have notJump : ∀ target, protocol ≠ jump target := by
          intro target same
          exact isJump ⟨target, same⟩
        rw [danglingLabel?_eq_of_not_jump notJump,
          danglingLabelList?_eq_findSome?,
          List.findSome?_eq_some_iff] at found
        obtain ⟨before, child, after, siblings, inChild, nothing⟩ := found
        have member : child ∈ protocol.children := by
          rw [siblings]
          exact List.mem_append_right before List.mem_cons_self
        obtain ⟨path, first⟩ := ih child member inChild
        exact ⟨before.length :: path,
          first.of_child notJump siblings nothing⟩

theorem FirstDangling.unique {protocol : Protocol} {scope : List String}
    {path other : Path} {label otherLabel : String}
    (first : protocol.FirstDangling scope path label)
    (otherFirst : protocol.FirstDangling scope other otherLabel) :
    label = otherLabel := by
  have same : path = other := by
    apply Path.eq_of_isLE_order
    · exact first.least other otherLabel otherFirst.dangles otherFirst.unscoped
    · exact otherFirst.least path label first.dangles first.unscoped
  subst same
  have samePlace := first.dangles.1.symm.trans otherFirst.dangles.1
  cases samePlace
  rfl

theorem danglingLabel?_eq_some_iff {protocol : Protocol} {scope : List String}
    {label : String} :
    protocol.danglingLabel? scope = some label ↔
      ∃ path, protocol.FirstDangling scope path label := by
  constructor
  · exact exists_firstDangling
  · intro first
    obtain ⟨path, first⟩ := first
    cases found : protocol.danglingLabel? scope with
    | none =>
        exact absurd first.dangles
          (not_danglesAt_of_eq_none found first.unscoped)
    | some reported =>
        obtain ⟨other, otherFirst⟩ := exists_firstDangling found
        rw [otherFirst.unique first]

/-- The label check finds nothing exactly if every jump has a loop above it that
it names; otherwise it finds the label of the unbound jump with the least
path. -/
theorem label_check_finds_least_path (protocol : Protocol) :
    (protocol.unresolvedLabel? = none ↔
      ∀ path label, protocol.at? path = some (jump label) →
        protocol.BoundAt path label) ∧
    ∀ label, protocol.unresolvedLabel? = some label ↔
      ∃ path, protocol.DanglesAt path label ∧
        ∀ other otherLabel, protocol.DanglesAt other otherLabel →
          (path.order other).isLE = true := by
  refine ⟨unresolvedLabel?_eq_none_iff, ?_⟩
  intro label
  rw [unresolvedLabel?, danglingLabel?_eq_some_iff]
  apply exists_congr
  intro path
  constructor
  · intro first
    refine ⟨first.dangles, ?_⟩
    intro other otherLabel dangles
    exact first.least other otherLabel dangles List.not_mem_nil
  · intro least
    refine ⟨least.1, List.not_mem_nil, ?_⟩
    intro other otherLabel dangles _
    exact least.2 other otherLabel dangles

end Protocol

end Multiparty
