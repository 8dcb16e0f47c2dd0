import Mathlib.Data.List.Basic
import Multiparty.Proofs.Walk
import Multiparty.Protocol.Scope

/-!
# Jumps and the loops that bind them

The loop that a jump goes back to stands at a proper prefix of the path of the
jump.  The search for a dangling label finds nothing exactly if every jump of
the tree is bound in this sense or by the scope that the search starts with.
-/

namespace Multiparty

namespace Protocol

/-- A loop at a proper prefix of the path binds the label. -/
def BoundAt (protocol : Protocol) (path : Path) (label : String) : Prop :=
  ∃ front, front <+: path ∧ front ≠ path ∧
    ∃ head body, protocol.at? front = some (loop head body) ∧
      head.binder = label

/-- The names that the outermost node binds. -/
def binders : Protocol → List String
  | loop head _ => [head.binder]
  | _ => []

theorem mem_binders_iff {protocol : Protocol} {label : String} :
    label ∈ protocol.binders ↔
      ∃ head body, protocol = loop head body ∧ head.binder = label := by
  cases protocol <;> simp [binders, eq_comm]

theorem not_boundAt_nil (protocol : Protocol) (label : String) :
    ¬protocol.BoundAt [] label := by
  intro bound
  obtain ⟨front, isPrefix, proper, _⟩ := bound
  exact proper (List.prefix_nil.mp isPrefix)

theorem boundAt_cons_iff {protocol child : Protocol} {position : Nat}
    {path : Path} {label : String}
    (located : protocol.children[position]? = some child) :
    protocol.BoundAt (position :: path) label ↔
      label ∈ protocol.binders ∨ child.BoundAt path label := by
  rw [mem_binders_iff]
  constructor
  · intro bound
    obtain ⟨front, isPrefix, proper, head, body, found, named⟩ := bound
    cases front with
    | nil => exact .inl ⟨head, body, Option.some.inj found, named⟩
    | cons first front =>
        obtain ⟨rfl, shorter⟩ := List.cons_prefix_cons.mp isPrefix
        obtain ⟨same, sameLocated, below⟩ := at?_cons_eq_some_iff.mp found
        rw [located] at sameLocated
        cases sameLocated
        right
        refine ⟨front, shorter, ?_, head, body, below, named⟩
        intro whole
        exact proper (congrArg (List.cons first) whole)
  · intro bound
    rcases bound with here | below
    · obtain ⟨head, body, rfl, named⟩ := here
      exact ⟨[], List.nil_prefix, (List.cons_ne_nil _ _).symm, head, body,
        rfl, named⟩
    · obtain ⟨front, isPrefix, proper, head, body, found, named⟩ := below
      refine ⟨position :: front, List.cons_prefix_cons.mpr ⟨rfl, isPrefix⟩, ?_,
        head, body, at?_cons_eq_some_iff.mpr ⟨child, located, found⟩, named⟩
      intro whole
      exact proper (List.tail_eq_of_cons_eq whole)

theorem danglingLabel?_eq_of_not_jump {protocol : Protocol}
    {scope : List String} (notJump : ∀ label, protocol ≠ jump label) :
    protocol.danglingLabel? scope =
      danglingLabelList? (protocol.binders ++ scope) protocol.children := by
  cases protocol with
  | jump label => exact absurd rfl (notJump label)
  | interruptible =>
      rw [danglingLabel?, danglingLabelInterrupts?_eq,
        ← danglingLabelList?_append]
      rfl
  | _ => rfl

theorem danglingLabelList?_eq_none_iff {scope : List String}
    {protocols : List Protocol} :
    danglingLabelList? scope protocols = none ↔
      ∀ protocol ∈ protocols, protocol.danglingLabel? scope = none := by
  induction protocols with
  | nil => simp [danglingLabelList?]
  | cons head tail ih =>
      rw [danglingLabelList?, Option.or_eq_none_iff, ih, List.forall_mem_cons]

theorem danglingLabel?_jump_eq_none_iff {label : String} {scope : List String} :
    (jump label).danglingLabel? scope = none ↔ label ∈ scope := by
  rw [danglingLabel?]
  by_cases inScope : label ∈ scope
  · simp [inScope]
  · simp [inScope]

/-- The search finds nothing exactly if every jump is bound. -/
theorem danglingLabel?_eq_none_iff {protocol : Protocol} {scope : List String} :
    protocol.danglingLabel? scope = none ↔
      ∀ path label, protocol.at? path = some (jump label) →
        label ∈ scope ∨ protocol.BoundAt path label := by
  induction protocol using inductionOnChildren generalizing scope with
  | node protocol ih =>
      by_cases isJump : ∃ label, protocol = jump label
      · obtain ⟨target, rfl⟩ := isJump
        rw [danglingLabel?_jump_eq_none_iff]
        constructor
        · intro inScope path label found
          cases path with
          | nil =>
              cases found
              exact .inl inScope
          | cons => cases found
        · intro bound
          exact (bound [] target rfl).resolve_right (not_boundAt_nil _ _)
      · have notJump : ∀ label, protocol ≠ jump label := by
          intro label same
          exact isJump ⟨label, same⟩
        rw [danglingLabel?_eq_of_not_jump notJump,
          danglingLabelList?_eq_none_iff]
        -- A name is in the scope of a child if it is in the scope of the node
        -- or bound by the node; the latter is what a longer path adds.
        constructor
        · intro resolved path label found
          cases path with
          | nil => exact absurd (Option.some.inj found) (notJump label)
          | cons position path =>
              obtain ⟨child, located, below⟩ := at?_cons_eq_some_iff.mp found
              have member := List.mem_of_getElem? located
              have bound :=
                (ih child member).mp (resolved child member) path label below
              rw [List.mem_append] at bound
              rw [boundAt_cons_iff located]
              tauto
        · intro bound child member
          rw [ih child member]
          intro path label below
          obtain ⟨position, located⟩ := List.mem_iff_getElem?.mp member
          have outer := bound (position :: path) label
            (at?_cons_eq_some_iff.mpr ⟨child, located, below⟩)
          rw [boundAt_cons_iff located] at outer
          rw [List.mem_append]
          tauto

theorem unresolvedLabel?_eq_none_iff {protocol : Protocol} :
    protocol.unresolvedLabel? = none ↔
      ∀ path label, protocol.at? path = some (jump label) →
        protocol.BoundAt path label := by
  rw [unresolvedLabel?, danglingLabel?_eq_none_iff]
  simp

end Protocol

end Multiparty
