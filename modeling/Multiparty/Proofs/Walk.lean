import Mathlib.Data.List.Basic
import Multiparty.Protocol.Induction
import Multiparty.Protocol.Path

/-!
# The walk through a tree

A walk meets exactly the subtrees that paths lead to, each with its own path.
What a walk reads off the nodes is what the outermost node gives, followed by
what the walks through the children give.
-/

namespace Multiparty

namespace Protocol

theorem at?_cons_eq_some_iff {protocol node : Protocol} {position : Nat}
    {path : Path} :
    protocol.at? (position :: path) = some node ↔
      ∃ child, protocol.children[position]? = some child ∧
        child.at? path = some node := by
  rw [at?, child?, Option.bind_eq_some_iff]

theorem at?_append (protocol : Protocol) (front rest : Path) :
    protocol.at? (front ++ rest) =
      (protocol.at? front).bind fun node => node.at? rest := by
  induction front generalizing protocol with
  | nil => rfl
  | cons position front ih =>
      rw [List.cons_append, at?, at?, Option.bind_assoc]
      cases protocol.child? position with
      | none => rfl
      | some child => exact ih child

theorem mem_preorderList_iff {start : Nat} {protocols : List Protocol}
    {path : Path} {node : Protocol} :
    (path, node) ∈ preorderList start protocols ↔
      ∃ offset rest protocol, path = (start + offset) :: rest ∧
        protocols[offset]? = some protocol ∧
          (rest, node) ∈ protocol.preorder := by
  induction protocols generalizing start with
  | nil => simp [preorderList]
  | cons head tail ih =>
      rw [preorderList, List.mem_append, ih]
      constructor
      · intro found
        rcases found with here | later
        · obtain ⟨⟨rest, subtree⟩, member, same⟩ := List.mem_map.mp here
          cases same
          exact ⟨0, rest, head, rfl, rfl, member⟩
        · obtain ⟨offset, rest, protocol, rfl, located, member⟩ := later
          refine ⟨offset + 1, rest, protocol, ?_, located, member⟩
          rw [Nat.add_assoc, Nat.add_comm 1]
      · intro found
        obtain ⟨offset, rest, protocol, rfl, located, member⟩ := found
        cases offset with
        | zero =>
            cases located
            left
            exact List.mem_map.mpr ⟨(rest, node), member, rfl⟩
        | succ offset =>
            right
            refine ⟨offset, rest, protocol, ?_, located, member⟩
            rw [Nat.add_assoc, Nat.add_comm 1]

theorem mem_preorder_iff {protocol node : Protocol} {path : Path} :
    (path, node) ∈ protocol.preorder ↔ protocol.at? path = some node := by
  induction protocol using inductionOnChildren generalizing path with
  | node protocol ih =>
      rw [preorder_eq, List.mem_cons, mem_preorderList_iff]
      cases path with
      | nil => simp [at?, eq_comm]
      | cons position path =>
          rw [at?_cons_eq_some_iff]
          constructor
          · intro found
            rcases found with outermost | below
            · cases outermost
            · obtain ⟨offset, rest, child, same, located, member⟩ := below
              rw [Nat.zero_add] at same
              cases same
              have inChild := @ih child (List.mem_of_getElem? located) path
              exact ⟨child, located, inChild.mp member⟩
          · intro found
            obtain ⟨child, located, below⟩ := found
            have inChild := @ih child (List.mem_of_getElem? located) path
            right
            refine ⟨position, path, child, ?_, located, inChild.mpr below⟩
            rw [Nat.zero_add]

/-- What holds of every subtree can be tested on a walk. -/
theorem forall_at?_iff_preorder (holds : Protocol → Prop) {protocol : Protocol} :
    (∀ path node, protocol.at? path = some node → holds node) ↔
      ∀ entry ∈ protocol.preorder, holds entry.2 := by
  constructor
  · intro everywhere entry visited
    exact everywhere entry.1 entry.2 (mem_preorder_iff.mp visited)
  · intro visited path node located
    exact visited (path, node) (mem_preorder_iff.mpr located)

section Collect

variable {α β : Type}

/-- What a walk reads off the nodes. -/
def collect (read : Protocol → Option α) (protocol : Protocol) : List α :=
  protocol.preorder.filterMap fun entry => read entry.2

theorem mem_collect_iff {read : Protocol → Option α} {protocol : Protocol}
    {value : α} :
    value ∈ protocol.collect read ↔
      ∃ path node, protocol.at? path = some node ∧ read node = some value := by
  simp only [collect, List.mem_filterMap, Prod.exists, mem_preorder_iff]

theorem collect_congr {read other : Protocol → Option α} {protocol : Protocol}
    (same : ∀ path node, protocol.at? path = some node →
      read node = other node) :
    protocol.collect read = protocol.collect other := by
  apply List.filterMap_congr
  intro entry visited
  exact same entry.1 entry.2 (mem_preorder_iff.mp visited)

theorem filterMap_collect (read : Protocol → Option α) (refine : α → Option β)
    (protocol : Protocol) :
    (protocol.collect read).filterMap refine =
      protocol.collect fun node => (read node).bind refine := by
  rw [collect, List.filterMap_filterMap, collect]

theorem collect_eq (read : Protocol → Option α) (protocol : Protocol) :
    protocol.collect read =
      (read protocol).toList ++ protocol.children.flatMap (collect read) := by
  have below : ∀ (start : Nat) (protocols : List Protocol),
      (preorderList start protocols).filterMap (fun entry => read entry.2) =
        protocols.flatMap (collect read) := by
    intro start protocols
    induction protocols generalizing start with
    | nil => rfl
    | cons head tail ih =>
        rw [preorderList, List.filterMap_append, List.filterMap_map, ih,
          List.flatMap_cons]
        rfl
  rw [collect, preorder_eq, List.filterMap_cons, below]
  cases read protocol <;> rfl

end Collect

end Protocol

end Multiparty
