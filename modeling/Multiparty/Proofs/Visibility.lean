import Mathlib.Data.List.Basic
import Multiparty.Projection
import Multiparty.Protocol.Induction
import Multiparty.Protocol.Scope

/-!
# What a role sees of a protocol

`visibleTo` is projection without the label check: it never fails and does not
depend on the enclosing loops.  `project_eq` separates the two, so that facts
about projected trees are facts about `visibleTo`.  Since every jump is visible,
the label check gives the same answer before and after a projection.
-/

namespace Multiparty

namespace Protocol

/-- What remains of a tree for a role, jumps being kept whatever they name. -/
def visibleTo (role : Role) : Protocol → Option Protocol
  | exchange interaction => (interaction.viewOf role).map perform
  | perform action => some (perform action)
  | invoke call => some (invoke call)
  | jump label => some (jump label)
  | compose how parts => composeNonempty how (parts.filterMap (visibleTo role))
  | choice chooser branches =>
      some (choice chooser
        (branches.map fun branch => (branch.visibleTo role).getD (block [])))
  | loop head body => some (loop head (body.filterMap (visibleTo role)))
  | interruptible scope body interrupts =>
      some (interruptible scope (body.filterMap (visibleTo role))
        (interrupts.map fun interrupt =>
          ⟨interrupt.trigger, interrupt.body.filterMap (visibleTo role)⟩))
decreasing_by
  · exact sizeOf_lt_of_mem_children ‹_›
  · exact sizeOf_lt_of_mem_children ‹_›
  · exact sizeOf_lt_of_mem_children ‹_›
  · exact sizeOf_lt_of_mem_children (List.mem_append_left _ ‹_›)
  · exact sizeOf_lt_of_mem_children
      (List.mem_append_right _ (List.mem_flatMap_of_mem ‹_› ‹_›))

/-- A view, unless there is a dangling label to report. -/
def unlessDangling {α : Type} (dangling : Option String) (view : α) :
    Except ProjectionError α :=
  match dangling with
  | some label => .error (.unresolvedLabel label)
  | none => .ok view

section UnlessDangling

variable {α β : Type} {dangling : Option String} {view : α}

theorem unlessDangling_bind {later : Option String} {next : α → β} :
    (unlessDangling dangling view >>= fun value =>
        unlessDangling later (next value)) =
      unlessDangling (dangling.or later) (next view) := by
  cases dangling <;> rfl

theorem unlessDangling_map {next : α → β} :
    (unlessDangling dangling view >>= fun value => pure (next value)) =
      unlessDangling dangling (next view) := by
  cases dangling <;> rfl

theorem unlessDangling_eq_ok_iff {result : α} :
    unlessDangling dangling view = .ok result ↔
      dangling = none ∧ view = result := by
  cases dangling <;> simp [unlessDangling]

end UnlessDangling

mutual

theorem viewOf_eq (role : Role) (scope : List String) (protocol : Protocol) :
    protocol.viewOf role scope =
      unlessDangling (protocol.danglingLabel? scope)
        (protocol.visibleTo role) := by
  match protocol with
  | exchange _ | perform _ | invoke _ =>
      rw [viewOf, visibleTo, danglingLabel?, unlessDangling]
  | jump label =>
      rw [viewOf, visibleTo, danglingLabel?]
      split <;> rfl
  | compose how parts =>
      rw [viewOf, viewOfList_eq role scope parts, unlessDangling_map, visibleTo,
        danglingLabel?, List.filterMap_map, Function.id_comp]
  | choice chooser branches =>
      rw [viewOf, viewOfList_eq role scope branches, unlessDangling_map,
        visibleTo, danglingLabel?, List.map_map]
      rfl
  | loop head body =>
      rw [viewOf, viewOfList_eq role (head.binder :: scope) body,
        unlessDangling_map, visibleTo, danglingLabel?, List.filterMap_map,
        Function.id_comp]
  | interruptible name body interrupts =>
      rw [viewOf, viewOfList_eq role scope body,
        viewOfInterrupts_eq role scope interrupts, visibleTo, danglingLabel?]
      simp only [unlessDangling_map, unlessDangling_bind, List.filterMap_map,
        Function.id_comp]

theorem viewOfList_eq (role : Role) (scope : List String)
    (protocols : List Protocol) :
    viewOfList role scope protocols =
      unlessDangling (danglingLabelList? scope protocols)
        (protocols.map (visibleTo role)) := by
  match protocols with
  | [] => rfl
  | head :: tail =>
      rw [viewOfList, viewOf_eq role scope head, viewOfList_eq role scope tail,
        danglingLabelList?]
      simp only [unlessDangling_map, unlessDangling_bind, List.map_cons]

theorem viewOfInterrupts_eq (role : Role) (scope : List String)
    (interrupts : List (Interrupt Protocol)) :
    viewOfInterrupts role scope interrupts =
      unlessDangling (danglingLabelInterrupts? scope interrupts)
        (interrupts.map fun interrupt =>
          ⟨interrupt.trigger, interrupt.body.filterMap (visibleTo role)⟩) := by
  match interrupts with
  | [] => rfl
  | ⟨trigger, body⟩ :: tail =>
      rw [viewOfInterrupts, viewOfList_eq role scope body,
        viewOfInterrupts_eq role scope tail, danglingLabelInterrupts?]
      simp only [unlessDangling_map, unlessDangling_bind, List.map_cons,
        List.filterMap_map, Function.id_comp]

end

/-- The trees below the outermost root; a tree of another kind stands for
itself. -/
def topLevel : Protocol → List Protocol
  | compose .root parts => parts
  | other => [other]

theorem toList_visibleTo (role : Role) (protocol : Protocol) :
    (protocol.visibleTo role).toList =
      [protocol].filterMap (visibleTo role) := by
  cases seen : protocol.visibleTo role <;> simp [seen]

/-- Projection checks the labels and then keeps what the role sees. -/
theorem project_eq (protocol : Protocol) (role : Role) :
    protocol.project role =
      unlessDangling protocol.unresolvedLabel?
        (root (protocol.topLevel.filterMap (visibleTo role))) := by
  unfold project
  split
  case h_1 parts =>
    rw [viewOfList_eq, unlessDangling_map, List.filterMap_map, Function.id_comp,
      topLevel, unresolvedLabel?, danglingLabel?]
  case h_2 notRoot =>
    rw [viewOf_eq, unlessDangling_map, toList_visibleTo, unresolvedLabel?,
      topLevel]
    exact notRoot

theorem project_eq_ok_iff {protocol result : Protocol} {role : Role} :
    protocol.project role = .ok result ↔
      protocol.unresolvedLabel? = none ∧
        root (protocol.topLevel.filterMap (visibleTo role)) = result := by
  rw [project_eq, unlessDangling_eq_ok_iff]

theorem exists_project {protocol : Protocol}
    (resolved : protocol.unresolvedLabel? = none) (role : Role) :
    ∃ view, protocol.project role = .ok view :=
  ⟨_, project_eq_ok_iff.mpr ⟨resolved, rfl⟩⟩

theorem danglingLabelList?_flatMap {scope : List String}
    {protocols : List Protocol} {replace : Protocol → List Protocol}
    (same : ∀ protocol ∈ protocols,
      danglingLabelList? scope (replace protocol) =
        protocol.danglingLabel? scope) :
    danglingLabelList? scope (protocols.flatMap replace) =
      danglingLabelList? scope protocols := by
  induction protocols with
  | nil => rfl
  | cons head tail ih =>
      rw [List.forall_mem_cons] at same
      rw [List.flatMap_cons, danglingLabelList?_append, same.1, ih same.2,
        danglingLabelList?]

theorem danglingLabelList?_filterMap {role : Role} {scope : List String}
    {parts : List Protocol}
    (same : ∀ part ∈ parts,
      danglingLabelList? scope (part.visibleTo role).toList =
        part.danglingLabel? scope) :
    danglingLabelList? scope (parts.filterMap (visibleTo role)) =
      danglingLabelList? scope parts := by
  rw [List.filterMap_eq_flatMap_toList]
  exact danglingLabelList?_flatMap same

/-- What a role does not see holds no jumps. -/
theorem danglingLabelList?_visibleTo (role : Role) (scope : List String)
    (protocol : Protocol) :
    danglingLabelList? scope (protocol.visibleTo role).toList =
      protocol.danglingLabel? scope := by
  induction protocol generalizing scope with
  | exchange interaction =>
      rw [visibleTo, danglingLabel?]
      cases interaction.viewOf role <;> rfl
  | perform | invoke | jump => simp [visibleTo, danglingLabelList?]
  | compose how parts ih =>
      have kept := danglingLabelList?_filterMap fun part member =>
        ih part member scope
      rw [visibleTo, danglingLabel?, ← kept]
      cases parts.filterMap (visibleTo role) with
      | nil => rfl
      | cons => simp [composeNonempty, danglingLabelList?, danglingLabel?]
  | choice chooser branches ih =>
      have kept : danglingLabelList? scope
          (branches.map fun branch =>
            (branch.visibleTo role).getD (block [])) =
          danglingLabelList? scope branches := by
        rw [List.map_eq_flatMap]
        apply danglingLabelList?_flatMap
        intro branch member
        rw [← ih branch member scope]
        cases branch.visibleTo role <;> rfl
      simp [visibleTo, danglingLabelList?, danglingLabel?, kept]
  | loop head body ih =>
      have kept := danglingLabelList?_filterMap fun part member =>
        ih part member (head.binder :: scope)
      simp [visibleTo, danglingLabelList?, danglingLabel?, kept]
  | interruptible name body interrupts bodyIH handlerIH =>
      have inBody := danglingLabelList?_filterMap fun part member =>
        bodyIH part member scope
      have inHandlers := danglingLabelList?_filterMap fun part member =>
        handlerIH part member scope
      simp [visibleTo, danglingLabelList?, danglingLabel?,
        danglingLabelInterrupts?_eq, List.flatMap_map, inBody,
        ← inHandlers, List.filterMap_flatMap]

theorem danglingLabelList?_topLevel (scope : List String)
    (protocol : Protocol) :
    danglingLabelList? scope protocol.topLevel =
      protocol.danglingLabel? scope := by
  unfold topLevel
  split
  · rw [danglingLabel?]
  · simp [danglingLabelList?]

theorem unresolvedLabel?_of_project {protocol result : Protocol} {role : Role}
    (projected : protocol.project role = .ok result) :
    result.unresolvedLabel? = none := by
  obtain ⟨resolved, rfl⟩ := project_eq_ok_iff.mp projected
  rw [unresolvedLabel?, danglingLabel?, danglingLabelList?_filterMap,
    danglingLabelList?_topLevel]
  · exact resolved
  · intro part _
    exact danglingLabelList?_visibleTo role [] part

end Protocol

end Multiparty
