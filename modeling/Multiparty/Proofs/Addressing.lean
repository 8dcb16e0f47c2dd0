import Multiparty.Proofs.Walk
import Multiparty.Protocol.Cursor

/-!
# Paths as addresses

Paths address the nodes of a tree one to one, and their order is the order of a
walk.  The children that paths count are the ones that a cursor reads, body
after body for an interruptible scope, and there are as many as the node counts.
-/

namespace Multiparty

namespace Cursor

/-- The children that a cursor still has to read. -/
def remaining (cursor : Cursor) : List Protocol :=
  cursor.current ++ cursor.pending.flatMap Interrupt.body

/-- Reading `cursor` to its end gives the listed nodes. -/
inductive Yields : Cursor → List Protocol → Prop where
  | done {cursor : Cursor} : cursor.next? = none → Yields cursor []
  | read {cursor rest : Cursor} {node : Protocol} {nodes : List Protocol} :
      cursor.next? = some (node, rest) → Yields rest nodes →
      Yields cursor (node :: nodes)

/-- A reading step takes the first of the remaining children, and there is no
step only when none remains. -/
theorem next?_cases (cursor : Cursor) :
    (cursor.next? = none ∧ cursor.remaining = []) ∨
      ∃ node rest, cursor.next? = some (node, rest) ∧
        cursor.remaining = node :: rest.remaining := by
  obtain ⟨current, pending⟩ := cursor
  -- Bodies without nodes are passed over, so the induction is on those pending.
  induction pending generalizing current with
  | nil =>
      cases current with
      | nil => exact .inl ⟨rfl, rfl⟩
      | cons node rest => exact .inr ⟨node, ⟨rest, []⟩, rfl, rfl⟩
  | cons interrupt pending ih =>
      cases current with
      | nil => exact ih interrupt.body
      | cons node rest => exact .inr ⟨node, ⟨rest, interrupt :: pending⟩, rfl, rfl⟩

theorem yields_remaining (cursor : Cursor) : cursor.Yields cursor.remaining := by
  generalize listed : cursor.remaining = nodes
  induction nodes generalizing cursor with
  | nil =>
      rcases cursor.next?_cases with ⟨ended, _⟩ | ⟨node, rest, _, more⟩
      · exact .done ended
      · rw [listed] at more
        cases more
  | cons first nodes ih =>
      rcases cursor.next?_cases with ⟨_, empty⟩ | ⟨node, rest, read, more⟩
      · rw [listed] at empty
        cases empty
      · rw [listed] at more
        cases more
        exact .read read (ih rest rfl)

/-- A cursor yields its remaining children and nothing else. -/
theorem yields_iff {cursor : Cursor} {nodes : List Protocol} :
    cursor.Yields nodes ↔ nodes = cursor.remaining := by
  constructor
  · intro yields
    induction yields with
    | @done cursor ended =>
        rcases cursor.next?_cases with ⟨_, empty⟩ | ⟨node, rest, read, _⟩
        · exact empty.symm
        · rw [ended] at read
          cases read
    | @read cursor rest node nodes read _ ih =>
        rcases cursor.next?_cases with ⟨ended, _⟩ | ⟨first, others, again, more⟩
        · rw [ended] at read
          cases read
        · rw [read] at again
          cases again
          rw [more, ih]
  · rintro rfl
    exact cursor.yields_remaining

theorem nth?_eq (cursor : Cursor) (position : Nat) :
    cursor.nth? position = cursor.remaining[position]? := by
  induction position generalizing cursor with
  | zero =>
      rcases cursor.next?_cases with ⟨ended, empty⟩ | ⟨node, rest, read, more⟩
      · rw [nth?, ended, empty]
        rfl
      · rw [nth?, read, more]
        rfl
  | succ position ih =>
      rcases cursor.next?_cases with ⟨ended, empty⟩ | ⟨node, rest, read, more⟩
      · rw [nth?, ended, empty]
        rfl
      · rw [nth?, read, more, List.getElem?_cons_succ, ← ih rest]
        rfl

end Cursor

namespace Path

theorem order_eq_lt_iff {left right : Path} :
    left.order right = .lt ↔ left < right :=
  compareOfLessAndEq_eq_lt

/-- A path comes before its extensions. -/
theorem order_append (path : Path) (position : Nat) (rest : Path) :
    path.order (path ++ position :: rest) = .lt := by
  rw [order_eq_lt_iff]
  induction path with
  | nil => exact List.nil_lt_cons position rest
  | cons first path ih => exact List.cons_lt_cons_iff.mpr (.inr ⟨rfl, ih⟩)

end Path

namespace Protocol

theorem remaining_cursor (protocol : Protocol) :
    protocol.cursor.remaining = protocol.children := by
  cases protocol with
  | interruptible => rfl
  | compose _ nodes | choice _ nodes | loop _ nodes => exact List.append_nil nodes
  | exchange | perform | jump | invoke => rfl

-- The first interrupt has an empty body, which is passed over.
example (role : Role) (node : Protocol) :
    (interruptible "s" [] [⟨role, []⟩, ⟨role, [node]⟩]).cursor.nth? 0 =
      some node :=
  rfl

/-- The number of children is the length of their list. -/
theorem childCount_eq (protocol : Protocol) :
    protocol.childCount = protocol.children.length := by
  cases protocol with
  | interruptible scope body interrupts =>
      rw [childCount, children]
      induction interrupts generalizing body with
      | nil => simp
      | cons interrupt interrupts ih =>
          rw [List.foldl_cons, List.flatMap_cons, ← List.append_assoc,
            ← ih, List.length_append]
  | compose | choice | loop | exchange | perform | jump | invoke => rfl

theorem isSome_child?_iff {protocol : Protocol} {position : Nat} :
    (protocol.child? position).isSome = true ↔
      position < protocol.childCount := by
  rw [child?, childCount_eq, isSome_getElem?]

theorem preorderList_eq_flatMap (start : Nat) (protocols : List Protocol) :
    preorderList start protocols =
      (protocols.zipIdx start).flatMap fun (child, position) =>
        child.preorder.map fun (path, node) => (position :: path, node) := by
  induction protocols generalizing start with
  | nil => rfl
  | cons head tail ih =>
      rw [preorderList, ih, List.zipIdx_cons, List.flatMap_cons]

/-- Walks through neighbouring children that are in order are in order
together. -/
theorem pairwise_preorderList {start : Nat} {protocols : List Protocol}
    (ordered : ∀ protocol ∈ protocols, protocol.preorder.Pairwise fun earlier later =>
      earlier.1 < later.1) :
    (preorderList start protocols).Pairwise fun earlier later =>
      earlier.1 < later.1 := by
  induction protocols generalizing start with
  | nil => exact List.Pairwise.nil
  | cons head tail ih =>
      rw [preorderList, List.pairwise_append]
      refine ⟨?_, ih fun protocol member => ordered protocol (.tail _ member), ?_⟩
      · rw [List.pairwise_map]
        apply (ordered head (.head _)).imp
        intro earlier later before
        exact List.cons_lt_cons_iff.mpr (.inr ⟨rfl, before⟩)
      · intro earlier inHead later inTail
        obtain ⟨⟨path, node⟩, _, rfl⟩ := List.mem_map.mp inHead
        obtain ⟨offset, rest, protocol, same, _⟩ :=
          mem_preorderList_iff.mp inTail
        rw [same]
        apply List.cons_lt_cons_iff.mpr
        left
        omega

/-- A walk meets the paths in increasing order. -/
theorem pairwise_preorder (protocol : Protocol) :
    protocol.preorder.Pairwise fun earlier later => earlier.1 < later.1 := by
  induction protocol using inductionOnChildren with
  | node protocol ih =>
      rw [preorder_eq, List.pairwise_cons]
      refine ⟨?_, pairwise_preorderList ih⟩
      intro later visited
      obtain ⟨offset, rest, child, same, _⟩ := mem_preorderList_iff.mp visited
      rw [same]
      exact List.nil_lt_cons _ rest

theorem nodup_preorder (protocol : Protocol) : protocol.preorder.Nodup := by
  apply (pairwise_preorder protocol).imp
  rintro earlier later before rfl
  exact List.lt_irrefl _ before

theorem existsUnique_visit_iff {protocol node : Protocol} {path : Path} :
    (∃! visit : Nat, protocol.preorder[visit]? = some (path, node)) ↔
      protocol.at? path = some node := by
  rw [← mem_preorder_iff, List.mem_iff_getElem?]
  refine ⟨ExistsUnique.exists, ?_⟩
  rintro ⟨visit, visited⟩
  refine ⟨visit, visited, ?_⟩
  intro other again
  obtain ⟨inside, _⟩ := List.getElem?_eq_some_iff.mp again
  apply (List.getElem?_inj inside (nodup_preorder protocol)).mp
  rw [again, visited]

/-- A walk goes through the children in their order and puts the position of
each before the paths below it.  It meets the paths in increasing order, a path
before its extensions, and it meets the node at each path exactly once.  The
children are what the cursor of a node reads, body after body for an
interruptible scope, and positions below their number are those that have one. -/
theorem paths_address_nodes_one_to_one (protocol : Protocol) :
    (protocol.preorder = ([], protocol) ::
      protocol.children.zipIdx.flatMap fun (child, position) =>
        child.preorder.map fun (path, node) => (position :: path, node)) ∧
    (protocol.preorder.map Prod.fst).Pairwise (fun earlier later =>
      earlier.order later = .lt) ∧
    (∀ (path : Path) (position : Nat) (rest : Path),
      path.order (path ++ position :: rest) = .lt) ∧
    (∀ path node,
      (∃! visit : Nat, protocol.preorder[visit]? = some (path, node)) ↔
        protocol.at? path = some node) ∧
    (∀ nodes, protocol.cursor.Yields nodes ↔ nodes = protocol.children) ∧
    protocol.childCount = protocol.children.length ∧
    (∀ position, protocol.cursor.nth? position = protocol.child? position ∧
      ((protocol.child? position).isSome = true ↔
        position < protocol.childCount)) ∧
    (∀ scope body interrupts nodes,
      (interruptible scope body interrupts).cursor.Yields nodes ↔
        nodes = body ++ interrupts.flatMap Interrupt.body) := by
  refine ⟨?_, ?_, Path.order_append, fun _ _ => existsUnique_visit_iff, ?_,
    childCount_eq protocol, ?_, ?_⟩
  · rw [preorder_eq, preorderList_eq_flatMap]
  · rw [List.pairwise_map]
    exact (pairwise_preorder protocol).imp Path.order_eq_lt_iff.mpr
  · intro nodes
    rw [Cursor.yields_iff, remaining_cursor]
  · intro position
    refine ⟨?_, isSome_child?_iff⟩
    rw [Cursor.nth?_eq, remaining_cursor, child?]
  · intro scope body interrupts nodes
    exact Cursor.yields_iff

end Protocol

end Multiparty
