import Multiparty.Protocol.Basic

/-!
# Paths into protocol trees

A path lists child positions from the outermost node down.  Paths are ordered
lexicographically, a path before its extensions, which is the order in which a
pre-order walk meets the nodes.
-/

namespace Multiparty

/-- Child positions from the outermost node to a subtree. -/
abbrev Path := List Nat

namespace Path

/-- The path to a child of the node at `path`. -/
def child (path : Path) (position : Nat) : Path :=
  path ++ [position]

/-- How two paths are ordered. -/
def order (left right : Path) : Ordering :=
  compareOfLessAndEq left right

/-- The positions, separated by slashes, after a leading slash. -/
def render (path : Path) : String :=
  "/" ++ "/".intercalate (path.map fun position => toString position)

theorem isLE_order_iff {left right : Path} :
    (left.order right).isLE = true ↔ left < right ∨ left = right := by
  unfold order compareOfLessAndEq
  by_cases less : left < right
  · simp [less]
  · rw [if_neg less]
    by_cases same : left = right
    · simp [same]
    · simp [less, same]

/-- The outermost node comes first. -/
theorem isLE_order_nil (path : Path) : (order [] path).isLE = true := by
  rw [isLE_order_iff]
  cases path with
  | nil => exact .inr rfl
  | cons position rest => exact .inl (List.nil_lt_cons position rest)

theorem isLE_order_cons_iff {first second : Nat} {left right : Path} :
    (order (first :: left) (second :: right)).isLE = true ↔
      first < second ∨ first = second ∧ (left.order right).isLE = true := by
  rw [isLE_order_iff, isLE_order_iff, List.cons_lt_cons_iff, List.cons.injEq,
    or_assoc, ← and_or_left]

theorem eq_of_isLE_order {left right : Path}
    (below : (left.order right).isLE = true)
    (above : (right.order left).isLE = true) : left = right := by
  rcases isLE_order_iff.mp below with less | same
  · rcases isLE_order_iff.mp above with greater | same
    · exact absurd greater (List.lt_asymm less)
    · exact same.symm
  · exact same

end Path

namespace Protocol

/-- The child at a position. -/
def child? (protocol : Protocol) (position : Nat) : Option Protocol :=
  protocol.children[position]?

/-- The subtree at a path. -/
def at? (protocol : Protocol) : Path → Option Protocol
  | [] => some protocol
  | position :: rest =>
      (protocol.child? position).bind fun child => child.at? rest

mutual

/-- Every subtree with its path, from the outermost node on, each before its
children. -/
def preorder : Protocol → List (Path × Protocol)
  | compose how parts => ([], compose how parts) :: preorderList 0 parts
  | choice chooser branches =>
      ([], choice chooser branches) :: preorderList 0 branches
  | loop head body => ([], loop head body) :: preorderList 0 body
  | interruptible scope body interrupts =>
      ([], interruptible scope body interrupts) ::
        (preorderList 0 body ++ preorderInterrupts body.length interrupts)
  | exchange interaction => [([], exchange interaction)]
  | perform action => [([], perform action)]
  | jump label => [([], jump label)]
  | invoke call => [([], invoke call)]

/-- The walk through neighbouring children from a position on. -/
def preorderList (position : Nat) : List Protocol → List (Path × Protocol)
  | [] => []
  | head :: tail =>
      head.preorder.map (fun (path, subtree) => (position :: path, subtree)) ++
        preorderList (position + 1) tail

/-- The walk through the bodies of interrupts from a position on. -/
def preorderInterrupts (position : Nat) :
    List (Interrupt Protocol) → List (Path × Protocol)
  | [] => []
  | ⟨_, body⟩ :: tail =>
      preorderList position body ++
        preorderInterrupts (position + body.length) tail

end

theorem preorderList_append (position : Nat) (front back : List Protocol) :
    preorderList position (front ++ back) =
      preorderList position front ++ preorderList (position + front.length) back := by
  induction front generalizing position with
  | nil => simp [preorderList]
  | cons head tail ih =>
      simp [preorderList, ih, Nat.add_assoc, Nat.add_comm 1]

theorem preorderInterrupts_eq (position : Nat)
    (interrupts : List (Interrupt Protocol)) :
    preorderInterrupts position interrupts =
      preorderList position (interrupts.flatMap Interrupt.body) := by
  induction interrupts generalizing position with
  | nil => simp [preorderInterrupts, preorderList]
  | cons head tail ih =>
      cases head
      simp [preorderInterrupts, preorderList_append, ih]

/-- A walk visits the outermost node and then walks through its children. -/
theorem preorder_eq (protocol : Protocol) :
    protocol.preorder = ([], protocol) :: preorderList 0 protocol.children := by
  cases protocol <;>
    simp [preorder, children, preorderList, preorderList_append,
      preorderInterrupts_eq]

end Protocol

end Multiparty
