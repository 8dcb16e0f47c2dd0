import Multiparty.Proofs.FirstDangling
import Multiparty.Proofs.LabelFailure
import Multiparty.Proofs.ValidProjection

/-!
# What validation decides

A tree is well formed if every node is: a jump has a loop above it that it
names, an interaction has receivers, and the roles that a node names, guards
apart, are declared with as many dimensions.  Validation accepts exactly the
well-formed trees.  An error that it reports is about a node of the tree, and an
unbound jump is reported whatever else is wrong.
-/

namespace Multiparty

section Checks

variable {ε α : Type} {error : ε}

theorem check_then_eq_error_iff {first second : Except ε Unit} :
    (first >>= fun _ => second) = .error error ↔
      first = .error error ∨ first = .ok () ∧ second = .error error := by
  cases first with
  | error cause =>
      constructor
      · exact .inl
      · intro failed
        rcases failed with here | later
        · exact here
        · cases later.1
  | ok =>
      constructor
      · intro failed
        exact .inr ⟨rfl, failed⟩
      · intro failed
        rcases failed with here | later
        · cases here
        · exact later.2

theorem exists_of_check_all_eq_error {check : α → Except ε Unit}
    {values : List α} (failed : values.forM check = .error error) :
    ∃ value ∈ values, check value = .error error := by
  induction values with
  | nil => cases failed
  | cons head tail ih =>
      change (check head >>= fun _ => tail.forM check) = .error error at failed
      rcases check_then_eq_error_iff.mp failed with here | later
      · exact ⟨head, List.mem_cons_self, here⟩
      · obtain ⟨value, member, found⟩ := ih later.2
        exact ⟨value, List.mem_cons_of_mem head member, found⟩

end Checks

variable {declared : Registry Role} {error : ValidationError}

namespace Role

/-- The name of the role is declared with as many dimensions. -/
def DeclaredIn (declared : Registry Role) (role : Role) : Prop :=
  ∃ declaration, declared.get? role.name = some declaration ∧
    declaration.dimensions.length = role.dimensions.length

/-- What is wrong with a role that is not declared. -/
inductive Misdeclared (declared : Registry Role) (role : Role) :
    ValidationError → Prop where
  | undefined : declared.get? role.name = none →
      Misdeclared declared role (.undefinedRole role.name)
  | mismatch {declaration : Role} :
      declared.get? role.name = some declaration →
      declaration.dimensions.length ≠ role.dimensions.length →
      Misdeclared declared role (.dimensionMismatch role.name
        declaration.dimensions.length role.dimensions.length)

theorem validate_eq_ok_iff {role : Role} :
    role.validate declared = .ok () ↔ role.DeclaredIn declared := by
  unfold validate DeclaredIn
  cases declared.get? role.name with
  | none => simp
  | some declaration => simp

theorem misdeclared_of_validate {role : Role}
    (failed : role.validate declared = .error error) :
    role.Misdeclared declared error := by
  unfold validate at failed
  split at failed
  case h_1 undeclared =>
    cases failed
    exact .undefined undeclared
  case h_2 declaration found =>
    split at failed
    case isTrue => cases failed
    case isFalse different =>
      cases failed
      exact .mismatch found different

end Role

namespace Interaction

/-- The roles that have to be declared; the guard is not one of them. -/
def participants (interaction : Interaction) : List Role :=
  interaction.sender.toList ++ interaction.receivers

theorem validate_eq_ok_iff {interaction : Interaction} :
    interaction.validate declared = .ok () ↔
      interaction.receivers ≠ [] ∧
        ∀ role ∈ interaction.participants, role.DeclaredIn declared := by
  unfold validate participants
  by_cases lonely : interaction.receivers = []
  · simp [lonely]
  · rw [if_neg (by simpa using lonely), check_then_eq_ok_iff,
      check_all_eq_ok_iff, check_all_eq_ok_iff, ← List.forall_mem_append]
    simp only [Role.validate_eq_ok_iff, ne_eq, lonely, not_false_eq_true,
      true_and]

theorem fault_of_validate {interaction : Interaction}
    (failed : interaction.validate declared = .error error) :
    interaction.receivers = [] ∧ error = .emptyReceivers interaction.message ∨
      ∃ role ∈ interaction.participants, role.Misdeclared declared error := by
  unfold validate at failed
  split at failed
  case isTrue lonely =>
    cases failed
    exact .inl ⟨List.isEmpty_iff.mp lonely, rfl⟩
  case isFalse =>
    right
    rcases check_then_eq_error_iff.mp failed with sending | receiving
    · obtain ⟨role, member, found⟩ := exists_of_check_all_eq_error sending
      exact ⟨role, List.mem_append_left _ member,
        Role.misdeclared_of_validate found⟩
    · obtain ⟨role, member, found⟩ :=
        exists_of_check_all_eq_error receiving.2
      exact ⟨role, List.mem_append_right _ member,
        Role.misdeclared_of_validate found⟩

end Interaction

namespace Protocol

/-- The roles that the outermost node needs declared. -/
def participants : Protocol → List Role
  | exchange interaction => interaction.participants
  | perform action => action.interaction.participants
  | choice chooser _ => [chooser]
  | invoke call => call.roles
  | interruptible _ _ interrupts => interrupts.map Interrupt.trigger
  | compose _ _ | loop _ _ | jump _ => []

/-- The node at a path of a tree is as it has to be. -/
structure WellFormedAt (declared : Registry Role) (protocol : Protocol)
    (path : Path) (node : Protocol) : Prop where
  bound : ∀ label, node = jump label → protocol.BoundAt path label
  received : ∀ interaction, node.interaction? = some interaction →
    interaction.receivers ≠ []
  participating : ∀ role ∈ node.participants, role.DeclaredIn declared

/-- What is wrong with the outermost node, labels apart. -/
inductive Faulty (declared : Registry Role) (node : Protocol) :
    ValidationError → Prop where
  | unreceived {interaction : Interaction} :
      node.interaction? = some interaction → interaction.receivers = [] →
      Faulty declared node (.emptyReceivers interaction.message)
  | participant {role : Role} {error : ValidationError} :
      role ∈ node.participants → role.Misdeclared declared error →
      Faulty declared node error

/-- What is wrong somewhere in a tree. -/
inductive Violation (declared : Registry Role) (protocol : Protocol) :
    ValidationError → Prop where
  | dangling {path : Path} {label : String} :
      protocol.DanglesAt path label →
      Violation declared protocol (.unresolvedLabel label)
  | faulty {path : Path} {node : Protocol} {error : ValidationError} :
      protocol.at? path = some node → node.Faulty declared error →
      Violation declared protocol error

theorem declared_content_iff {node : Protocol} :
    (∀ content, node.content? = some content → content.Declared declared) ↔
      (∀ interaction, node.interaction? = some interaction →
        interaction.receivers ≠ []) ∧
        ∀ role ∈ node.participants, role.DeclaredIn declared := by
  cases node <;>
    simp [content?, Content.Declared, interaction?, participants,
      Role.validate_eq_ok_iff, Interaction.validate_eq_ok_iff]

/-- Validation succeeds exactly if every node is well formed. -/
theorem validate_eq_ok_iff_wellFormedAt {protocol : Protocol} :
    protocol.validate declared = .ok () ↔
      ∀ path node, protocol.at? path = some node →
        protocol.WellFormedAt declared path node := by
  rw [validate_eq_ok_iff, unresolvedLabel?_eq_none_iff]
  constructor
  · intro valid path node located
    obtain ⟨bound, checked⟩ := valid
    have allDeclared : ∀ content, node.content? = some content →
        content.Declared declared := by
      intro content shown
      exact checked content (mem_collect_iff.mpr ⟨path, node, located, shown⟩)
    obtain ⟨received, participating⟩ := declared_content_iff.mp allDeclared
    refine ⟨?_, received, participating⟩
    intro label isJump
    subst isJump
    exact bound path label located
  · intro wellFormed
    constructor
    · intro path label located
      exact (wellFormed path _ located).bound label rfl
    · intro content member
      obtain ⟨path, node, located, shown⟩ := mem_collect_iff.mp member
      have here := wellFormed path node located
      exact declared_content_iff.mpr ⟨here.received, here.participating⟩ content
        shown

section RoleErrors

theorem validateRolesList_eq_forM (protocols : List Protocol) :
    validateRolesList declared protocols =
      protocols.forM (validateRoles declared) := by
  induction protocols with
  | nil => rfl
  | cons head tail ih =>
      rw [validateRolesList, ih]
      rfl

theorem exists_of_validateRolesList {protocols : List Protocol}
    (failed : validateRolesList declared protocols = .error error) :
    ∃ protocol ∈ protocols, protocol.validateRoles declared = .error error := by
  rw [validateRolesList_eq_forM] at failed
  exact exists_of_check_all_eq_error failed

theorem exists_of_validateRolesInterrupts
    {interrupts : List (Interrupt Protocol)}
    (failed : validateRolesInterrupts declared interrupts = .error error) :
    (∃ trigger ∈ interrupts.map Interrupt.trigger,
      trigger.validate declared = .error error) ∨
      ∃ part ∈ interrupts.flatMap Interrupt.body,
        part.validateRoles declared = .error error := by
  induction interrupts with
  | nil => cases failed
  | cons head tail ih =>
      obtain ⟨trigger, body⟩ := head
      rw [validateRolesInterrupts, check_then_eq_error_iff,
        check_then_eq_error_iff] at failed
      rw [List.map_cons, List.flatMap_cons]
      rcases failed with here | ⟨_, inBody | ⟨_, later⟩⟩
      · exact .inl ⟨trigger, List.mem_cons_self, here⟩
      · obtain ⟨part, member, found⟩ := exists_of_validateRolesList inBody
        exact .inr ⟨part, List.mem_append_left _ member, found⟩
      · rcases ih later with ⟨other, member, found⟩ | ⟨part, member, found⟩
        · exact .inl ⟨other, List.mem_cons_of_mem _ member, found⟩
        · exact .inr ⟨part, List.mem_append_right _ member, found⟩

/-- An error comes from the node itself or from one of its children. -/
theorem faulty_or_child_of_validateRoles {protocol : Protocol}
    (failed : protocol.validateRoles declared = .error error) :
    protocol.Faulty declared error ∨
      ∃ child ∈ protocol.children,
        child.validateRoles declared = .error error := by
  cases protocol with
  | exchange | perform =>
      rw [validateRoles] at failed
      left
      rcases Interaction.fault_of_validate failed with
        ⟨lonely, rfl⟩ | ⟨role, member, found⟩
      · exact .unreceived rfl lonely
      · exact .participant member found
  | choice chooser branches =>
      rw [validateRoles, check_then_eq_error_iff] at failed
      rcases failed with here | ⟨_, below⟩
      · exact .inl (.participant List.mem_cons_self
          (Role.misdeclared_of_validate here))
      · exact .inr (exists_of_validateRolesList below)
  | invoke call =>
      rw [validateRoles] at failed
      obtain ⟨role, member, found⟩ := exists_of_check_all_eq_error failed
      exact .inl (.participant member (Role.misdeclared_of_validate found))
  | interruptible scope body interrupts =>
      rw [validateRoles, check_then_eq_error_iff] at failed
      rcases failed with interrupting | ⟨_, inBody⟩
      · rcases exists_of_validateRolesInterrupts interrupting with
          ⟨trigger, member, found⟩ | ⟨part, member, found⟩
        · exact .inl (.participant member (Role.misdeclared_of_validate found))
        · exact .inr ⟨part, List.mem_append_right _ member, found⟩
      · obtain ⟨part, member, found⟩ := exists_of_validateRolesList inBody
        exact .inr ⟨part, List.mem_append_left _ member, found⟩
  | compose | loop =>
      rw [validateRoles] at failed
      exact .inr (exists_of_validateRolesList failed)
  | jump => cases failed

theorem exists_faulty_of_validateRoles {protocol : Protocol}
    (failed : protocol.validateRoles declared = .error error) :
    ∃ path node, protocol.at? path = some node ∧
      node.Faulty declared error := by
  induction protocol using inductionOnChildren with
  | node protocol ih =>
      rcases faulty_or_child_of_validateRoles failed with
        here | ⟨child, member, below⟩
      · exact ⟨[], protocol, rfl, here⟩
      · obtain ⟨path, node, found, faulty⟩ := ih child member below
        obtain ⟨position, located⟩ := List.mem_iff_getElem?.mp member
        exact ⟨position :: path, node,
          at?_cons_eq_some_iff.mpr ⟨child, located, found⟩, faulty⟩

end RoleErrors

theorem validateLabels_eq_error_iff {protocol : Protocol} :
    protocol.validateLabels = .error error ↔
      ∃ label, protocol.unresolvedLabel? = some label ∧
        error = .unresolvedLabel label := by
  unfold validateLabels
  cases protocol.unresolvedLabel? with
  | none => simp
  | some first => simp [eq_comm]

theorem violation_of_validate {protocol : Protocol}
    (failed : protocol.validate declared = .error error) :
    protocol.Violation declared error := by
  rcases check_then_eq_error_iff.mp failed with labels | ⟨_, roles⟩
  · obtain ⟨label, found, rfl⟩ := validateLabels_eq_error_iff.mp labels
    obtain ⟨path, first⟩ := danglingLabel?_eq_some_iff.mp found
    exact .dangling first.dangles
  · obtain ⟨path, node, located, faulty⟩ :=
      exists_faulty_of_validateRoles roles
    exact .faulty located faulty

/-- Role errors are not about labels. -/
theorem Violation.exists_danglesAt {protocol : Protocol} {label : String}
    (violation : protocol.Violation declared (.unresolvedLabel label)) :
    ∃ path, protocol.DanglesAt path label := by
  cases violation with
  | dangling dangles => exact ⟨_, dangles⟩
  | faulty _ faulty =>
      cases faulty with
      | participant _ misdeclared => cases misdeclared

theorem exists_unresolvedLabel_of_danglesAt {protocol : Protocol} {path : Path}
    {label : String} (dangles : protocol.DanglesAt path label) :
    ∃ reported, protocol.validate declared =
      .error (.unresolvedLabel reported) := by
  cases found : protocol.unresolvedLabel? with
  | none =>
      exact absurd dangles (not_danglesAt_of_eq_none found List.not_mem_nil)
  | some reported =>
      refine ⟨reported, check_then_eq_error_iff.mpr (.inl ?_)⟩
      exact validateLabels_eq_error_iff.mpr ⟨reported, found, rfl⟩

end Protocol

namespace Session

/-- A session is valid exactly if every node of its tree is well formed.  An
error names something that is wrong in the tree.  It is about a label exactly if
there is an unbound jump, whatever else is wrong. -/
theorem validation_decides_well_formedness (session : Session) :
    (session.validate = .ok () ↔
      ∀ path node, session.root.at? path = some node →
        session.root.WellFormedAt session.roles path node) ∧
    (∀ error, session.validate = .error error →
      session.root.Violation session.roles error) ∧
    ((∃ label, session.validate = .error (.unresolvedLabel label)) ↔
      ∃ path label, session.root.DanglesAt path label) := by
  refine ⟨Protocol.validate_eq_ok_iff_wellFormedAt, ?_, ?_⟩
  · intro error failed
    exact Protocol.violation_of_validate failed
  · constructor
    · intro failed
      obtain ⟨label, failed⟩ := failed
      have violation := Protocol.violation_of_validate failed
      obtain ⟨path, dangles⟩ := violation.exists_danglesAt
      exact ⟨path, label, dangles⟩
    · intro dangling
      obtain ⟨path, label, dangles⟩ := dangling
      exact Protocol.exists_unresolvedLabel_of_danglesAt dangles

-- The undeclared role comes first in the tree, the unbound jump in the report.
example :
    Session.validate
      { name := "S"
        root := .root [.choice { name := "Z" } [], .jump "X"] } =
      .error (.unresolvedLabel "X") := rfl

end Session

end Multiparty
