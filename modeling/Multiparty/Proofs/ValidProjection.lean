import Multiparty.Proofs.Items
import Multiparty.Session

/-!
# Valid sessions can be projected

Validation of the roles looks at the contents of a tree one by one, and
projection adds no role to a content.  Together with the label check, which
projection repeats, this shows that a valid session has a projection to every
role, and that all its projections are valid again.
-/

namespace Multiparty

section Checks

variable {ε α : Type}

theorem check_then_eq_ok_iff {first second : Except ε Unit} :
    (first >>= fun _ => second) = .ok () ↔
      first = .ok () ∧ second = .ok () := by
  cases first with
  | error cause =>
      constructor
      · intro failed
        cases failed
      · intro both
        cases both.1
  | ok => exact ⟨fun checked => ⟨rfl, checked⟩, And.right⟩

theorem check_all_eq_ok_iff {check : α → Except ε Unit} {values : List α} :
    values.forM check = .ok () ↔ ∀ value ∈ values, check value = .ok () := by
  induction values with
  | nil =>
      constructor
      · intro _ value member
        cases member
      · intro _
        rfl
  | cons head tail ih =>
      change (check head >>= fun _ => tail.forM check) = .ok () ↔ _
      rw [check_then_eq_ok_iff, ih, List.forall_mem_cons]

end Checks

/-- The roles that a node names are declared, and its interaction, if it has
one, has receivers. -/
def Content.Declared (declared : Registry Role) : Content → Prop
  | exchange interaction => interaction.validate declared = .ok ()
  | perform action => action.interaction.validate declared = .ok ()
  | choice chooser _ => chooser.validate declared = .ok ()
  | loop _ | jump _ => True
  | invoke call => ∀ role ∈ call.roles, role.validate declared = .ok ()
  | interruptible _ triggers =>
      ∀ trigger ∈ triggers, trigger.validate declared = .ok ()

theorem Content.Declared.seenBy {declared : Registry Role} {role : Role}
    {content seen : Content} (valid : content.Declared declared)
    (shown : content.seenBy role = some seen) : seen.Declared declared := by
  cases content with
  | exchange interaction =>
      rw [seenBy_exchange, Option.map_eq_some_iff] at shown
      obtain ⟨action, view, rfl⟩ := shown
      rw [Declared, Interaction.interaction_of_viewOf view]
      exact valid
  | _ =>
      cases shown
      exact valid

namespace Protocol

variable {declared : Registry Role}

theorem forall_contents_iff {holds : Content → Prop} {protocol : Protocol} :
    (∀ content ∈ protocol.contents, holds content) ↔
      (∀ content ∈ protocol.content?, holds content) ∧
        ∀ child ∈ protocol.children, ∀ content ∈ child.contents,
          holds content := by
  rw [contents, collect_eq, List.forall_mem_append, List.forall_mem_flatMap]
  simp only [Option.mem_toList, Option.mem_def]
  rfl

theorem validateRolesList_eq_ok_iff {protocols : List Protocol} :
    validateRolesList declared protocols = .ok () ↔
      ∀ protocol ∈ protocols, protocol.validateRoles declared = .ok () := by
  induction protocols with
  | nil => simp [validateRolesList]
  | cons head tail ih =>
      rw [validateRolesList, check_then_eq_ok_iff, ih, List.forall_mem_cons]

theorem validateRolesInterrupts_eq_ok_iff
    {interrupts : List (Interrupt Protocol)} :
    validateRolesInterrupts declared interrupts = .ok () ↔
      (∀ trigger ∈ interrupts.map Interrupt.trigger,
        trigger.validate declared = .ok ()) ∧
        ∀ part ∈ interrupts.flatMap Interrupt.body,
          part.validateRoles declared = .ok () := by
  induction interrupts with
  | nil => simp [validateRolesInterrupts]
  | cons head tail ih =>
      obtain ⟨trigger, body⟩ := head
      rw [validateRolesInterrupts, check_then_eq_ok_iff, check_then_eq_ok_iff,
        ih, validateRolesList_eq_ok_iff, List.map_cons, List.forall_mem_cons,
        List.flatMap_cons, List.forall_mem_append]
      tauto

/-- Validation of the roles looks at one content after the other. -/
theorem validateRoles_eq_ok_iff {protocol : Protocol} :
    protocol.validateRoles declared = .ok () ↔
      ∀ content ∈ protocol.contents, content.Declared declared := by
  have listed : ∀ parts : List Protocol,
      (∀ part ∈ parts, (part.validateRoles declared = .ok () ↔
        ∀ content ∈ part.contents, content.Declared declared)) →
      (validateRolesList declared parts = .ok () ↔
        ∀ part ∈ parts, ∀ content ∈ part.contents,
          content.Declared declared) := by
    intro parts same
    rw [validateRolesList_eq_ok_iff]
    exact forall₂_congr same
  induction protocol with
  | exchange | perform | jump =>
      rw [forall_contents_iff, validateRoles]
      simp [content?, children, Content.Declared]
  | invoke call =>
      rw [forall_contents_iff, validateRoles, check_all_eq_ok_iff]
      simp [content?, children, Content.Declared]
  | compose how parts ih =>
      rw [forall_contents_iff, validateRoles, listed parts ih]
      simp [content?, children]
  | loop head body ih =>
      rw [forall_contents_iff, validateRoles, listed body ih]
      simp [content?, children, Content.Declared]
  | choice chooser branches ih =>
      rw [forall_contents_iff, validateRoles, check_then_eq_ok_iff,
        listed branches ih]
      simp [content?, children, Content.Declared]
  | interruptible scope body interrupts bodyIH handlerIH =>
      rw [forall_contents_iff, validateRoles, check_then_eq_ok_iff,
        validateRolesInterrupts_eq_ok_iff, listed body bodyIH,
        forall₂_congr handlerIH]
      -- The interrupts are checked before the body, but listed after it.
      simp only [content?, children, Content.Declared, List.forall_mem_append,
        Option.mem_def, Option.some.injEq, forall_eq']
      tauto

theorem validate_eq_ok_iff {protocol : Protocol} :
    protocol.validate declared = .ok () ↔
      protocol.unresolvedLabel? = none ∧
        ∀ content ∈ protocol.contents, content.Declared declared := by
  rw [validate, check_then_eq_ok_iff, validateRoles_eq_ok_iff, validateLabels]
  cases protocol.unresolvedLabel? <;> simp

theorem validate_of_project {protocol view : Protocol} {role : Role}
    (valid : protocol.validate declared = .ok ())
    (projected : protocol.project role = .ok view) :
    view.validate declared = .ok () := by
  rw [validate_eq_ok_iff] at valid ⊢
  refine ⟨unresolvedLabel?_of_project projected, ?_⟩
  rw [contents_of_project projected]
  intro content member
  obtain ⟨original, inTree, shown⟩ := List.mem_filterMap.mp member
  exact (valid.2 original inTree).seenBy shown

end Protocol

namespace Session

theorem project_of_root {session : Session} {role : Role} {root : Protocol}
    (projected : session.root.project role = .ok root) :
    session.project role = .ok ({ session with root }.setEndpoint role) := by
  rw [project, projected]
  rfl

/-- A valid session has a projection to every role, declared or not.  It is the
valid local session of that role with the same declarations. -/
theorem valid_session_projects {session : Session}
    (valid : session.validate = .ok ()) (role : Role) :
    ∃ view, session.project role = .ok view ∧ view.validate = .ok () ∧
      view.name = session.name ∧ view.roles = session.roles ∧
      view.groups = session.groups ∧ view.imports = session.imports ∧
      view.kind = .local ∧ view.endpoint = some role := by
  obtain ⟨resolved, _⟩ := Protocol.validate_eq_ok_iff.mp valid
  obtain ⟨root, projected⟩ := Protocol.exists_project resolved role
  have stillValid : root.validate session.roles = .ok () :=
    Protocol.validate_of_project valid projected
  exact ⟨_, project_of_root projected, stillValid, rfl, rfl, rfl, rfl, rfl, rfl⟩

/-- The session declares a worker and its master; the projection is to a role
that it does not declare. -/
theorem valid_session_projects_to_stranger :
    let master : Role := { name := "M" }
    let worker (index : Expr) : Role := { name := "W", dimensions := [index] }
    let session : Session :=
      { name := "Jobs"
        root := .root [.loop (.forEach "i" (.range (.lit 1) (.var "N")))
          [.choice master
            [.exchange
              { sender := some master, receivers := [worker (.var "i")] },
              .jump "i"]]]
        roles := .ofList [("M", master), ("W", worker (.lit 0))]
        groups := .ofList [("G", .ofRoles "G" [master])]
        imports := [{ name := "Lib" }] }
    session.validate = .ok () ∧
      ∃ view, session.project { name := "X" } = .ok view ∧
        view.validate = .ok () ∧ view.name = session.name ∧
        view.roles = session.roles ∧ view.groups = session.groups ∧
        view.imports = session.imports ∧ view.kind = .local ∧
        view.endpoint = some { name := "X" } := by
  intro master worker session
  have valid : session.validate = .ok () := rfl
  exact ⟨valid, valid_session_projects valid { name := "X" }⟩

end Session

end Multiparty
