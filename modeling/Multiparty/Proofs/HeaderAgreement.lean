import Multiparty.Proofs.Agreement

/-!
# Agreement of nodes, kind by kind

`Config.HeadersAgree` says for each kind of node what has to agree on the two
sides, in terms of the agreement of expressions, roles and guards.  It is what
`Config.sameHeader` tests.  Messages are named by nodes without children only,
and those of agreeing nodes are compatible.
-/

namespace Multiparty

/-- The messages that the outermost node names. -/
def Protocol.messages : Protocol → List Message
  | exchange interaction => [interaction.message]
  | perform action => [action.interaction.message]
  | invoke call => call.args
  | compose .. | choice .. | loop .. | jump _ | interruptible .. => []

/-- Nodes that have children name no messages. -/
theorem Protocol.messages_eq_nil_of_child {protocol child : Protocol}
    {position : Nat} (found : protocol.children[position]? = some child) :
    protocol.messages = [] := by
  cases protocol with
  | exchange | perform | invoke => cases found
  | _ => rfl

namespace Config

variable {config : Config}

/-- Two interactions have compatible messages, the same guard and the same
ends. -/
structure InteractionsAgree (config : Config) (left right : Interaction) :
    Prop where
  messages : left.message.compatible right.message = true
  guards : config.GuardsAgree left.guard right.guard
  senders : config.PeersAgree left.sender right.sender
  receivers : List.Forall₂ config.RolesAgree left.receivers right.receivers

/-- Two interrupts have agreeing triggers and bodies of one length. -/
def InterruptsAgree (config : Config) (left right : Interrupt Protocol) : Prop :=
  left.body.length = right.body.length ∧
    config.RolesAgree left.trigger right.trigger

/-- Two nodes are of one kind, have equally many subtrees, and agree in what
their kind asks for. -/
inductive HeadersAgree (config : Config) : Protocol → Protocol → Prop where
  | compose {how : Composition} {parts parts' : List Protocol} :
      parts.length = parts'.length →
      HeadersAgree config (.compose how parts) (.compose how parts')
  | exchange {interaction interaction' : Interaction} :
      config.InteractionsAgree interaction interaction' →
      HeadersAgree config (.exchange interaction) (.exchange interaction')
  | perform {action action' : Action} :
      config.ActionsAgree action action' →
      HeadersAgree config (.perform action) (.perform action')
  | choice {chooser chooser' : Role} {branches branches' : List Protocol} :
      chooser.name = chooser'.name → branches.length = branches'.length →
      HeadersAgree config (.choice chooser branches) (.choice chooser' branches')
  | recursion {label label' : String} {body body' : List Protocol} :
      body.length = body'.length →
      HeadersAgree config (.loop (.recursion label) body)
        (.loop (.recursion label') body')
  | forEach {index : String} {range range' : Expr} {body body' : List Protocol} :
      config.ExprsAgree range range' → body.length = body'.length →
      HeadersAgree config (.loop (.forEach index range) body)
        (.loop (.forEach index range') body')
  | jump {label label' : String} :
      HeadersAgree config (.jump label) (.jump label')
  | invoke {call call' : Invocation} :
      call.protocol = call'.protocol →
      List.Forall₂ config.RolesAgree call.roles call'.roles →
      List.Forall₂ (fun arg arg' => arg.compatible arg' = true)
        call.args call'.args →
      HeadersAgree config (.invoke call) (.invoke call')
  | interruptible {scope scope' : String} {body body' : List Protocol}
      {interrupts interrupts' : List (Interrupt Protocol)} :
      body.length = body'.length →
      List.Forall₂ config.InterruptsAgree interrupts interrupts' →
      HeadersAgree config (.interruptible scope body interrupts)
        (.interruptible scope' body' interrupts')

theorem sameInteraction_iff {left right : Interaction} :
    config.sameInteraction left right = true ↔
      config.InteractionsAgree left right := by
  simp only [sameInteraction, sameContent, Bool.and_eq_true, sameGuards_iff,
    sameSender_iff, sameReceivers_iff]
  constructor
  · rintro ⟨⟨⟨messages, guards⟩, senders⟩, receivers⟩
    exact ⟨messages, guards, senders, receivers⟩
  · rintro ⟨messages, guards, senders, receivers⟩
    exact ⟨⟨⟨messages, guards⟩, senders⟩, receivers⟩

theorem sameInterrupt_iff {left right : Interrupt Protocol} :
    config.sameInterrupt left right = true ↔
      config.InterruptsAgree left right := by
  rw [sameInterrupt, InterruptsAgree, Bool.and_eq_true, beq_iff_eq, samePeer_iff]

theorem headersAgree_of_sameHeader {left right : Protocol}
    (same : config.sameHeader left right = true) :
    config.HeadersAgree left right := by
  cases left <;> cases right <;>
    simp only [sameHeader, Bool.false_eq_true, Bool.and_eq_true, beq_iff_eq]
      at same
  case compose.compose =>
    obtain ⟨rfl, lengths⟩ := same
    exact .compose lengths
  case exchange.exchange => exact .exchange (sameInteraction_iff.mp same)
  case perform.perform => exact .perform (sameAction_iff.mp same)
  case choice.choice => exact .choice same.1 same.2
  case loop.loop head body head' body' =>
    obtain ⟨heads, lengths⟩ := same
    cases head <;> cases head' <;>
      simp only [sameLoopHead, Bool.false_eq_true, Bool.and_eq_true, beq_iff_eq]
        at heads
    case recursion.recursion => exact .recursion lengths
    case forEach.forEach =>
      obtain ⟨rfl, ranges⟩ := heads
      exact .forEach (sameExpr_iff.mp ranges) lengths
  case jump.jump => exact .jump
  case invoke.invoke =>
    simp only [sameInvocation, Bool.and_eq_true, beq_iff_eq, isEqv_iff_forall₂,
      samePeer_iff] at same
    obtain ⟨⟨protocol, roles⟩, args⟩ := same
    exact .invoke protocol roles args
  case interruptible.interruptible =>
    simp only [isEqv_iff_forall₂, sameInterrupt_iff] at same
    exact .interruptible same.1 same.2

theorem sameHeader_iff {left right : Protocol} :
    config.sameHeader left right = true ↔ config.HeadersAgree left right := by
  constructor
  · exact headersAgree_of_sameHeader
  · intro agree
    cases agree with
    | compose lengths => simp [sameHeader, lengths]
    | exchange agree => exact sameInteraction_iff.mpr agree
    | perform agree => exact sameAction_iff.mpr agree
    | choice named lengths => simp [sameHeader, named, lengths]
    | recursion lengths => simp [sameHeader, sameLoopHead, lengths]
    | forEach ranges lengths =>
        simp [sameHeader, sameLoopHead, sameExpr_iff.mpr ranges, lengths]
    | jump => rfl
    | invoke protocol roles args =>
        simp only [sameHeader, sameInvocation, Bool.and_eq_true, beq_iff_eq,
          isEqv_iff_forall₂, samePeer_iff]
        exact ⟨⟨protocol, roles⟩, args⟩
    | interruptible lengths interrupts =>
        simp only [sameHeader, Bool.and_eq_true, beq_iff_eq, isEqv_iff_forall₂,
          sameInterrupt_iff]
        exact ⟨lengths, interrupts⟩

/-- The messages of agreeing nodes are compatible one by one. -/
theorem compatible_of_sameHeader {left right : Protocol}
    (header : config.sameHeader left right = true) :
    ∀ pair ∈ left.messages.zip right.messages,
      pair.1.compatible pair.2 = true := by
  cases sameHeader_iff.mp header with
  | exchange agree => simpa [Protocol.messages] using agree.messages
  | perform agree => simpa [Protocol.messages] using agree.messages
  | invoke _ _ args =>
      intro pair opposite
      exact (List.forall₂_iff_zip.mp args).2 opposite
  | _ => simp [Protocol.messages]

end Config

end Multiparty
