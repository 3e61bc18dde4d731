import AgentBridge.Records.Question
import AgentBridge.Reasoning.Json

/-! # Transcript payloads, drafts and snapshots -/

namespace AgentBridge

open Reasoning

inductive MessageKind where
  | user
  | agent
  | reasoning
deriving DecidableEq

inductive ToolStatus where
  | pending
  | running
  | completed
  | failed
  | unknown
deriving DecidableEq

structure ToolActivity where
  title : String
  status : ToolStatus
  input : Option JsonValue
  output : Option JsonValue
  extensions : SortedMap JsonValue
deriving DecidableEq

structure PermissionOption where
  id : String
  label : String
  effect : String
deriving DecidableEq

inductive PermissionOutcome where
  | selected (id : String)
  | cancelled
deriving DecidableEq

inductive DecisionDelivery where
  /-- Accepted by the local transport queue, not acknowledged by the provider. -/
  | queued
  | unknown
deriving DecidableEq

inductive CompletionReason where
  | completed
  | refused
  | tokenLimit
  | stepLimit
  | cancelled
  | other (reason : String)
deriving DecidableEq

inductive Payload where
  | question (question : Question)
  | answer (outcome : AnswerOutcome) (delivery : AnswerDelivery)
  | message (kind : MessageKind) (message : Message)
  | tool (activity : ToolActivity)
  | permission (title : String) (options : List PermissionOption)
  | decision (outcome : PermissionOutcome) (delivery : DecisionDelivery)
  | failure (message : String)
  | runFinished (reason : CompletionReason)
  | extension (namespaceName name : String) (data : JsonValue)
deriving DecidableEq

inductive PayloadKind where
  | question | answer | message | tool | permission | decision | failure | runFinished | extension
deriving DecidableEq

namespace Payload

/-- `std::mem::discriminant`. -/
def discriminant : Payload → PayloadKind
  | .question _ => .question
  | .answer _ _ => .answer
  | .message _ _ => .message
  | .tool _ => .tool
  | .permission _ _ => .permission
  | .decision _ _ => .decision
  | .failure _ => .failure
  | .runFinished _ => .runFinished
  | .extension _ _ _ => .extension

/-- `matches!(payload, Payload::Permission { .. } | Payload::Question(_))`. -/
def isRequest : Payload → Bool
  | .permission _ _ => true
  | .question _ => true
  | _ => false

/-- `matches!(payload, Payload::Decision { .. } | Payload::Answer { .. })`. -/
def isResponse : Payload → Bool
  | .decision _ _ => true
  | .answer _ _ => true
  | _ => false

theorem isRequest_of_discriminant {a b : Payload} (h : a.discriminant = b.discriminant) :
    a.isRequest = b.isRequest := by
  cases a <;> cases b <;> simp_all [discriminant, isRequest]

theorem isResponse_of_discriminant {a b : Payload} (h : a.discriminant = b.discriminant) :
    a.isResponse = b.isResponse := by
  cases a <;> cases b <;> simp_all [discriminant, isResponse]

theorem isRequest_eq_false_of_isResponse {a : Payload} (h : a.isResponse = true) :
    a.isRequest = false := by
  cases a <;> simp_all [isRequest, isResponse]

end Payload

/-- `open` is written `opened`: the source's name is a Lean keyword. -/
inductive RecordState where
  | opened
  | complete
  | interrupted
deriving DecidableEq

def RecordState.isFinal (state : RecordState) : Bool := state != .opened

@[simp] theorem RecordState.isFinal_opened : RecordState.opened.isFinal = false := rfl

@[simp] theorem RecordState.isFinal_complete : RecordState.complete.isFinal = true := rfl

@[simp] theorem RecordState.isFinal_interrupted : RecordState.interrupted.isFinal = true := rfl

theorem RecordState.isFinal_eq_false {state : RecordState} :
    state.isFinal = false ↔ state = .opened := by
  cases state <;> simp

structure SourceRef where
  namespaceName : String
  id : String
deriving DecidableEq

/-- New record data.  The store assigns the session-local sequence. -/
structure Draft where
  id : RecordId
  sessionId : SessionId
  runId : Option RunId
  actor : ActorId
  replyToId : Option RecordId
  source : Option SourceRef
  payload : Payload
  state : RecordState
deriving DecidableEq

/-- `Record<Payload>`. -/
structure Record where
  id : RecordId
  sessionId : SessionId
  runId : Option RunId
  sequence : Nat
  actor : ActorId
  replyToId : Option RecordId
  payload : Payload
deriving DecidableEq

structure Snapshot where
  record : Record
  source : Option SourceRef
  revision : Nat
  state : RecordState
deriving DecidableEq

/-- What a store keeps of a record: the snapshot it was created with and its current one. -/
structure Entry where
  initial : Snapshot
  current : Snapshot
deriving DecidableEq

end AgentBridge
