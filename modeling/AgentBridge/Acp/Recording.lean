import AgentBridge.Acp.Configuration
import AgentBridge.Acp.Route
import AgentBridge.Reasoning.Prog
import AgentBridge.Records.Encoding
import AgentBridge.Records.Interface

/-!
# The recorder of a run

It keeps the live transcript of one run next to the snapshots that the store holds of it: text and
tool calls grow in memory, and reach the store at a checkpoint or when the run ends.
-/

namespace AgentBridge

open Reasoning

namespace Acp

/-! ## What the agent sends -/

structure ContentChunk where
  /-- The text of a text block, and what the chunk serializes to. -/
  text : Option String
  messageId : Option String
  value : Except String JsonValue

inductive ToolCallStatus where
  | pending
  | inProgress
  | completed
  | failed
  /-- One that a later version of the protocol adds. -/
  | other
deriving DecidableEq

structure ToolCall (D : Type) where
  toolCallId : String
  data : D
deriving DecidableEq

/-- `meta` is written `metadata`: the source's name is a Lean keyword. -/
structure ToolCallUpdate (F : Type) where
  toolCallId : String
  fields : F
  metadata : Option JsonValue

inductive SessionUpdate (D F : Type) where
  | agentMessageChunk (chunk : ContentChunk)
  | agentThoughtChunk (chunk : ContentChunk)
  | toolCall (call : ToolCall D)
  | toolCallUpdate (update : ToolCallUpdate F)
  | configOptionUpdate (options : List SessionConfigOption)
  /-- Any other update, with what it serializes to. -/
  | other (value : Except String JsonValue)

/-- The parts of the protocol library that a recorder calls, on the data `D` of a tool call and the
fields `F` of an update to one. -/
structure Protocol (D F : Type) where
  /-- `ToolCall::new` with this title. -/
  new : String → D
  update : F → D → D
  setMeta : JsonValue → D → D
  title : D → String
  status : D → ToolCallStatus
  rawInput : D → Option JsonValue
  rawOutput : D → Option JsonValue
  value : ToolCall D → Except String JsonValue
  fieldsTitle : F → Option String
  stopReason : StopReason → JsonValue

abbrev RecordedEvent (D F : Type) := AcpEvent (SessionUpdate D F) (ToolCallUpdate F)

/-! ## The recorder -/

/-- Attribution is supplied by the application, independently of the provider. -/
structure RecordActors where
  user : ActorId
  agent : ActorId
  host : ActorId

structure Working where
  stored : Snapshot
  payload : Payload
  dirty : Bool

structure Recorder (D : Type) where
  spec : RunSpec
  actors : RecordActors
  records : List Working
  messages : HashMap (MessageKind × String) Nat
  anonymous : Option (MessageKind × Nat)
  tools : HashMap String (Nat × ToolCall D)
  permissions : HashMap PermissionId Nat
  finished : Bool
  lastConfiguration : Option ConfigValues
  inputReceipt : Bool
  inputVersion : UInt64
  inputResponse : Bool

/-- How a call of a recorder ends when it does not return a value. -/
inductive RecordingFault where
  | error (e : RecordingError)
  | panic
deriving DecidableEq

/-- A call of a recorder, on a store with states of type `σ`. -/
abbrev Recording (D σ : Type) := Prog RecordingFault (Recorder D × σ)

section Primitives

variable {D σ α : Type}

def fail (e : RecordingError) : Recording D σ α := throw (.error e)

def storeFault : Fault → RecordingFault
  | .error e => .error (.store e)
  | .panic => .panic

def storeCall (m : StoreMachine σ) (c : StoreCall α) : Recording D σ α :=
  .call fun s =>
    match m.exec c s.2 with
    | (.ok a, t) => (.ok a, (s.1, t))
    | (.error e, t) => (.error (storeFault e), (s.1, t))

def recorder : Recording D σ (Recorder D) := .call fun s => (.ok s.1, s)

def modifyRecorder (f : Recorder D → Recorder D) : Recording D σ Unit :=
  .call fun s => (.ok (), (f s.1, s.2))

/-- The `?` of a serialization. -/
def serialized : Except String α → Recording D σ α
  | .ok a => pure a
  | .error e => fail (.serialization e)

/-- `self.records[index]`. -/
def working (index : Nat) : Recording D σ Working := do
  match (← recorder).records[index]? with
  | some w => pure w
  | none => throw .panic

end Primitives

/-! ## Evidence -/

/-- `{"version":..,"state":..}`. -/
def stateEvidence (version : UInt64) (state : String) : JsonValue :=
  ⟨.obj [("state", Serde.toJson state), ("version", Serde.toJson version)],
    Json.canonical_obj ["state", "version"] rfl (by decide) (by
      simp only [Json.canonicalMembers, LawfulSerde.canonical_toJson, Bool.and_true])⟩

def responseEvidence (version : UInt64) (reason : JsonValue) : JsonValue :=
  ⟨.obj [("state", .str "response_received"), ("stop_reason", Serde.toJson reason),
      ("version", Serde.toJson version)],
    Json.canonical_obj ["state", "stop_reason", "version"] rfl (by decide) (by
      simp only [Json.canonicalMembers, LawfulSerde.canonical_toJson, Bool.and_true]
      rfl)⟩

def dispatchEvidence (option : Option String) : JsonValue :=
  ⟨.obj [("option_id", Serde.toJson option), ("state", .str "dispatch_attempted"),
      ("version", .num 1)],
    Json.canonical_obj ["option_id", "state", "version"] rfl (by decide) (by
      simp only [Json.canonicalMembers, LawfulSerde.canonical_toJson]
      rfl)⟩

def configurationEvidence (report : Option ConfigValues) : JsonValue :=
  ⟨.obj [("confirmed", Serde.toJson report)],
    Json.canonical_obj ["confirmed"] rfl (by decide) (by
      simp only [Json.canonicalMembers, LawfulSerde.canonical_toJson, Bool.and_true])⟩

/-- A receipt that an encoder made for a prompt that was not sent yet. -/
structure InputReceipt where
  data : JsonValue
  version : UInt64
  hasVersion : data.val.get "version" = Serde.toJson version
  prepared : data.val.get "state" = .str "prepared"

/-- The id of a run's `n`-th record. -/
def recordId (run : RunId) (n : Nat) : RecordId where
  -- The length of the caller's id keeps separators within it from causing collisions.
  asStr := "run/" ++ (toString run.asStr.utf8ByteSize ++ ":" ++ run.asStr ++ "/record/" ++
    toString n)
  notBlank := by
    rw [isBlank, String.toList_append, List.all_append]
    rfl

namespace Recorder

variable {D : Type}

def draft (r : Recorder D) (payload : Payload) (actor : ActorId) (replyToId : Option RecordId)
    (source : Option SourceRef) (state : RecordState) : Draft where
  id := recordId r.spec.id r.records.length
  sessionId := r.spec.sessionId
  runId := some r.spec.id
  actor
  replyToId
  source
  payload
  state

def push (r : Recorder D) (w : Working) : Recorder D := { r with records := r.records ++ [w] }

/-- `self.records[index]` changed in place. -/
def amend (r : Recorder D) (index : Nat) (f : Working → Working) : Recorder D :=
  { r with records := r.records.modify index f }

end Recorder

/-! ## Writing records -/

section Writing

variable {D F σ : Type} (m : StoreMachine σ) (protocol : Protocol D F)

def insert (payload : Payload) (actor : ActorId) (reply : Option RecordId)
    (source : Option SourceRef) (state : RecordState) : Recording D σ Nat := do
  let r ← recorder
  let stored ← storeCall m (.insert (r.draft payload actor reply source state))
  modifyRecorder fun r => r.push ⟨stored, payload, false⟩
  return r.records.length

/-- A complete record of the bridge's own, attributed to the host. -/
def evidence (name : String) (data : JsonValue) (reply : Option RecordId) :
    Recording D σ Unit := do
  let r ← recorder
  let _ ← insert m (.extension "agent_bridge" name data) r.actors.host reply none .complete

def restoration (data : JsonValue) : Recording D σ Unit := evidence m "restoration" data none

def resultEvidence (name : String) (data : JsonValue) : Recording D σ Unit := evidence m name data none

def inputEvidence (data : JsonValue) : Recording D σ Unit := evidence m "input_receipt" data none

def executionEvidence (state : String) : Recording D σ Unit :=
  evidence m "run_dispatch" (stateEvidence 1 state) none

def prepareInput (receipt : InputReceipt) : Recording D σ Unit := do
  modifyRecorder fun r => { r with inputVersion := receipt.version }
  inputEvidence m receipt.data
  modifyRecorder fun r => { r with inputReceipt := true }

def inputDispatchAttempted : Recording D σ Unit := do
  let r ← recorder
  inputEvidence m (stateEvidence r.inputVersion "dispatch_attempted")

/-- What `respond` inserts before it passes a decision on. -/
def permissionDispatch (request : RecordId) (option : Option String) : Recording D σ Unit :=
  evidence m "permission_dispatch" (dispatchEvidence option) (some request)

/-- A record of the agent that stands for itself. -/
def extension (name : String) (data : JsonValue) : Recording D σ Unit := do
  let r ← recorder
  let _ ← insert m (.extension "acp" name data) r.actors.agent none none .complete

/-! ## The start -/

/-- The recorder of a run before its first record. -/
def Recorder.start (spec : RunSpec) (actors : RecordActors) : Recorder D where
  spec
  actors
  records := []
  messages := ∅
  anonymous := none
  tools := ∅
  permissions := ∅
  finished := false
  lastConfiguration := spec.config.confirmed
  inputReceipt := false
  inputVersion := 1
  inputResponse := false

/-- `Recorder::new`, run from `Recorder.start`. -/
def newRecorder (input : String) : Recording D σ Unit := do
  let r ← recorder
  storeCall m (.createSession r.spec.sessionId)
  if ← storeCall m (.registerRun r.spec) then
    executionEvidence m "prepared"
    let _ ← insert m (.message .user ⟨[.text input]⟩) r.actors.user none none .complete
  else fail .runAlreadyRecorded

/-! ## Events -/

/-- `buffer.push_str` on the last content, when that is text. -/
def pushText (text : String) : List Content → List Content
  | [] => []
  | [.text buffer] => [.text (buffer ++ text)]
  | [.resource reference] => [.resource reference]
  | a :: b :: rest => a :: pushText text (b :: rest)

/-- The live payload of a message, one chunk later. -/
def appendText (text : String) : Payload → Payload
  | .message kind message => .message kind ⟨pushText text message.content⟩
  | payload => payload

def Working.append (text : String) (w : Working) : Working :=
  { w with payload := appendText text w.payload, dirty := true }

def Recorder.existing (r : Recorder D) (kind : MessageKind) : Option String → Option Nat
  | some id => r.messages.lookup (kind, id)
  | none => (r.anonymous.filter fun last => last.1 = kind).map (·.2)

/-- The record that a text chunk belongs to, inserted when it is the first of its message. -/
def messageIndex (kind : MessageKind) (native : Option String) : Recording D σ Nat := do
  let r ← recorder
  match r.existing kind native with
  | some index => return index
  | none =>
      let index ← insert m (.message kind ⟨[.text ""]⟩) r.actors.agent none
        (native.map fun id => ⟨"acp", id⟩) .opened
      match native with
      | some id =>
          modifyRecorder fun r => { r with messages := r.messages.insert (kind, id) index }
      | none => pure ()
      return index

def message (kind : MessageKind) (chunk : ContentChunk) : Recording D σ Unit := do
  match chunk.text with
  | none =>
      modifyRecorder fun r => { r with anonymous := none }
      let value ← serialized chunk.value
      extension m "message_content" value
  | some text =>
      let index ← messageIndex m kind chunk.messageId
      modifyRecorder fun r =>
        { r with anonymous := if chunk.messageId.isNone then some (kind, index) else none }
      let _ ← working index
      modifyRecorder fun r => r.amend index (Working.append text)

def toolStatus : ToolCallStatus → ToolStatus
  | .pending => .pending
  | .inProgress => .running
  | .completed => .completed
  | .failed => .failed
  | .other => .unknown

def toolKeys : List String := ["toolCallId", "title", "status", "rawInput", "rawOutput"]

def toolPayload (call : ToolCall D) : Except String Payload := do
  let details ← protocol.value call
  .ok (.tool {
    title := protocol.title call.data
    status := toolStatus (protocol.status call.data)
    input := protocol.rawInput call.data
    output := protocol.rawOutput call.data
    extensions := .singleton "acp"
      ⟨details.val.without toolKeys, Json.canonical_without toolKeys details.property⟩ })

def tool (call : ToolCall D) : Recording D σ Unit := do
  let payload ← serialized (toolPayload protocol call)
  let r ← recorder
  let index ← match r.tools.lookup call.toolCallId with
    | some (index, _) => do
        let _ ← working index
        modifyRecorder fun r => r.amend index fun w => { w with payload, dirty := true }
        pure index
    | none =>
        insert m payload r.actors.agent none (some ⟨"acp", call.toolCallId⟩) .opened
  modifyRecorder fun r => { r with tools := r.tools.insert call.toolCallId (index, call) }

/-- The call that an update leaves, from the one that is known. -/
def patch (known : Option (ToolCall D)) (update : ToolCallUpdate F) : ToolCall D :=
  let call := known.getD ⟨update.toolCallId, protocol.new "Tool activity"⟩
  let data := protocol.update update.fields call.data
  { call with data := match update.metadata with
      | some metadata => protocol.setMeta metadata data
      | none => data }

def toolUpdate (update : ToolCallUpdate F) : Recording D σ Unit := do
  let r ← recorder
  tool m protocol (patch protocol ((r.tools.lookup update.toolCallId).map (·.2)) update)

def permissionOption (option : OfferedOption) : PermissionOption :=
  ⟨option.optionId, option.name, option.kind⟩

def permission (id : PermissionId) (request : RequestPermissionRequest (ToolCallUpdate F)) :
    Recording D σ Unit := do
  toolUpdate m protocol request.toolCall
  let r ← recorder
  match r.tools.lookup request.toolCall.toolCallId with
  | none => throw .panic
  | some (tool, _) =>
      let w ← working tool
      let index ← insert m
        (.permission ((protocol.fieldsTitle request.toolCall.fields).getD "Tool permission")
          (request.options.map permissionOption))
        r.actors.agent (some w.stored.record.id) none .opened
      modifyRecorder fun r => { r with permissions := r.permissions.insert id index }

def permissionResolved (id : PermissionId) (outcome : PermissionOutcome)
    (delivery : DecisionDelivery) : Recording D σ Unit := do
  let r ← recorder
  match r.permissions.lookup id with
  | none => fail .missingPermission
  | some index =>
      let request := (← working index).stored
      let payload := Payload.decision outcome delivery
      let response ← storeCall m (.resolve request.record.id request.revision
        (r.draft payload r.actors.host (some request.record.id) none .complete))
      let stored ← storeCall m (.get request.record.id)
      modifyRecorder fun r =>
        (r.amend index fun w => { w with stored }).push ⟨response, payload, false⟩

/-- `report == self.last_configuration` leaves the transcript as it is. -/
def configOptionUpdate (options : List SessionConfigOption) : Recording D σ Unit := do
  let report := (normalize options).toOption.map currentValues
  let r ← recorder
  if report = r.lastConfiguration then pure ()
  else
    modifyRecorder fun r => { r with lastConfiguration := report }
    let _ ← insert m
      (.extension "agent_bridge" "configuration_report" (configurationEvidence report))
      r.actors.agent none none .complete

/-! ## Checkpoints and the end -/

def storeCheckpoint (index : Nat) (w : Working) (state : RecordState) : Recording D σ Unit := do
  let stored ← storeCall m (.checkpoint w.stored.record.id w.stored.revision w.payload state)
  modifyRecorder fun r => r.amend index fun w => { w with stored, dirty := false }

def checkpointRecord (index : Nat) : Recording D σ Unit := do
  let w ← working index
  if w.dirty && !w.stored.state.isFinal then storeCheckpoint m index w .opened

def checkpoint : Recording D σ Unit := do
  (List.range (← recorder).records.length).forM (checkpointRecord m)

def recordComplete (complete : Bool) : Payload → Bool
  | .permission _ _ => false
  | .tool activity => activity.status = .completed ∨ activity.status = .failed
  | _ => complete

def finishRecord (complete : Bool) (index : Nat) : Recording D σ Unit := do
  let w ← working index
  if w.stored.state.isFinal then pure ()
  else
    let state := if recordComplete complete w.payload then .complete else .interrupted
    storeCheckpoint m index w state

def finish (complete : Bool) : Recording D σ Unit := do
  (List.range (← recorder).records.length).forM (finishRecord m complete)
  modifyRecorder fun r => { r with finished := true }

def completionReason : StopReason → CompletionReason
  | .endTurn => .completed
  | .refusal => .refused
  | .maxTokens => .tokenLimit
  | .maxTurnRequests => .stepLimit
  | .cancelled => .cancelled
  | .other text => .other text

def runFinished (reason : StopReason) : Recording D σ Unit := do
  let r ← recorder
  if r.inputReceipt then
    inputEvidence m (responseEvidence r.inputVersion (protocol.stopReason reason))
    modifyRecorder fun r => { r with inputResponse := true }
  let _ ← insert m (.runFinished (completionReason reason)) r.actors.agent none none .complete
  finish m (reason = .endTurn ∨ reason = .refusal)

def interrupt (message : String) : Recording D σ Unit := do
  let r ← recorder
  if r.finished then pure ()
  else
    if r.inputReceipt && !r.inputResponse then
      inputEvidence m (stateEvidence r.inputVersion "unknown")
    let _ ← insert m (.failure message) r.actors.host none none .complete
    finish m false

def isTextUpdate : RecordedEvent D F → Bool
  | .update (.agentMessageChunk _) => true
  | .update (.agentThoughtChunk _) => true
  | _ => false

/-- The `match` of `observe`. -/
def observeEvent : RecordedEvent D F → Recording D σ Unit
  | .update (.agentMessageChunk chunk) => message m .agent chunk
  | .update (.agentThoughtChunk chunk) => message m .reasoning chunk
  | .update (.toolCall call) => tool m protocol call
  | .update (.toolCallUpdate update) => toolUpdate m protocol update
  | .update (.configOptionUpdate options) => configOptionUpdate m options
  | .update (.other value) => do extension m "session_update" (← serialized value)
  | .permission id request => permission m protocol id request
  | .permissionResolved id outcome delivery => permissionResolved m id outcome delivery
  | .finished reason => runFinished m protocol reason

def observe (event : RecordedEvent D F) : Recording D σ Unit := do
  if (← recorder).finished then fail .closed
  else
    if isTextUpdate event then pure ()
    else modifyRecorder fun r => { r with anonymous := none }
    observeEvent m protocol event

end Writing

end Acp

end AgentBridge
