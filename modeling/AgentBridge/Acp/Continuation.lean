import AgentBridge.Acp.Error
import AgentBridge.Reasoning.Except
import AgentBridge.Reasoning.Serde
import AgentBridge.Reasoning.Transition
import AgentBridge.Records.Interface
import Mathlib.Logic.Function.Basic

/-!
# Resuming saved native sessions

Connections that share a store resume native sessions and hand them off.  A call is a sequence of
accesses to the store, to the reserved sessions of its connection and to the agent; the accesses of
several calls interleave.
-/

namespace AgentBridge

open Reasoning

namespace Acp

def adapter : String := "acp-v1"

/-- The adapter's own data of a continuation. -/
structure AcpData where
  version : UInt32
  cwd : String
  agentName : String
  agentVersion : String
deriving DecidableEq

def AcpData.fields : List String := ["agent_name", "agent_version", "cwd", "version"]

/-- `serde_json::from_value`; a derived structure also reads from an array of its fields. -/
def AcpData.fromValue (value : Json) : Except String AcpData :=
  match value with
  | .arr [version, cwd, agentName, agentVersion] => do
      .ok {
        version := ← Serde.fromJson version
        cwd := ← Serde.fromJson cwd
        agentName := ← Serde.fromJson agentName
        agentVersion := ← Serde.fromJson agentVersion }
  | value => do
      let members ← Serde.structMembers fields value
      .ok {
        version := ← Serde.field members "version"
        cwd := ← Serde.field members "cwd"
        agentName := ← Serde.field members "agent_name"
        agentVersion := ← Serde.field members "agent_version" }

/-- `serde_json::to_value`. -/
def AcpData.toValue (data : AcpData) : Json :=
  .obj [("agent_name", .str data.agentName), ("agent_version", .str data.agentVersion),
    ("cwd", .str data.cwd), ("version", Serde.toJson data.version)]

theorem AcpData.canonical_toValue (data : AcpData) : data.toValue.canonical = true := by
  refine Json.canonical_obj AcpData.fields rfl (by decide) ?_
  have hversion := LawfulSerde.canonical_toJson data.version
  simp [Json.canonicalMembers, Json.canonical, hversion]

/-! ## Connections -/

structure Implementation where
  name : String
  version : String

/-- What the agent said of itself on `initialize`, as far as sessions are resumed by it. -/
structure AcpInfo where
  agentInfo : Option Implementation
  resume : Bool
  http : Bool
  sse : Bool

structure AcpConnection where
  info : AcpInfo
  continuationScope : Option String

inductive McpServer where
  | stdio (command : String)
  | http
  | sse
  | other

/-- `Path::is_absolute`. -/
def isAbsolute (path : String) : Bool := path.toList.head? == some '/'

def AcpConnection.scope (connection : AcpConnection) : Except AcpError String :=
  match connection.continuationScope with
  | some scope => if isBlank scope then .error .continuationScopeRequired else .ok scope
  | none => .error .continuationScopeRequired

def AcpConnection.validateMcp (connection : AcpConnection) : List McpServer → Except AcpError Unit
  | [] => .ok ()
  | server :: servers => do
      let supported ← match server with
        | .stdio command =>
            if isAbsolute command then .ok true else .error .invalidMcpCommand
        | .http => .ok connection.info.http
        | .sse => .ok connection.info.sse
        | .other => .ok false
      if supported then connection.validateMcp servers else .error .unsupportedMcpTransport

def AcpConnection.agent (connection : AcpConnection) : Except AcpError Implementation :=
  match connection.info.agentInfo with
  | some agent => .ok agent
  | none => .error .incompatibleContinuation

/-- The checks of `resume_saved` on the continuation it has read. -/
def AcpConnection.preflight (connection : AcpConnection) (descriptor : Continuation)
    (mcpServers : List McpServer) : Except AcpError AcpData := do
  let data ← match AcpData.fromValue descriptor.data.val with
    | .ok data => .ok data
    | .error _ => .error .incompatibleContinuation
  let agent ← connection.agent
  if descriptor.adapter ≠ adapter then .error .incompatibleContinuation
  else do
    let scope ← connection.scope
    if descriptor.scope ≠ scope ∨ data.version ≠ 1 ∨ agent.name ≠ data.agentName ∨
        agent.version ≠ data.agentVersion then
      .error .incompatibleContinuation
    else if !isAbsolute data.cwd then .error .invalidWorkingDirectory
    else do
      connection.validateMcp mcpServers
      .ok data

/-! ## Calls -/

/-- `AcpSession`: a handle of a native session. -/
structure AcpSession where
  sessionId : SessionId
  slotId : SlotId
  native : String
  cwd : String
  predecessor : Option ContinuationId

/-- Where a call stands between two accesses: a `resume_saved`, or a handle on its way to a
`handoff`. -/
inductive Phase where
  | idle
  | called (id : ContinuationId) (mcpServers : List McpServer)
  | opened (id : ContinuationId) (mcpServers : List McpServer)
  | checked (id : ContinuationId) (descriptor : Continuation) (data : AcpData)
  | reserved (id : ContinuationId) (descriptor : Continuation) (data : AcpData)
  /-- The claim failed, and the session is still reserved. -/
  | refused (native : String) (error : AcpError)
  | claimed (id : ContinuationId) (descriptor : Continuation) (data : AcpData)
  | requested (id : ContinuationId) (descriptor : Continuation) (data : AcpData)
  | holding (session : AcpSession)
  | registering (session : AcpSession) (value : Continuation)
  | saving (session : AcpSession) (value : Continuation)
  | saved (session : AcpSession)
  | handedOff
  /-- Ended without a claim and without a session. -/
  | failed (error : AcpError)
  /-- Ended with the native session left reserved. -/
  | abandoned (native : String)

structure Call where
  connection : Nat
  phase : Phase

/-- A `session/resume` request, with the call that sent it. -/
structure Request where
  call : Nat
  id : ContinuationId
  native : String
  cwd : String

structure World (σ : Type) where
  store : σ
  connections : Nat → AcpConnection
  closed : Nat → Bool
  /-- `routes.sessions` of each connection. -/
  sessions : Nat → List String
  calls : Nat → Call
  requests : List Request

inductive Event where
  /-- Any call of the store by anyone else. -/
  | store (op : StoreOp)
  | close (connection : Nat)
  | resumeSaved (call connection : Nat) (id : ContinuationId) (mcpServers : List McpServer)
  /-- The next access of a call. -/
  | advance (call : Nat)
  /-- The next access of a call is one to the store, and it fails before it takes effect. -/
  | busy (call : Nat) (error : StoreError)
  /-- Sending the request fails; it may be out all the same. -/
  | sendFails (call : Nat) (sent : Bool)
  | responds (call : Nat)
  | responseFails (call : Nat)
  /-- A response of `session/new` arrives. -/
  | newSession (call connection : Nat) (session : AcpSession)
  /-- `handoff` is called; the handle's own state may refuse it. -/
  | handoff (call : Nat) (id : ContinuationId) (refusal : Option AcpError)
  | drop (call : Nat)

/-- The call that an event is a step of. -/
def Event.call : Event → Option Nat
  | .store _ => none
  | .close _ => none
  | .resumeSaved k _ _ _ => some k
  | .advance k => some k
  | .busy k _ => some k
  | .sendFails k _ => some k
  | .responds k => some k
  | .responseFails k => some k
  | .newSession k _ _ => some k
  | .handoff k _ _ => some k
  | .drop k => some k

namespace World

variable {σ : Type}

def setCall (w : World σ) (k : Nat) (call : Call) : World σ :=
  { w with calls := Function.update w.calls k call }

def setPhase (w : World σ) (k : Nat) (phase : Phase) : World σ :=
  w.setCall k ⟨(w.calls k).connection, phase⟩

/-- `sessions.insert`, of a session that is not there. -/
def reserve (w : World σ) (c : Nat) (native : String) : World σ :=
  { w with sessions := Function.update w.sessions c (native :: w.sessions c) }

/-- `sessions.remove`. -/
def release (w : World σ) (c : Nat) (native : String) : World σ :=
  { w with sessions := Function.update w.sessions c ((w.sessions c).filter (· ≠ native)) }

def withStore (w : World σ) (store : σ) : World σ := { w with store }

def send (w : World σ) (request : Request) : World σ :=
  { w with requests := request :: w.requests }

end World

/-- The continuation that `handoff` saves. -/
def AcpConnection.descriptor (connection : AcpConnection) (session : AcpSession)
    (id : ContinuationId) : Except AcpError Continuation :=
  if !connection.info.resume then .error .resumeUnsupported
  else do
    let scope ← connection.scope
    let agent ← connection.agent
    let data : AcpData := ⟨1, session.cwd, agent.name, agent.version⟩
    .ok {
      id
      sessionId := session.sessionId
      slotId := session.slotId
      adapter
      scope
      nativeKey := session.native
      predecessor := session.predecessor
      data := ⟨data.toValue, data.canonical_toValue⟩ }

variable {σ : Type}

/-- The next access of a call that needs nothing from the agent. -/
def advance (m : StoreMachine σ) (w : World σ) (k : Nat) : Option (World σ) :=
  let c := (w.calls k).connection
  let connection := w.connections c
  match (w.calls k).phase with
  | .called id mcpServers =>
      if w.closed c then some (w.setPhase k (.failed .closed))
      else if !connection.info.resume then some (w.setPhase k (.failed .resumeUnsupported))
      else some (w.setPhase k (.opened id mcpServers))
  | .opened id mcpServers =>
      let w' := w.withStore (m.exec (.getContinuation id) w.store).2
      match (m.exec (.getContinuation id) w.store).1 with
      | .error e => some (w'.setPhase k (.failed (.store e)))
      | .ok saved =>
          match connection.preflight saved.continuation mcpServers with
          | .error e => some (w'.setPhase k (.failed e))
          | .ok data => some (w'.setPhase k (.checked id saved.continuation data))
  | .checked id descriptor data =>
      if descriptor.nativeKey ∈ w.sessions c then
        some (w.setPhase k (.failed .sessionUnavailable))
      else some ((w.reserve c descriptor.nativeKey).setPhase k (.reserved id descriptor data))
  | .reserved id descriptor data =>
      let w' := w.withStore (m.exec (.claimContinuation id) w.store).2
      match (m.exec (.claimContinuation id) w.store).1 with
      | .error e => some (w'.setPhase k (.refused descriptor.nativeKey (.store e)))
      | .ok _ => some (w'.setPhase k (.claimed id descriptor data))
  | .refused native error => some ((w.release c native).setPhase k (.failed error))
  | .claimed id descriptor data =>
      some ((w.send ⟨k, id, descriptor.nativeKey, data.cwd⟩).setPhase k
        (.requested id descriptor data))
  | .registering session value =>
      let w' := w.withStore (m.exec (.createSession session.sessionId) w.store).2
      match (m.exec (.createSession session.sessionId) w.store).1 with
      | .error _ => some (w'.setPhase k (.abandoned session.native))
      | .ok _ => some (w'.setPhase k (.saving session value))
  | .saving session value =>
      let w' := w.withStore (m.exec (.saveContinuation value) w.store).2
      match (m.exec (.saveContinuation value) w.store).1 with
      | .error _ => some (w'.setPhase k (.abandoned session.native))
      | .ok saved =>
          if saved.state ≠ .available ∨ saved.latest = false then
            some (w'.setPhase k (.abandoned session.native))
          else some (w'.setPhase k (.saved session))
  | .saved session => some ((w.release c session.native).setPhase k .handedOff)
  | _ => none

/-- A store call of a call fails without effect. -/
def busy (w : World σ) (k : Nat) (e : StoreError) : Option (World σ) :=
  match (w.calls k).phase with
  | .opened _ _ => some (w.setPhase k (.failed (.store e)))
  | .reserved _ descriptor _ => some (w.setPhase k (.refused descriptor.nativeKey (.store e)))
  | .registering session _ => some (w.setPhase k (.abandoned session.native))
  | .saving session _ => some (w.setPhase k (.abandoned session.native))
  | _ => none

def next (m : StoreMachine σ) (w : World σ) : Event → Option (World σ)
  | .store op => some (w.withStore (m.exec op.call w.store).2)
  | .close c => some { w with closed := Function.update w.closed c true }
  | .resumeSaved k c id mcpServers =>
      match (w.calls k).phase with
      | .idle => some (w.setCall k ⟨c, .called id mcpServers⟩)
      | _ => none
  | .advance k => advance m w k
  | .busy k e => busy w k e
  | .sendFails k sent =>
      match (w.calls k).phase with
      | .claimed id descriptor data =>
          let w' := if sent then w.send ⟨k, id, descriptor.nativeKey, data.cwd⟩ else w
          some (w'.setPhase k (.abandoned descriptor.nativeKey))
      | _ => none
  | .responds k =>
      match (w.calls k).phase with
      | .requested id descriptor data => some (w.setPhase k (.holding
          ⟨descriptor.sessionId, descriptor.slotId, descriptor.nativeKey, data.cwd, some id⟩))
      | _ => none
  | .responseFails k =>
      match (w.calls k).phase with
      | .requested _ descriptor _ => some (w.setPhase k (.abandoned descriptor.nativeKey))
      | _ => none
  | .newSession k c session =>
      match (w.calls k).phase with
      | .idle =>
          if session.native ∈ w.sessions c then
            some (w.setCall k ⟨c, .failed .sessionUnavailable⟩)
          else
            some ((w.reserve c session.native).setCall k
              ⟨c, .holding { session with predecessor := none }⟩)
      | _ => none
  | .handoff k id refusal =>
      match (w.calls k).phase with
      | .holding session =>
          let c := (w.calls k).connection
          match refusal, (w.connections c).descriptor session id with
          | none, .ok value =>
              if w.closed c then some (w.setPhase k (.abandoned session.native))
              else some (w.setPhase k (.registering session value))
          | _, _ => some (w.setPhase k (.abandoned session.native))
      | _ => none
  | .drop k =>
      match (w.calls k).phase with
      -- a future dropped while it waits for the response, and a handle
      | .requested _ descriptor _ => some (w.setPhase k (.abandoned descriptor.nativeKey))
      | .holding session => some (w.setPhase k (.abandoned session.native))
      | _ => none

/-- Connections over one store before any call. -/
def World.start (store : σ) (connections : Nat → AcpConnection) : World σ where
  store
  connections
  closed := fun _ => false
  sessions := fun _ => []
  calls := fun _ => ⟨0, .idle⟩
  requests := []

end Acp

end AgentBridge
