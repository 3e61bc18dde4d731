import AgentBridge.Acp.Permissions
import AgentBridge.Acp.Recording

/-!
# Recorded runs

A recorded run drives a run of the agent and its recorder together.  What a call does between two
awaits is one event, except that the connection can come in between where the call locks the route
a second time: after a recording failed, and after a decision was recorded.
-/

namespace AgentBridge

open Reasoning

namespace Acp

/-- `AcpError`'s `Display`; the derived text of a store's error is given. -/
def AcpError.text (store : Fault → String) : AcpError → String
  | .requestTimedOut => "ACP session setup timed out; no retry was attempted"
  | .closed => "ACP connection closed; execution outcome may be unknown"
  | .invalidWorkingDirectory => "ACP requires an absolute working directory"
  | .invalidMcpCommand => "ACP requires an absolute MCP executable path"
  | .unsupportedMcpTransport => "agent does not advertise the requested MCP transport"
  | .emptyPrompt => "prompt cannot be blank"
  | .sessionUnavailable => "session is active, retired, or returned a duplicate provider ID"
  | .invalidPermission => "permission is resolved, unknown, or the option was not offered"
  | .eventBufferFull => "ACP event buffer filled; this run cannot be consumed reliably"
  | .resumeUnsupported => "agent does not advertise native session resume"
  | .continuationScopeRequired =>
      "set a nonempty continuation scope for this provider connection"
  | .incompatibleContinuation =>
      "continuation is incompatible with this scope, adapter, or agent version"
  | .unsafeHandoff => "session has unfinished or uncertain work and cannot be handed off"
  | .configurationUnsupported => "provider did not expose session configuration options"
  | .unknownConfigurationOption => "configuration option was not offered by the provider"
  | .invalidConfigurationValue => "value has the wrong type or was not offered for this option"
  | .configurationUncertain =>
      "configuration is pending or uncertain; wait for a report or reconnect"
  | .configurationRejected => "provider did not confirm the requested option value"
  | .invalidConfiguration => "provider returned an invalid configuration catalog"
  | .configurationChanged =>
      "configuration changed before dispatch; choose a new run ID and retry explicitly"
  | .store fault => "record store: " ++ store fault
  | .protocol message => "ACP connection failed: " ++ message

/-! ## The run -/

/-- What a call of a recorded run returned. -/
inductive Returned (D F : Type) where
  | next (result : Except RecordingFault (Option (RecordedEvent D F)))
  | checkpoint (result : Except RecordingFault Unit)
  | respond (result : Except RecordingFault Unit)
  | cancel (result : Except RecordingFault Unit)

/-- A call that goes on after it gave the lock of the route back. -/
inductive RecordedCall (D F : Type) where
  | idle
  /-- A recording failed: the call still cancels the run, and returns this. -/
  | failing (result : Returned D F)
  /-- The decision is recorded, and still passed on. -/
  | deciding (id : PermissionId) (option : Option String)

structure RecordedRun (D F σ : Type) where
  inner : Turn (SessionUpdate D F) (ToolCallUpdate F)
  recorder : Recorder D
  store : σ
  failed : Bool
  call : RecordedCall D F
  returned : List (Returned D F)

namespace RecordedRun

inductive Event (D F : Type) where
  /-- What the connection does to the route. -/
  | connection (e : Turn.Event (SessionUpdate D F) (ToolCallUpdate F))
  | sent (d : Drain) (result : Except String Unit)
  | next (d : Drain)
  | receive
  | receiveClosed (d : Drain)
  | abandon
  | giveUp (d : Drain) (notified : Except String Unit)
  | checkpoint
  | respond (id : PermissionId) (option : Option String)
  | decide (d : Drain) (sent : Except String Unit)
  | cancel (d : Drain) (notified : Except String Unit)
  | drop (d : Drain) (notified : Except String Unit) (d' : Drain) (notified' : Except String Unit)
  | release (d : Drain)

/-- The events of a run that are not its consumer's. -/
def ofConnection {U T : Type} : Turn.Event U T → Bool
  | .update _ _ => true
  | .permission _ _ _ _ => true
  | .complete _ _ => true
  | .close => true
  | _ => false

section

variable {D F σ α : Type}

/-- A run whose prompt is being sent. -/
def dispatched (closed : Bool) (wire : String) (r : Recorder D) (store : σ) :
    RecordedRun D F σ where
  inner := Turn.dispatched closed r.spec wire
  recorder := r
  store
  failed := false
  call := .idle
  returned := []

def recording (x : Recording D σ α) (s : RecordedRun D F σ) :
    Except RecordingFault α × RecordedRun D F σ :=
  match x.exec (s.recorder, s.store) with
  | (result, recorder, store) => (result, { s with recorder, store })

def return_ (result : Returned D F) (s : RecordedRun D F σ) : RecordedRun D F σ :=
  { s with call := .idle, returned := s.returned ++ [result] }

/-- `self.failed = true`, before the run is cancelled; a panic leaves the call at once. -/
def fail (fault : RecordingFault) (result : Returned D F) (s : RecordedRun D F σ) :
    RecordedRun D F σ :=
  match fault with
  | .error _ => { s with failed := true, call := .failing result }
  | .panic => s.return_ result

variable (m : StoreMachine σ) (protocol : Protocol D F) (text : Fault → String)

/-- `next` once the inner call has ended. -/
def record (result : Except AcpError (Option (RecordedEvent D F))) (s : RecordedRun D F σ) :
    RecordedRun D F σ :=
  match result with
  | .error e =>
      match { s with failed := true }.recording (interrupt m (e.text text)) with
      | (.ok (), s) => s.return_ (.next (.error (.error (.agent e))))
      | (.error f, s) => s.return_ (.next (.error f))
  | .ok none => s.return_ (.next (.ok none))
  | .ok (some event) =>
      match s.recording (observe m protocol event) with
      | (.ok (), s) => s.return_ (.next (.ok (some event)))
      | (.error f, s) => s.fail f (.next (.error f))

/-- The inner call of `next` went on to `inner`: it ended, or it waits. -/
def proceed (s : RecordedRun D F σ) (inner : Turn (SessionUpdate D F) (ToolCallUpdate F)) :
    RecordedRun D F σ :=
  match inner.acp.returned[s.inner.acp.returned.length]? with
  | some result => { s with inner }.record m protocol text result
  | none => { s with inner }

def doCheckpoint (s : RecordedRun D F σ) : RecordedRun D F σ :=
  if s.failed then s.return_ (.checkpoint (.error (.error .closed)))
  else
    match s.recording (checkpoint m) with
    | (.ok (), s) => s.return_ (.checkpoint (.ok ()))
    | (.error f, s) => s.fail f (.checkpoint (.error f))

/-- `respond` up to the call of the inner run; the two panics are that of the index and that of
`unreachable!()`. -/
def doRespond (id : PermissionId) (option : Option String) (s : RecordedRun D F σ) :
    RecordedRun D F σ :=
  if s.failed then s.return_ (.respond (.error (.error .closed)))
  else if (s.inner.acp.route.pending.lookup id).isNone then
    s.return_ (.respond (.error (.error (.agent .invalidPermission))))
  else
    match s.recorder.permissions.lookup id with
    | none => s.return_ (.respond (.error (.error .missingPermission)))
    | some index =>
        match s.recorder.records[index]? with
        | none => s.return_ (.respond (.error .panic))
        | some w =>
            match w.stored.record.payload with
            | .permission _ options =>
                if option.any fun option => !options.any fun offered => offered.id == option then
                  s.return_ (.respond (.error (.error (.agent .invalidPermission))))
                else
                  match s.recording (permissionDispatch m w.stored.record.id option) with
                  | (.ok (), s) => { s with call := .deciding id option }
                  | (.error f, s) => s.return_ (.respond (.error f))
            | _ => s.return_ (.respond (.error .panic))

/-- `respond` from the call of the inner run on. -/
def doDecide (d : Drain) (id : PermissionId) (option : Option String) (sent : Except String Unit)
    (s : RecordedRun D F σ) : RecordedRun D F σ :=
  let (result, route) := s.inner.acp.route.respond d id option sent
  { s with inner := s.inner.onRoute fun _ => route }.return_
    (.respond (result.mapError fun e => .error (.agent e)))

def doCancel (d : Drain) (notified : Except String Unit) (s : RecordedRun D F σ) :
    RecordedRun D F σ :=
  let (result, inner) := s.inner.cancel d notified
  { s with inner }.return_ (.cancel (result.mapError fun e => .error (.agent e)))

/-- The start goes on once the prompt was sent, or was not. -/
def doSent (result : Except String Unit) (s : RecordedRun D F σ) : RecordedRun D F σ :=
  match result with
  | .ok () => s
  | .error e => (s.recording (interrupt m ((AcpError.protocol e).text text))).2

def endedEarly : String := "Recording ended before a complete transcript was saved."

/-- `Drop::drop`, which ignores the results of both calls, and the drop of the inner run. -/
def doDrop (d : Drain) (notified : Except String Unit) (d' : Drain) (notified' : Except String Unit)
    (s : RecordedRun D F σ) : RecordedRun D F σ :=
  let s := if s.recorder.finished then s else
    ({ s with inner := (s.inner.cancel d notified).2 }.recording (interrupt m endedEarly)).2
  { s with inner := s.inner.drop d' notified' }

/-- A call of the consumer, while no other is under way. -/
def whenIdle (s t : RecordedRun D F σ) : Option (RecordedRun D F σ) :=
  match s.call with
  | .idle => if s.inner.acp.phase = .idle then some t else none
  | _ => none

def step : Next (Event D F) (RecordedRun D F σ)
  | s, .connection e =>
      if ofConnection e then (s.inner.step e).map fun inner => { s with inner } else none
  | s, .sent d result => (s.inner.step (.sent d result)).map fun inner =>
      { s with inner }.doSent m text result
  | s, .next d =>
      s.whenIdle (if s.failed then s.return_ (.next (.error (.error .closed)))
        else s.proceed m protocol text (s.inner.next d))
  | s, .receive => (s.inner.step .receive).map (s.proceed m protocol text)
  | s, .receiveClosed d => (s.inner.step (.receiveClosed d)).map (s.proceed m protocol text)
  | s, .abandon => (s.inner.step .abandon).map fun inner => { s with inner }
  | s, .giveUp d notified =>
      match s.call with
      | .failing result => some ({ s with inner := (s.inner.cancel d notified).2 }.return_ result)
      | _ => none
  | s, .checkpoint => s.whenIdle (s.doCheckpoint m)
  | s, .respond id option => s.whenIdle (s.doRespond m id option)
  | s, .decide d sent =>
      match s.call with
      | .deciding id option => some (s.doDecide d id option sent)
      | _ => none
  | s, .cancel d notified => s.whenIdle (s.doCancel d notified)
  | s, .drop d notified d' notified' => s.whenIdle (s.doDrop m d notified d' notified')
  | s, .release d => (s.inner.step (.release d)).map fun inner => { s with inner }

end

end RecordedRun

end Acp

end AgentBridge
