import AgentBridge.Acp.Configuration
import AgentBridge.Acp.Dispatch

/-!
# The configuration that a run is attributed to

The state that a session keeps of the configuration of its agent.  It is moved by `set_option`, by
the reply to it, which may come after the caller gave up, by the reports of the agent, and it is read
when a run is prepared and once more when it is dispatched.  What happens under the lock of the state
is one event; a call holds the session exclusively.
-/

namespace AgentBridge

open Reasoning

namespace Acp

variable {U T : Type}

structure SessionConfiguration where
  options : Option (List ConfigOption)
  values : RunConfiguration
  pending : Bool
  uncertain : Bool
deriving DecidableEq

structure ConfigurationState where
  options : Option (List ConfigOption)
  requested : ConfigValues
  pending : Bool
  uncertain : Bool

namespace ConfigurationState

def new : Option (List SessionConfigOption) → Except AcpError ConfigurationState
  | none => .ok ⟨none, .empty, false, false⟩
  | some options => do
      let options ← normalize options
      .ok ⟨some options, .empty, false, false⟩

def observe (options : List SessionConfigOption) (state : ConfigurationState) :
    ConfigurationState :=
  match normalize options with
  | .ok options => { state with options := some options, uncertain := false }
  | .error _ => { state with uncertain := true }

def snapshot (state : ConfigurationState) : SessionConfiguration where
  options := state.options
  values := {
    requested := state.requested
    confirmed := if state.pending || state.uncertain then none
      else state.options.map currentValues }
  pending := state.pending
  uncertain := state.uncertain

def forRun (state : ConfigurationState) : Except AcpError RunConfiguration :=
  if state.pending || state.uncertain then .error .configurationUncertain
  else .ok ⟨state.requested, state.options.map currentValues⟩

/-- The `match` on the current value of an option and the one it is set to. -/
def isValid (option : ConfigOption) (value : ConfigValue) : Bool :=
  match option.current, value with
  | .boolean _, .boolean _ => true
  | .select _, .select value => option.choices.any fun o => o.value == value
  | _, _ => false

/-- What `set_option` checks under the lock before it sets `pending`. -/
def begin (id : String) (value : ConfigValue) (state : ConfigurationState) :
    Except AcpError ConfigurationState :=
  if state.pending then .error .configurationUncertain
  else
    match state.options with
    | none => .error .configurationUnsupported
    | some catalog =>
        match catalog.find? fun o => o.id == id with
        | none => .error .unknownConfigurationOption
        | some option =>
            if !isValid option value then .error .invalidConfigurationValue
            else .ok { state with pending := true }

/-- The callback of the request, with the result for the caller. -/
def replied (id : String) (value : ConfigValue)
    (result : Except String (List SessionConfigOption)) (state : ConfigurationState) :
    Except AcpError SessionConfiguration × ConfigurationState :=
  let state := { state with pending := false, uncertain := true }
  match result with
  | .error message => (.error (.protocol message), state)
  | .ok catalog =>
      match normalize catalog with
      | .error e => (.error e, state)
      | .ok options =>
          let accepted := options.any fun o => o.id == id && o.current == value
          let state := { state with options := some options, uncertain := false }
          if !accepted then (.error .configurationRejected, state)
          else
            let state := { state with requested := state.requested.insert id value }
            (.ok state.snapshot, state)

end ConfigurationState

/-! ## The session -/

/-- A request that was sent and whose callback is still to run. -/
structure SetRequest where
  id : String
  value : ConfigValue

/-- The exclusive call that is under way. -/
inductive SessionCall where
  | idle
  /-- `set_option` waits; its request has answered the channel or not yet. -/
  | setting (answer : Option (Except AcpError SessionConfiguration))
  /-- A run is registered with this specification and not yet dispatched. -/
  | starting (spec : RunSpec)

/-- What a report or a reply of the agent came to: its options, or an error. -/
abbrev Report := Except AcpError (List ConfigOption)

structure ConfiguredSession (U T : Type) where
  state : ConfigurationState
  native : NativeSession U T
  call : SessionCall
  outstanding : List SetRequest
  /-- The specifications that runs were registered with. -/
  registered : List RunSpec
  /-- The catalogs and replies that were processed, the last one last. -/
  reports : List Report
  /-- What the calls of `set_option` returned. -/
  returned : List (Except AcpError SessionConfiguration)

namespace ConfiguredSession

/-- The session of a setup response that offers these options. -/
def start (native : String) (fresh : Bool) (options : Option (List SessionConfigOption)) :
    Except AcpError (ConfiguredSession U T) := do
  let state ← ConfigurationState.new options
  .ok {
    state
    native := .new native fresh
    call := .idle
    outstanding := []
    registered := []
    reports := (options.map normalize).toList
    returned := [] }

inductive Event (U T : Type) where
  /-- `set_option` up to its await; `sent` is the result of sending the request. -/
  | setOption (id : String) (value : ConfigValue) (isClosed : Bool) (sent : Except String Unit)
  | reply (n : Nat) (result : Except String (List SessionConfigOption))
  /-- The callback of a request is dropped. -/
  | lost (n : Nat)
  /-- The caller takes the answer of its request. -/
  | received
  | timedOut
  /-- The channel of the caller is closed. -/
  | disconnected
  /-- The future of `set_option` is dropped. -/
  | abandon
  | observe (options : List SessionConfigOption)
  /-- `run_spec`, and the registration of its result with this context. -/
  | prepare (id : RunId) (sessionId : SessionId) (slotId : SlotId) (context : ContextManifest)
      (continuation : Option ContinuationId)
  /-- The registration failed, or what stands between it and the dispatch. -/
  | refuse
  | dispatch (text : String) (isClosed : Bool)
  | turn (closed : Bool) (run : Nat) (e : Turn.Event U T)

def return_ (result : Except AcpError SessionConfiguration) (s : ConfiguredSession U T) :
    ConfiguredSession U T :=
  { s with call := .idle, returned := s.returned ++ [result] }

def setOption (id : String) (value : ConfigValue) (isClosed : Bool) (sent : Except String Unit)
    (s : ConfiguredSession U T) : ConfiguredSession U T :=
  if s.native.flags.retired || !s.native.flags.quiescent then
    s.return_ (.error .sessionUnavailable)
  else if isClosed then s.return_ (.error .closed)
  else
    match s.state.begin id value with
    | .error e => s.return_ (.error e)
    | .ok state =>
        match sent with
        | .error message =>
            { s with state := { state with pending := false, uncertain := true } }.return_
              (.error (.protocol message))
        | .ok () =>
            { s with
              state
              call := .setting none
              outstanding := s.outstanding ++ [⟨id, value⟩] }

/-- The callback runs, whether or not its caller still waits. -/
def reply (n : Nat) (request : SetRequest) (result : Except String (List SessionConfigOption))
    (s : ConfiguredSession U T) : ConfiguredSession U T :=
  let (answer, state) := s.state.replied request.id request.value result
  { s with
    state
    outstanding := s.outstanding.eraseIdx n
    reports := s.reports ++ [(result.mapError AcpError.protocol).bind normalize]
    call := match s.call with
      | .setting none => .setting (some answer)
      | call => call }

/-- The caller gives up with this error. -/
def giveUp (error : AcpError) (s : ConfiguredSession U T) : ConfiguredSession U T :=
  { s with state := { s.state with uncertain := true } }.return_ (.error error)

def step : Next (Event U T) (ConfiguredSession U T)
  | s, .setOption id value isClosed sent =>
      match s.call with
      | .idle => if s.native.Free then some (s.setOption id value isClosed sent) else none
      | _ => none
  | s, .reply n result =>
      match s.outstanding[n]? with
      | some request => some (s.reply n request result)
      | none => none
  | s, .lost n =>
      if n < s.outstanding.length then some { s with outstanding := s.outstanding.eraseIdx n }
      else none
  | s, .received =>
      match s.call with
      | .setting (some answer) => some (s.return_ answer)
      | _ => none
  | s, .timedOut =>
      match s.call with
      | .setting _ => some (s.giveUp .requestTimedOut)
      | _ => none
  | s, .disconnected =>
      match s.call with
      | .setting none => some (s.giveUp .closed)
      | _ => none
  | s, .abandon =>
      match s.call with
      | .setting _ => some { s with call := .idle }
      | _ => none
  | s, .observe options => some { s with
      state := s.state.observe options
      reports := s.reports ++ [normalize options] }
  | s, .prepare id sessionId slotId context continuation =>
      match s.call with
      | .idle =>
          if s.native.Free then
            match s.state.forRun with
            | .error _ => some s
            | .ok config =>
                let spec := { id, sessionId, slotId, context, config, continuation }
                some { s with call := .starting spec, registered := s.registered ++ [spec] }
          else none
      | _ => none
  | s, .refuse =>
      match s.call with
      | .starting _ => some { s with call := .idle }
      | _ => none
  | s, .dispatch text isClosed =>
      match s.call with
      | .starting spec => some { s with
          call := .idle
          native := (s.native.dispatchBlocks ⟨spec, text, isClosed, s.state.forRun⟩).2 }
      | _ => none
  | s, .turn closed run e => (s.native.turn closed run e).map fun native => { s with native }

end ConfiguredSession

end Acp

end AgentBridge
