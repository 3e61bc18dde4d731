import AgentBridge.Acp.Dispatch
import AgentBridge.Acp.Structured

/-!
# The runs of a session, started and recorded

A start checks the session, records what it is about to do, and dispatches the prompt.  The run that
it returns borrows the session until it is dropped, and then the next start can be called.
-/

namespace AgentBridge

open Reasoning

namespace Acp

/-! ## What a start records -/

/-- What the start functions record before the prompt is sent. -/
inductive RecordedStart (V : Type) where
  /-- `start_recorded_with_report`. -/
  | plain (restoration : Option JsonValue)
  /-- `start_prepared_context_run`. -/
  | context (receipt : InputReceipt) (restoration : Option JsonValue)
  /-- `start_recorded_child_run`. -/
  | child (relation : ExecutionRelation) (receipt : InputReceipt)
  /-- `start_json_run`, in the mode `ValidateReturnedText`. -/
  | json (contract : JsonContract V) (receipt : Option InputReceipt)

namespace RecordedStart

variable {V : Type}

/-- The checks of a start on the session, before anything is recorded. -/
def check (flags : SessionFlags) (isClosed : Bool) (prompt : String) :
    RecordedStart V → Except AcpError Unit
  | .child _ _ =>
      if !flags.fresh || flags.retired || !flags.quiescent then .error .sessionUnavailable
      else if isClosed then .error .closed
      else if isBlank prompt then .error .emptyPrompt
      else .ok ()
  | _ =>
      if isBlank prompt then .error .emptyPrompt
      else if flags.retired || !flags.quiescent then .error .sessionUnavailable
      else if isClosed then .error .closed
      else .ok ()

/-- The contract of the result, if there is to be one. -/
def contract : RecordedStart V → Option (JsonContract V)
  | .json contract _ => some contract
  | _ => none

end RecordedStart

section

variable {D F σ V α : Type} (m : StoreMachine σ)

def whenSome (value : Option α) (x : α → Recording D σ Unit) : Recording D σ Unit :=
  match value with
  | some a => x a
  | none => pure ()

/-- The records of a start, up to the intent to send `wire`. -/
def prepareRun (input wire : String) : RecordedStart V → Recording D σ Unit
  | .plain report => do
      newRecorder m input
      whenSome report (restoration m)
      executionEvidence m "dispatch_attempted"
  | .context receipt report => do
      newRecorder m input
      prepareInput m receipt
      whenSome report (restoration m)
      inputDispatchAttempted m
      executionEvidence m "dispatch_attempted"
  | .child relation receipt => do
      newRecorder m input
      let _ ← storeCall m (.linkExecution relation)
      prepareInput m receipt
      inputDispatchAttempted m
      executionEvidence m "dispatch_attempted"
  | .json contract receipt => do
      newRecorder m input
      resultEvidence m "result_contract" (contractEvidence contract wire)
      whenSome receipt fun receipt => do
        prepareInput m receipt
        inputDispatchAttempted m
      executionEvidence m "dispatch_attempted"

end

/-! ## The session -/

/-- A run as its start returned it: the agent's own, or a recorded one. -/
inductive Borrower (D F σ V : Type) where
  | bare (turn : Turn (SessionUpdate D F) (ToolCallUpdate F))
  | hosted (run : HostedRun D F σ V)

/-- `start_run`, or a start that records, with the text that is sent. -/
inductive StartKind (V : Type) where
  | bare
  | recorded (start : RecordedStart V) (prompt : String) (actors : RecordActors)

/-- The arguments of a start, with what it finds. -/
structure StartCall (V : Type) where
  kind : StartKind V
  /-- The text that goes to the agent. -/
  wire : String
  /-- The rest of `run_spec`, and the configuration that it reads. -/
  spec : RunSpec
  config : Except AcpError RunConfiguration
  /-- How the reads and checks end that are not of the session: before it is looked at, after that,
  and once the configuration is read. -/
  before : Except RecordingError Unit
  context : Except RecordingError Unit
  prepared : Except RecordingError Unit
  /-- The configuration that is reported when the prompt is dispatched. -/
  reported : Except AcpError RunConfiguration

structure HostedSession (D F σ V : Type) where
  flags : SessionFlags
  closed : Bool
  store : σ
  current : Option (Borrower D F σ V)
  /-- The runs that were dropped, or never began. -/
  past : List (Borrower D F σ V)

namespace Borrower

variable {D F σ V : Type}

def turn : Borrower D F σ V → Turn (SessionUpdate D F) (ToolCallUpdate F)
  | .bare turn => turn
  | .hosted run => run.turn

/-- The store that the run left. -/
def storeAfter (store : σ) : Borrower D F σ V → σ
  | .bare _ => store
  | .hosted run => run.recorded.store

def setStore (store : σ) : Borrower D F σ V → Borrower D F σ V
  | .bare turn => .bare turn
  | .hosted run => .hosted (run.setStore store)

end Borrower

namespace HostedSession

variable {D F σ V : Type}

/-- A session that was opened, or resumed. -/
def new (fresh : Bool) (store : σ) : HostedSession D F σ V :=
  ⟨⟨false, true, fresh⟩, false, store, none, []⟩

/-- `dispatch_blocks`, on the flags of the session; its earlier runs do not matter to it. -/
def dispatch (x : Dispatch) (flags : SessionFlags) : Except AcpError SessionFlags :=
  let session : NativeSession Unit Unit := ⟨"", flags, [], true⟩
  match session.dispatchBlocks x with
  | (.ok (), session) => .ok session.flags
  | (.error e, _) => .error e

variable (m : StoreMachine σ) (text : Fault → String)

def startBare (spec : RunSpec) (x : StartCall V) (s : HostedSession D F σ V) :
    Except RecordingFault Unit × HostedSession D F σ V :=
  match dispatch ⟨spec, x.wire, s.closed, x.reported⟩ s.flags with
  | .error e => (.error (.error (.agent e)), s)
  | .ok flags => (.ok (), { s with
      flags, current := some (.bare (.dispatched s.closed spec x.wire)) })

def startRecorded (start : RecordedStart V) (prompt : String) (actors : RecordActors)
    (spec : RunSpec) (x : StartCall V) (s : HostedSession D F σ V) :
    Except RecordingFault Unit × HostedSession D F σ V :=
  match (prepareRun (D := D) m prompt x.wire start).exec (Recorder.start spec actors, s.store) with
  | (.error f, _, store) => (.error f, { s with store })
  | (.ok (), recorder, store) =>
      match dispatch ⟨spec, x.wire, s.closed, x.reported⟩ s.flags with
      | .error e =>
          match (interrupt m (e.text text)).exec (recorder, store) with
          | (.ok (), _, store) => (.error (.error (.agent e)), { s with store })
          | (.error f, _, store) => (.error f, { s with store })
      | .ok flags => (.ok (), { s with
          flags
          current := some (.hosted
            (.dispatched start.contract s.closed x.wire recorder store)) })

/-- The checks before a start records anything, with the specification of the run. -/
def checked (x : StartCall V) (s : HostedSession D F σ V) : Except RecordingError RunSpec := do
  match x.kind with
  | .bare => pure ()
  | .recorded start prompt _ =>
      x.before
      (start.check s.flags s.closed prompt).mapError .agent
      x.context
  let config ← x.config.mapError .agent
  match x.kind with
  | .bare => pure ()
  | .recorded _ _ _ => x.prepared
  return { x.spec with config }

/-- A start, while no run borrows the session. -/
def start (x : StartCall V) (s : HostedSession D F σ V) :
    Except RecordingFault Unit × HostedSession D F σ V :=
  match s.checked x with
  | .error e => (.error (.error e), s)
  | .ok spec =>
      match x.kind with
      | .bare => s.startBare spec x
      | .recorded start prompt actors => s.startRecorded m text start prompt actors spec x

inductive Event (D F σ V : Type) where
  | start (x : StartCall V)
  /-- The task of the connection is gone, and no run is there. -/
  | close
  /-- Other users of the store. -/
  | others (store : σ)
  | bare (e : Turn.Event (SessionUpdate D F) (ToolCallUpdate F))
  | hosted (e : RecordedRun.Event D F)

/-- The session after an event of the run that borrows it. -/
def lend (run : Borrower D F σ V) (s : HostedSession D F σ V) : HostedSession D F σ V :=
  let s := { s with
    flags := run.turn.session
    closed := run.turn.closed
    store := run.storeAfter s.store }
  if run.turn.acp.Over then { s with current := none, past := s.past ++ [run] }
  else { s with current := some run }

variable (protocol : Protocol D F) (library : ResultLibrary V)

def step : Next (Event D F σ V) (HostedSession D F σ V)
  | s, .start x => if s.current.isNone then some (s.start m text x).2 else none
  | s, .close => if s.current.isNone then some { s with closed := true } else none
  | s, .others store => some { s with store, current := s.current.map (·.setStore store) }
  | s, .bare e =>
      match s.current with
      | some (.bare turn) => (turn.step e).map fun turn => s.lend (.bare turn)
      | _ => none
  | s, .hosted e =>
      match s.current with
      | some (.hosted run) => (run.step m protocol text library e).map fun run =>
          s.lend (.hosted run)
      | _ => none

end HostedSession

end Acp

end AgentBridge
