import AgentBridge.Model

/-! # The lifecycle of one run -/

namespace AgentBridge

inductive RunStatus where
  | queued
  /-- Dispatch has begun, but execution has not yet been acknowledged. -/
  | starting
  | running
  | cancelling
  | completed
  | failed
  | cancelled
  /-- Execution may still be happening; the connection no longer establishes its outcome. -/
  | unknown
deriving DecidableEq

inductive RunEvent where
  /-- Must be recorded before sending work to a provider. -/
  | dispatchStarted
  | started
  | cancellationRequested
  | completed
  | failed
  | cancellationConfirmed
  | connectionLost
  /-- Provider evidence establishes that the previously unknown run is still active. -/
  | recoveredRunning
deriving DecidableEq

structure InvalidTransition where
  status : RunStatus
  event : RunEvent
deriving DecidableEq

structure Run where
  spec : RunSpec
  status : RunStatus
  cancellationRequested : Bool

namespace Run

def new (spec : RunSpec) : Run := ⟨spec, .queued, false⟩

/-- The `match` of `apply`. -/
def next (run : Run) : RunEvent → Option RunStatus
  | .dispatchStarted => if run.status = .queued then some .starting else none
  | .started =>
      match run.status with
      | .starting => some .running
      -- A late start acknowledgement must not erase cancellation intent.
      | .cancelling => some .cancelling
      | _ => none
  | .cancellationRequested =>
      match run.status with
      | .queued => some .cancelled
      | .starting | .running | .cancelling => some .cancelling
      | .unknown => some .unknown
      | _ => none
  | .failed =>
      match run.status with
      | .queued | .starting | .running | .cancelling | .unknown => some .failed
      | _ => none
  | .completed =>
      match run.status with
      | .starting | .running | .cancelling | .unknown => some .completed
      | _ => none
  | .cancellationConfirmed =>
      match run.status with
      | .starting | .running | .cancelling | .unknown => some .cancelled
      | _ => none
  | .connectionLost =>
      match run.status with
      | .starting | .running | .cancelling => some .unknown
      | _ => none
  | .recoveredRunning =>
      match run.status with
      | .unknown => if run.cancellationRequested then some .cancelling else some .running
      | _ => none

/-- Apply one lifecycle fact. Rejected events leave the run unchanged. -/
def apply (event : RunEvent) (run : Run) : Except InvalidTransition Run :=
  match run.next event with
  | none => .error ⟨run.status, event⟩
  | some status => .ok { run with
      cancellationRequested := run.cancellationRequested || event == .cancellationRequested
      status }

/-- Work is under way: a dispatch began, and nothing ended it yet. -/
def Active (run : Run) : Prop :=
  run.status = .starting ∨ run.status = .running ∨ run.status = .cancelling

/-- No more than this is known of the execution until somebody reconciles it. -/
def Ended (run : Run) : Prop :=
  run.status = .completed ∨ run.status = .failed ∨ run.status = .cancelled ∨ run.status = .unknown

/-- The cancellation flag and the status agree while work is under way. -/
structure Lively (run : Run) : Prop where
  active : run.Active
  cancelling : run.status = .cancelling ↔ run.cancellationRequested = true

variable {run : Run}

theorem Active.not_ended (h : run.Active) : ¬ run.Ended := by
  rcases h with h | h | h <;> simp [Ended, h]

theorem apply_dispatchStarted (spec : RunSpec) :
    (new spec).apply .dispatchStarted = .ok ⟨spec, .starting, false⟩ := rfl

theorem apply_started (h : run.status = .starting) :
    run.apply .started = .ok { run with status := .running } := by
  simp [apply, next, h]

theorem apply_cancellationRequested (h : run.Active) :
    run.apply .cancellationRequested =
      .ok { run with status := .cancelling, cancellationRequested := true } := by
  rcases h with h | h | h <;> simp [apply, next, h]

theorem apply_failed (h : run.Active) : run.apply .failed = .ok { run with status := .failed } := by
  rcases h with h | h | h <;> simp [apply, next, h]

theorem apply_completed (h : run.Active) :
    run.apply .completed = .ok { run with status := .completed } := by
  rcases h with h | h | h <;> simp [apply, next, h]

theorem apply_cancellationConfirmed (h : run.Active) :
    run.apply .cancellationConfirmed = .ok { run with status := .cancelled } := by
  rcases h with h | h | h <;> simp [apply, next, h]

theorem apply_connectionLost (h : run.Active) :
    run.apply .connectionLost = .ok { run with status := .unknown } := by
  rcases h with h | h | h <;> simp [apply, next, h]

end Run

end AgentBridge
