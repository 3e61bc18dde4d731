import AgentBridge.Host.FailStop
import AgentBridge.Host.Value

/-!
# Tool invocations of the host

A provider invokes a tool of the application through the binding of its session.  The call is
admitted, recorded, sent to the application, and answered once its outcome is recorded; a session
begins and ends the activity that calls are admitted under.

A step is one access of a call, of a session or of the application to what they share.  The storage
threads of `Host.Storage` move in between, and a call waits for its own storage calls.
-/

namespace AgentBridge

open Reasoning

namespace Host

namespace Tools

variable {ν : Type}

/-! ## Data -/

inductive ReceiptState where
  | dispatchAttempted
  | returned
  | unknown
deriving DecidableEq

/-- The receipt that a call inserts into the store of its binding. -/
structure Receipt (ν : Type) where
  call : Nat
  state : ReceiptState
  fields : JsonTree ν

/-- What `invoke` answers to the provider. -/
inductive ToolResult (ν : Type) where
  | value (value : JsonTree ν)
  /-- The application's own error. -/
  | failed (message : String)
  | invalidArguments
  | notGranted
  | cancelled
  | handler (message : String)
  /-- `tool evidence unavailable`. -/
  | unrecorded (error : StoreError)
  /-- The future was dropped: nobody is there to take an answer. -/
  | abandoned

/-- The receiver of a `oneshot`. -/
inductive Slot (ν : Type) where
  | closed
  | opened
  | sent (outcome : JsonTree ν)

/-- Where `Binding::begin`, `end` and `drop` stand, called by the one session worker. -/
inductive Owner where
  | idle
  /-- In `end`, with the lock on `activity`: the token taken is not yet cancelled. -/
  | ending (token : Nat) (next : Owner)
  /-- `begin` reads `retired` next. -/
  | checking
  | setting
  | closing
  | deregistering
  | gone

/-- Who holds the lock on `activity`. -/
inductive Lock where
  | free
  | session
  | call (k : Nat)
deriving DecidableEq

structure Bound where
  id : String
  session : String
  slot : String
  worker : Nat
  activity : Option Nat
  lock : Lock
  /-- The calls that own a permit of `capacity`, of four. -/
  capacity : List Nat
  retired : Bool
  lifetimeEnded : Bool
  owner : Owner
  /-- What the calls of `begin` returned so far. -/
  begun : List Bool

structure Pending where
  call : Nat
  binding : String
  session : String
  slot : String

/-- Where `invoke` stands, and from `closing` on the drop of its `CallGuard`. -/
inductive Phase (ν : Type) where
  | idle
  | called
  | found
  /-- With the lock on `activity`. -/
  | admitting
  | checked
  | reserved
  | admitted
  | dispatching (receipt : Nat)
  | dispatched
  | prepared
  | registered
  | waiting
  | received (outcome : JsonTree ν)
  | recording (outcome : JsonTree ν) (receipt : Nat)
  | settled (outcome : JsonTree ν)
  /-- The guard is dropped: the call is no longer pending after the next step. -/
  | closing (result : ToolResult ν)
  | unsettled (result : ToolResult ν)
  /-- The binding is retired, the activity of the call is not yet cancelled. -/
  | retired (result : ToolResult ν)
  | retiring (result : ToolResult ν)
  | ended (result : ToolResult ν)
  | reporting (result : ToolResult ν)
  | confirming (receipt : Nat) (result : ToolResult ν)
  /-- The guard is gone, the permits are not. -/
  | releasing (result : ToolResult ν)
  | released (result : ToolResult ν)
  | returned (result : ToolResult ν)

structure Invocation (ν : Type) where
  phase : Phase ν
  id : String
  session : String
  slot : String
  input : JsonTree ν
  binding : Nat
  activity : Nat
  cancelled : Bool
  response : Slot ν
  /-- `settled` of the `CallGuard`, once there is one. -/
  guard : Option Bool

/-- What `output.emit` has sent of a call. -/
inductive Emitted where
  | toolCall (call : Nat)
  | toolCancel (call : Nat)
deriving DecidableEq

structure Hub (ν : Type) where
  storage : Storage.System Unit
  /-- What the storage calls of the hub insert. -/
  receipts : Nat → Option (Receipt ν)
  bindings : Nat → Option Bound
  /-- `used_scopes`. -/
  scopes : List (String × String)
  /-- `broker.bindings`, by session and slot. -/
  table : String × String → Option Nat
  pending : String → Option Pending
  /-- The calls that own a permit of the broker, of sixteen. -/
  capacity : List Nat
  /-- The tokens made so far, and those cancelled. -/
  tokens : Nat
  cancelled : Nat → Bool
  stopped : Bool
  calls : Nat → Invocation ν
  /-- The invocation identities used so far. -/
  used : List String
  emitted : List Emitted
  /-- The replies answered with success, in order. -/
  accepted : List (Nat × JsonTree ν)

inductive Event (ν : Type) where
  /-- A step of the storage threads and callers, those of the hub included. -/
  | storage (e : Storage.Event Unit)
  | bind (b worker : Nat) (id session slot : String)
  | begin (b : Nat)
  | finish (b : Nat)
  | drop (b : Nat)
  /-- The next access of a session worker in `begin`, `end` or `drop`. -/
  | session (b : Nat)
  | stop
  | invoke (k : Nat) (id session slot : String) (input : JsonTree ν)
  | cancel (k : Nat)
  /-- The next access of a call; a storage call that it makes is named by `storageCall`. -/
  | advance (k storageCall : Nat)
  | timesOut (k : Nat)
  | abandon (k : Nat)
  | reply (params : JsonTree ν)

def globalLimit : Nat := 16

def localLimit : Nat := 4

/-- A host keeps this many used scopes. -/
def scopeLimit : Nat := 128

namespace Hub

def setCall (h : Hub ν) (k : Nat) (call : Invocation ν) : Hub ν :=
  { h with calls := Function.update h.calls k call }

def setPhase (h : Hub ν) (k : Nat) (phase : Phase ν) : Hub ν :=
  h.setCall k { h.calls k with phase }

def setBinding (h : Hub ν) (b : Nat) (bound : Bound) : Hub ν :=
  { h with bindings := Function.update h.bindings b (some bound) }

def cancelToken (h : Hub ν) (token : Nat) : Hub ν :=
  { h with cancelled := Function.update h.cancelled token true }

def emit (h : Hub ν) (event : Emitted) : Hub ν := { h with emitted := h.emitted ++ [event] }

def addPending (h : Hub ν) (id : String) (entry : Pending) : Hub ν :=
  { h with pending := Function.update h.pending id (some entry) }

def removePending (h : Hub ν) (id : String) : Hub ν :=
  { h with pending := Function.update h.pending id none }

/-- `store.insert` of a receipt: the storage call is made. -/
def insertReceipt (h : Hub ν) (worker storageCall : Nat) (receipt : Receipt ν) : Option (Hub ν) :=
  match h.receipts storageCall with
  | some _ => none
  | none => do
      let storage ← Storage.next h.storage (.call storageCall worker)
      some { h with
        storage
        receipts := Function.update h.receipts storageCall (some receipt) }

/-- What the insert returned. -/
def inserted (h : Hub ν) (storageCall : Nat) : Option (Except StoreError Unit) :=
  match (h.storage.calls storageCall).phase with
  | .returned outcome => some outcome.result
  | _ => none

/-- One of the signals that end the wait for the application. -/
def isCancelled (h : Hub ν) (call : Invocation ν) (bound : Bound) : Bool :=
  h.stopped || bound.lifetimeEnded || h.cancelled call.activity || call.cancelled

end Hub

/-! ## The application -/

/-- The checks of `reply` on the outcome. -/
def validOutcome (numbers : Numbers ν) (result : JsonTree ν) : Bool :=
  decide (textLength numbers result ≤ crossingLimit) && validJson numbers result 0 &&
    match (result.index "kind").asStr with
    | some "success" => (result.get "value").isSome
    | some "error" => (result.index "message").asStr.isSome
    | _ => false

/-- `Hub::reply`. -/
def reply (numbers : Numbers ν) (h : Hub ν) (params : JsonTree ν) : Except String Unit × Hub ν :=
  match stringParam params "call_id" with
  | .error e => (.error e, h)
  | .ok call =>
  match h.pending call with
  | none => (.error "tool call is not pending", h)
  | some entry =>
      if (params.index "binding_id").asStr ≠ some entry.binding ∨
          (params.index "session_id").asStr ≠ some entry.session ∨
          (params.index "slot_id").asStr ≠ some entry.slot then
        (.error "tool result belongs to another binding or scope", h)
      else
        let result := params.index "outcome"
        if validOutcome numbers result = false then (.error "invalid tool result", h)
        else
          let h := h.removePending call
          let invocation := h.calls entry.call
          match invocation.response with
          | .opened => (.ok (), { h.setCall entry.call { invocation with response := .sent result } with
              accepted := h.accepted ++ [(entry.call, result)] })
          | _ => (.error "tool call already ended", h)

/-! ## The session -/

/-- `end`, when the lock is free, on the way to `next`. -/
def endActivity (h : Hub ν) (b : Nat) (bound : Bound) (next : Owner) : Option (Hub ν) :=
  match bound.lock with
  | .free =>
      match bound.activity with
      | none => some (h.setBinding b { bound with owner := next })
      | some token =>
          some (h.setBinding b { bound with
            activity := none
            lock := .session
            retired := bound.retired || !bound.capacity.isEmpty
            owner := .ending token next })
  | _ => none

/-- The next access of the session worker. -/
def sessionStep (h : Hub ν) (b : Nat) (bound : Bound) : Option (Hub ν) :=
  match bound.owner with
  | .ending token next =>
      some ((h.cancelToken token).setBinding b { bound with lock := .free, owner := next })
  | .checking =>
      if bound.retired then
        some (h.setBinding b { bound with owner := .idle, begun := bound.begun ++ [false] })
      else some (h.setBinding b { bound with owner := .setting })
  | .setting =>
      match bound.lock with
      | .free => some ({ h with tokens := h.tokens + 1 }.setBinding b { bound with
          activity := some h.tokens
          owner := .idle
          begun := bound.begun ++ [true] })
      | _ => none
  | .closing => some (h.setBinding b { bound with lifetimeEnded := true, owner := .deregistering })
  | .deregistering =>
      some ({ h with table := Function.update h.table (bound.session, bound.slot) none }.setBinding b
        { bound with owner := .gone })
  | _ => none

/-! ## The call -/

/-- The answer to the provider of a recorded outcome. -/
def answer (outcome : JsonTree ν) : ToolResult ν :=
  if (outcome.index "kind").asStr = some "success" then .value (outcome.index "value")
  else .failed (((outcome.index "message").asStr).getD "")

/-- The steps of `invoke` under the lock on `activity`. -/
def admitCall (h : Hub ν) (k : Nat) (call : Invocation ν) (bound : Bound) : Option (Hub ν) :=
  let b := call.binding
  match call.phase with
  | .found =>
      match bound.lock with
      | .free =>
          match bound.activity with
          | none => some (h.setPhase k (.returned .notGranted))
          | some activity =>
              some ((h.setBinding b { bound with lock := .call k }).setCall k
                { call with phase := .admitting, activity })
      | _ => none
  | .admitting =>
      if h.cancelled call.activity || bound.retired then
        some ((h.setBinding b { bound with lock := .free }).setPhase k (.returned .notGranted))
      else some (h.setPhase k .checked)
  | .checked =>
      if h.capacity.length < globalLimit then
        some ({ h with capacity := k :: h.capacity }.setPhase k .reserved)
      else
        some ((h.setBinding b { bound with lock := .free }).setPhase k
          (.returned (.handler "tool call capacity reached")))
  | .reserved =>
      if bound.capacity.length < localLimit then
        some ((h.setBinding b { bound with capacity := k :: bound.capacity, lock := .free }).setCall k
          { call with phase := .admitted, guard := some false })
      else
        some (({ h with capacity := h.capacity.erase k }.setBinding b
          { bound with lock := .free }).setPhase k
            (.returned (.handler "binding call capacity reached")))
  | _ => none

/-- The steps of an admitted call, up to the drop of its guard. -/
def serve (h : Hub ν) (k storageCall : Nat) (call : Invocation ν) (bound : Bound) :
    Option (Hub ν) :=
  match call.phase with
  | .admitted => do
      let h ← h.insertReceipt bound.worker storageCall
        ⟨k, .dispatchAttempted, .obj [("input", call.input)]⟩
      some (h.setPhase k (.dispatching storageCall))
  | .dispatching receipt =>
      match h.inserted receipt with
      | none => none
      | some (.error e) => some (h.setPhase k (.closing (.unrecorded e)))
      | some (.ok ()) => some (h.setPhase k .dispatched)
  | .dispatched =>
      if h.isCancelled call bound then some (h.setPhase k (.closing .cancelled))
      else some (h.setPhase k .prepared)
  | .prepared =>
      some ((h.addPending call.id ⟨k, bound.id, bound.session, bound.slot⟩).setCall k
        { call with phase := .registered, response := .opened })
  | .registered => some ((h.emit (.toolCall k)).setPhase k .waiting)
  | .waiting =>
      -- the signals come first, then the application
      if h.isCancelled call bound then
        some (h.setCall k { call with phase := .closing .cancelled, response := .closed })
      else
        match call.response with
        | .sent outcome =>
            some (h.setCall k { call with phase := .received outcome, response := .closed })
        | _ => none
  | .received outcome => do
      let h ← h.insertReceipt bound.worker storageCall
        ⟨k, .returned, .obj [("outcome", outcome)]⟩
      some (h.setPhase k (.recording outcome storageCall))
  | .recording outcome receipt =>
      match h.inserted receipt with
      | none => none
      | some (.error e) => some (h.setPhase k (.closing (.unrecorded e)))
      | some (.ok ()) =>
          some (h.setCall k { call with phase := .settled outcome, guard := some true })
  | .settled outcome => some (h.setPhase k (.closing (answer outcome)))
  | _ => none

/-- The drop of a `CallGuard`, and of the permits after it. -/
def close (h : Hub ν) (k storageCall : Nat) (call : Invocation ν) (bound : Bound) :
    Option (Hub ν) :=
  let b := call.binding
  match call.phase with
  | .closing result =>
      let h := h.removePending call.id
      if call.guard = some true then some (h.setPhase k (.releasing result))
      else some (h.setPhase k (.unsettled result))
  | .unsettled result =>
      some ((h.setBinding b { bound with retired := true }).setPhase k (.retired result))
  | .retired result => some ((h.cancelToken call.activity).setPhase k (.retiring result))
  | .retiring result =>
      match bound.lock with
      | .free =>
          match bound.activity with
          | none => some (h.setPhase k (.ended result))
          | some current =>
              some (((h.setBinding b { bound with activity := none }).cancelToken current).setPhase k
                (.ended result))
      | _ => none
  | .ended result => some ((h.emit (.toolCancel k)).setPhase k (.reporting result))
  | .reporting result => do
      let h ← h.insertReceipt bound.worker storageCall ⟨k, .unknown, .obj [("reason",
        .str "invocation ended without an acknowledged, recorded result")]⟩
      some (h.setPhase k (.confirming storageCall result))
  | .confirming receipt result =>
      match h.inserted receipt with
      | none => none
      | some _ => some (h.setPhase k (.releasing result))
  | .releasing result =>
      some ((h.setBinding b { bound with capacity := bound.capacity.erase k }).setPhase k
        (.released result))
  | .released result =>
      some ({ h with capacity := h.capacity.erase k }.setPhase k (.returned result))
  | _ => none

/-- Where the steps of `admitCall`, `serve` and `close` stand. -/
inductive Stage where
  | outside
  | admission
  | service
  | closure
deriving DecidableEq

def Phase.stage : Phase ν → Stage
  | .idle => .outside
  | .called => .outside
  | .found => .admission
  | .admitting => .admission
  | .checked => .admission
  | .reserved => .admission
  | .admitted => .service
  | .dispatching _ => .service
  | .dispatched => .service
  | .prepared => .service
  | .registered => .service
  | .waiting => .service
  | .received _ => .service
  | .recording _ _ => .service
  | .settled _ => .service
  | .closing _ => .closure
  | .unsettled _ => .closure
  | .retired _ => .closure
  | .retiring _ => .closure
  | .ended _ => .closure
  | .reporting _ => .closure
  | .confirming _ _ => .closure
  | .releasing _ => .closure
  | .released _ => .closure
  | .returned _ => .outside

/-- The first steps of `invoke`: its input, and the binding of its scope. -/
def lookup (numbers : Numbers ν) (h : Hub ν) (k : Nat) (call : Invocation ν) : Option (Hub ν) :=
  match call.phase with
  | .called =>
      if textLength numbers call.input > crossingLimit ∨ validJson numbers call.input 0 = false then
        some (h.setPhase k (.returned .invalidArguments))
      else
        match h.table (call.session, call.slot) with
        | none => some (h.setPhase k (.returned .notGranted))
        | some b => some (h.setCall k { call with phase := .found, binding := b })
  | _ => none

/-- The next access of a call. -/
def advance (numbers : Numbers ν) (h : Hub ν) (k storageCall : Nat) : Option (Hub ν) :=
  let call := h.calls k
  match call.phase.stage with
  | .outside => lookup numbers h k call
  | .admission => do
      let bound ← h.bindings call.binding
      admitCall h k call bound
  | .service => do
      let bound ← h.bindings call.binding
      serve h k storageCall call bound
  | .closure => do
      let bound ← h.bindings call.binding
      close h k storageCall call bound

def Bound.new (worker : Nat) (id session slot : String) : Bound where
  id
  session
  slot
  worker
  activity := none
  lock := .free
  capacity := []
  retired := false
  lifetimeEnded := false
  owner := .idle
  begun := []

def next (numbers : Numbers ν) (h : Hub ν) : Event ν → Option (Hub ν)
  | .storage e => do
      let storage ← Storage.next h.storage e
      some { h with storage }
  | .bind b worker id session slot =>
      match h.bindings b with
      | none =>
          if scopeLimit ≤ h.scopes.length ∨ (session, slot) ∈ h.scopes then none
          else some ({ h with
            scopes := (session, slot) :: h.scopes
            table := Function.update h.table (session, slot) (some b) }.setBinding b
              (Bound.new worker id session slot))
      | some _ => none
  | .begin b => do
      let bound ← h.bindings b
      match bound.owner with
      | .idle => endActivity h b bound .checking
      | _ => none
  | .finish b => do
      let bound ← h.bindings b
      match bound.owner with
      | .idle => endActivity h b bound .idle
      | _ => none
  | .drop b => do
      let bound ← h.bindings b
      match bound.owner with
      | .idle => endActivity h b bound .closing
      | _ => none
  | .session b => do
      let bound ← h.bindings b
      sessionStep h b bound
  | .stop => some { h with stopped := true }
  | .invoke k id session slot input =>
      match (h.calls k).phase with
      | .idle =>
          if id ∈ h.used then none
          else some ({ h with used := id :: h.used }.setCall k
            { phase := .called, id, session, slot, input
              binding := 0, activity := 0, cancelled := false, response := .closed, guard := none })
      | _ => none
  | .cancel k => some (h.setCall k { h.calls k with cancelled := true })
  | .advance k storageCall => advance numbers h k storageCall
  | .timesOut k => do
      let call := h.calls k
      let bound ← h.bindings call.binding
      match call.phase, call.response with
      | .waiting, .opened =>
          if h.isCancelled call bound then none
          else some (h.setCall k { call with
            phase := .closing (.handler "application tool timed out; outcome unknown")
            response := .closed })
      | _, _ => none
  | .abandon k =>
      match (h.calls k).phase with
      | .waiting => some (h.setCall k { h.calls k with
          phase := .closing .abandoned, response := .closed })
      | _ => none
  | .reply params => some (reply numbers h params).2

/-- A hub over a budget, before any session. -/
def Hub.start (limit : Nat) : Hub ν where
  storage := .start limit
  receipts := fun _ => none
  bindings := fun _ => none
  scopes := []
  table := fun _ => none
  pending := fun _ => none
  capacity := []
  tokens := 0
  cancelled := fun _ => false
  stopped := false
  calls := fun _ => ⟨.idle, "", "", "", .null, 0, 0, false, .closed, none⟩
  used := []
  emitted := []
  accepted := []

end Tools

end Host

end AgentBridge
