import AgentBridge.Acp.Error
import AgentBridge.Records.Payload

/-!
# The route of one run

Updates, permission requests and the response to the prompt reach a run through its route, which
queues them on a bounded channel for the consumer and holds the permissions that wait for a
decision.  The callbacks of the connection and the calls of the consumer change the route under its
lock, so each of them is one function here.
-/

namespace AgentBridge

namespace Acp

def eventCapacity : Nat := 256

def permissionCapacity : Nat := 32

/-- Permission identity local to one run. -/
structure PermissionId where
  runId : RunId
  sequence : Nat
deriving DecidableEq

inductive StopReason where
  | endTurn
  | maxTokens
  | maxTurnRequests
  | refusal
  | cancelled
  /-- One that a later version of the protocol adds, as its JSON text. -/
  | other (text : String)
deriving DecidableEq

/-- An option as the provider offers it; the kind is the text that it serializes to. -/
structure OfferedOption where
  optionId : String
  name : String
  kind : String
deriving DecidableEq

structure RequestPermissionRequest (T : Type) where
  toolCall : T
  options : List OfferedOption
deriving DecidableEq

inductive AcpEvent (U T : Type) where
  | update (update : U)
  | permission (id : PermissionId) (request : RequestPermissionRequest T)
  /-- A local decision was submitted.  Queued does not mean provider-acknowledged. -/
  | permissionResolved (id : PermissionId) (outcome : PermissionOutcome)
      (delivery : DecisionDelivery)
  | finished (reason : StopReason)
deriving DecidableEq

inductive Delivery (U T : Type) where
  | event (event : AcpEvent U T)
  | finished (result : Except String StopReason)
deriving DecidableEq

/-- The responder is the number of the request among those that came for the route. -/
structure PendingPermission where
  options : List String
  responder : Nat
deriving DecidableEq

structure Route (U T : Type) where
  runId : RunId
  pending : List (PermissionId × PendingPermission)
  nextPermission : Nat
  accepting : Bool
  cancelling : Bool
  overflow : Bool
  /-- What it told the watch that ends the connection. -/
  fault : Bool
  /-- All that was sent on the channel, and how much of it the receiver took. -/
  queued : List (Delivery U T)
  taken : Nat
  /-- Everything that came for the run while the route was accepting. -/
  offered : List (Delivery U T)
  /-- How many permission requests came, and the protocol responses to them. -/
  requests : Nat
  responses : List (Nat × PermissionOutcome)

/-- What the environment decides while permissions are drained: the order in which the map yields
its entries, and for which of them the connection takes the response. -/
structure Drain where
  order : List (PermissionId × PendingPermission) → List (PermissionId × PendingPermission)
  perm : ∀ pending, (order pending).Perm pending
  sent : PermissionId → Bool

def deliveryOf (sent : Bool) : DecisionDelivery := if sent then .queued else .unknown

/-- The text of `Error::internal_error`. -/
def internalError : String := "Internal error"

variable {U T : Type}

namespace Route

def start (runId : RunId) : Route U T where
  runId
  pending := []
  nextPermission := 0
  accepting := true
  cancelling := false
  overflow := false
  fault := false
  queued := []
  taken := 0
  offered := []
  requests := 0
  responses := []

/-- `sender.try_send`, refused while the channel is full. -/
def trySend (m : Delivery U T) (r : Route U T) : Option (Route U T) :=
  if r.queued.length < r.taken + eventCapacity then some { r with queued := r.queued ++ [m] }
  else none

def offer (m : Delivery U T) (r : Route U T) : Route U T := { r with offered := r.offered ++ [m] }

/-- `responder.respond`, which uses the responder up. -/
def answer (responder : Nat) (outcome : PermissionOutcome) (r : Route U T) : Route U T :=
  { r with responses := r.responses ++ [(responder, outcome)] }

/-- The body of the loop of `cancel_permissions`. -/
def cancelPermission (sent : Bool) (id : PermissionId) (pending : PendingPermission)
    (r : Route U T) : Route U T :=
  let r := r.answer pending.responder .cancelled
  if r.accepting then
    let m := .event (.permissionResolved id .cancelled (deliveryOf sent))
    match (r.offer m).trySend m with
    | some r => r
    | none => { r.offer m with overflow := true, accepting := false, fault := true }
  else r

def cancelPermissions (d : Drain) (r : Route U T) : Route U T :=
  (d.order r.pending).foldl (fun r (id, pending) => cancelPermission (d.sent id) id pending r)
    { r with pending := [] }

def close (d : Drain) (r : Route U T) : Route U T := cancelPermissions d { r with accepting := false }

def deliver (d : Drain) (m : Delivery U T) (r : Route U T) : Except String Unit × Route U T :=
  if !r.accepting then (.ok (), r)
  else
    match (r.offer m).trySend m with
    | some r => (.ok (), r)
    -- Stop the connection rather than silently losing part of a transcript.
    | none => (.error internalError, { close d { r.offer m with overflow := true } with fault := true })

def routeUpdate (d : Drain) (update : U) (r : Route U T) : Except String Unit × Route U T :=
  deliver d (.event (.update update)) r

/-- A request whose responder answers it as it comes. -/
def refuse (r : Route U T) : Route U T :=
  { r with requests := r.requests + 1 }.answer r.requests .cancelled

/-- A request that waits for a decision under the next number. -/
def enlist (options : List String) (r : Route U T) : Route U T :=
  { r with
    requests := r.requests + 1
    nextPermission := r.nextPermission + 1
    pending := (⟨r.runId, r.nextPermission⟩, ⟨options, r.requests⟩) :: r.pending }

/-- A permission request, which finds this route unless none was active for its session then; the
reply is the result of a response that is sent at once. -/
def routePermission (d : Drain) (found : Bool) (request : RequestPermissionRequest T)
    (reply : Except String Unit) (r : Route U T) : Except String Unit × Route U T :=
  if !found || !r.accepting then (reply, r.refuse)
  else if permissionCapacity ≤ r.pending.length then
    (.error internalError, { close d { r.refuse with overflow := true } with fault := true })
  else
    let id := ⟨r.runId, r.nextPermission⟩
    match deliver d (.event (.permission id request))
        (r.enlist (request.options.map (·.optionId))) with
    | (.error e, r) => (.error e, r)
    | (.ok (), r) => (.ok (), if r.cancelling then cancelPermissions d r else r)

/-- The callback on the result of the prompt. -/
def complete (d : Drain) (result : Except String StopReason) (r : Route U T) :
    Except String Unit × Route U T :=
  match deliver d (.finished result) (cancelPermissions d r) with
  | (.error e, r) => (.error e, r)
  | (.ok (), r) => (.ok (), close d r)

def outcomeOf : Option String → PermissionOutcome
  | some option => .selected option
  | none => .cancelled

/-- `AcpRun::respond`; `sent` is the result of the response. -/
def respond (d : Drain) (id : PermissionId) (option : Option String) (sent : Except String Unit)
    (r : Route U T) : Except AcpError Unit × Route U T :=
  match r.pending.lookup id with
  | none => (.error .invalidPermission, r)
  | some pending =>
      if option.any (fun option => !pending.options.contains option) then
        (.error .invalidPermission, r)
      else
        let outcome := outcomeOf option
        let r := { r with pending := r.pending.filter (·.1 ≠ id) }
        let r := r.answer pending.responder outcome
        let m := .event (.permissionResolved id outcome (deliveryOf sent.isOk))
        match deliver d m r with
        | (.error _, r) => (.error .eventBufferFull, r)
        | (.ok (), r) => (sent.mapError .protocol, r)

end Route

end Acp

end AgentBridge
