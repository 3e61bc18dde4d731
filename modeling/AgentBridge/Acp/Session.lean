import AgentBridge.Acp.Route
import AgentBridge.Reasoning.Transition
import AgentBridge.Run

/-!
# Runs of a native session

A dispatch gives a session a new run with a route of its own, and the run borrows the session until
it is dropped.  The consumer drives the run with `next`, `respond`, `cancel` and the drop, while the
connection uses the route from its own task at any time.  What a call does between two awaits, or
under the lock of the route, is one event.  The receiver takes from the channel outside the lock,
but only once in a wait, so that a take can stand before or after any such event.
-/

namespace AgentBridge

open Reasoning

namespace Acp

variable {U T : Type}

/-- Where the handle of a run stands: the prompt is being sent, no call is under way, a `next`
waits, its drop still has to close the route, it is gone, or there never was one. -/
inductive RunPhase where
  | dispatching
  | idle
  | waiting
  | dropping
  | gone
  | refused
deriving DecidableEq

/-- The flags of the session that a run borrows. -/
structure SessionFlags where
  retired : Bool
  quiescent : Bool
  fresh : Bool
deriving DecidableEq

structure AcpRun (U T : Type) where
  run : Run
  input : String
  route : Route U T
  settled : Bool
  phase : RunPhase
  /-- An `unwrap` failed on the result of `Run::apply`. -/
  panicked : Bool
  /-- What the calls of `next` returned. -/
  returned : List (Except AcpError (Option (AcpEvent U T)))

/-- A run with the flags of its session and the watch on its connection. -/
structure Turn (U T : Type) where
  session : SessionFlags
  closed : Bool
  acp : AcpRun U T

namespace AcpRun

/-- `run.apply(event).unwrap()`. -/
def apply (event : RunEvent) (a : AcpRun U T) : AcpRun U T :=
  match a.run.apply event with
  | .ok run => { a with run }
  | .error _ => { a with panicked := true }

/-- The run that a dispatch prepares, before its prompt is sent. -/
def start (spec : RunSpec) (input : String) : AcpRun U T :=
  AcpRun.apply .dispatchStarted {
    run := Run.new spec
    input
    route := Route.start spec.id
    settled := false
    phase := .dispatching
    panicked := false
    returned := [] }

def return_ (result : Except AcpError (Option (AcpEvent U T))) (a : AcpRun U T) : AcpRun U T :=
  { a with phase := .idle, returned := a.returned ++ [result] }

/-- No handle of the run is left. -/
def Over (a : AcpRun U T) : Prop := a.phase = .gone ∨ a.phase = .refused

instance (a : AcpRun U T) : Decidable a.Over := inferInstanceAs (Decidable (_ ∨ _))

end AcpRun

namespace Turn

/-- The result of sending the prompt. -/
def sent (d : Drain) (result : Except String Unit) (t : Turn U T) : Turn U T :=
  match result with
  | .ok () => { t with acp := { t.acp with phase := .idle } }
  | .error _ => { t with
      session := { t.session with retired := true }
      acp := { t.acp with route := t.acp.route.close d, phase := .refused } }

def unknown (d : Drain) (t : Turn U T) : Turn U T :=
  let acp := t.acp.apply .connectionLost
  { t with
    session := { t.session with retired := true }
    acp := { acp with settled := true, route := acp.route.close d } }

/-- `next` up to its await. -/
def next (d : Drain) (t : Turn U T) : Turn U T :=
  if t.acp.settled then { t with acp := t.acp.return_ (.ok none) }
  else if t.acp.route.overflow then
    let t := t.unknown d
    { t with acp := t.acp.return_ (.error .eventBufferFull) }
  else { t with acp := { t.acp with phase := .waiting } }

/-- What `next` makes of a delivery. -/
def receive (m : Delivery U T) (t : Turn U T) : Turn U T :=
  let acp := { t.acp with route := { t.acp.route with taken := t.acp.route.taken + 1 } }
  match m with
  | .event event =>
      let acp := if acp.run.status = .starting then acp.apply .started else acp
      { t with acp := acp.return_ (.ok (some event)) }
  | .finished (.ok reason) =>
      let ended := if reason = .cancelled then RunEvent.cancellationConfirmed else .completed
      let acp := AcpRun.apply ended { acp with settled := true }
      { t with
        session := { t.session with quiescent := true }
        acp := acp.return_ (.ok (some (.finished reason))) }
  | .finished (.error e) =>
      let acp := AcpRun.apply .failed { acp with settled := true }
      { t with
        session := { t.session with retired := true }
        acp := acp.return_ (.error (.protocol e)) }

/-- `next` finds the connection closed: a delivery that is queued already goes first. -/
def receiveClosed (d : Drain) (t : Turn U T) : Turn U T :=
  match t.acp.route.queued[t.acp.route.taken]? with
  | some m => t.receive m
  | none =>
      let t := t.unknown d
      { t with acp := t.acp.return_ (.error .closed) }

/-- `AcpRun::cancel`; the last result is that of the notification. -/
def cancel (d : Drain) (notified : Except String Unit) (t : Turn U T) :
    Except AcpError Unit × Turn U T :=
  if t.acp.settled || t.acp.run.cancellationRequested then (.ok (), t)
  else
    let acp := t.acp.apply .cancellationRequested
    (notified.mapError .protocol,
      { t with acp := { acp with route := { acp.route with cancelling := true }.cancelPermissions d } })

/-- The drop up to the lock of the route. -/
def drop (d : Drain) (notified : Except String Unit) (t : Turn U T) : Turn U T :=
  let t := if t.acp.settled then t else
    let (_, t) := t.cancel d notified
    { t with session := { t.session with retired := true } }
  { t with acp := { t.acp with phase := .dropping } }

inductive Event (U T : Type) where
  | sent (d : Drain) (result : Except String Unit)
  | update (d : Drain) (update : U)
  | permission (d : Drain) (found : Bool) (request : RequestPermissionRequest T)
      (reply : Except String Unit)
  | complete (d : Drain) (result : Except String StopReason)
  /-- The task of the connection is gone. -/
  | close
  | next (d : Drain)
  /-- The channel has a delivery for the wait. -/
  | receive
  | receiveClosed (d : Drain)
  /-- The future of `next` is dropped. -/
  | abandon
  | respond (d : Drain) (id : PermissionId) (option : Option String) (sent : Except String Unit)
  | cancel (d : Drain) (notified : Except String Unit)
  | drop (d : Drain) (notified : Except String Unit)
  | release (d : Drain)

def onRoute (f : Route U T → Route U T) (t : Turn U T) : Turn U T :=
  { t with acp := { t.acp with route := f t.acp.route } }

/-- One event of the consumer in a phase. -/
def inPhase (phase : RunPhase) (t t' : Turn U T) : Option (Turn U T) :=
  if t.acp.phase = phase then some t' else none

def step : Next (Event U T) (Turn U T)
  | t, .sent d result => t.inPhase .dispatching (t.sent d result)
  | t, .update d update => some (t.onRoute fun r => (r.routeUpdate d update).2)
  | t, .permission d found request reply =>
      some (t.onRoute fun r => (r.routePermission d found request reply).2)
  | t, .complete d result => some (t.onRoute fun r => (r.complete d result).2)
  | t, .close => some { t with closed := true }
  | t, .next d => t.inPhase .idle (t.next d)
  | t, .receive =>
      match t.acp.route.queued[t.acp.route.taken]? with
      | some m => t.inPhase .waiting (t.receive m)
      | none => none
  | t, .receiveClosed d => if t.closed then t.inPhase .waiting (t.receiveClosed d) else none
  | t, .abandon => t.inPhase .waiting { t with acp := { t.acp with phase := .idle } }
  | t, .respond d id option sent =>
      t.inPhase .idle (t.onRoute fun r => (r.respond d id option sent).2)
  | t, .cancel d notified => t.inPhase .idle (t.cancel d notified).2
  | t, .drop d notified => t.inPhase .idle (t.drop d notified)
  | t, .release d => t.inPhase .dropping
      { t with acp := { t.acp with route := t.acp.route.close d, phase := .gone } }

end Turn

end Acp

end AgentBridge
