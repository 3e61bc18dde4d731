import AgentBridge.Reasoning.Transition
import Mathlib.Algebra.GroupWithZero.Nat

/-!
# Observers of a run

The bounded queue between a run and one consumer, and the run that hands its events to its queues.  A
queue keeps what the promises of its consumer came to, in the order in which they settled.
-/

namespace AgentBridge

open Reasoning

namespace Client

/-- `E` is what a run can fail with. -/
inductive EventsError (E : Type) where
  | lagged
  | failure (error : E)
deriving DecidableEq

/-- What a promise of `next` comes to. -/
inductive IterResult (V E : Type) where
  | value (v : V)
  | finished
  | rejected (error : EventsError E)
  /-- Another promise is still waiting. -/
  | secondConsumer
deriving DecidableEq

def IterResult.value? {V E : Type} : IterResult V E → Option V
  | .value v => some v
  | _ => none

structure Events (V E : Type) where
  items : List (V × Nat)
  bytes : Nat
  /-- A promise waits for an event. -/
  waiter : Bool
  done : Bool
  error : Option (EventsError E)
  maxEvents : Nat
  maxBytes : Nat
  results : List (IterResult V E)

/-- A number of the script that may be no integer. -/
inductive Limit where
  | integer (n : Int)
  | other

structure SubscriptionOptions where
  maxEvents : Option Limit
  maxBytes : Option Limit

namespace Events

variable {V E : Type}

/-- A limit of the options, between 1 and the largest one, which is also the default. -/
def limitOf (largest : Nat) : Option Limit → Option Nat
  | none => some largest
  | some (.integer n) => if 1 ≤ n ∧ n ≤ largest then some n.toNat else none
  | some .other => none

def new (options : SubscriptionOptions) : Option (Events V E) := do
  let maxEvents ← limitOf 128 options.maxEvents
  let maxBytes ← limitOf (1024 * 1024) options.maxBytes
  some ⟨[], 0, false, false, none, maxEvents, maxBytes, []⟩

/-- `end`; the caller releases the slot of a queue that is done. -/
def ended (error : Option (EventsError E)) (q : Events V E) : Events V E :=
  if q.done then q
  else
    { q with
      done := true
      error
      items := if error.isSome then [] else q.items
      bytes := if error.isSome then 0 else q.bytes
      waiter := false
      results := q.results ++
        if q.waiter then [match error with | some e => .rejected e | none => .finished] else [] }

def push (value : V) (bytes : Nat) (q : Events V E) : Events V E :=
  if q.done then q
  else if q.waiter then { q with waiter := false, results := q.results ++ [.value value] }
  else if q.items.length ≥ q.maxEvents ∨ q.bytes + bytes > q.maxBytes then
    q.ended (some .lagged)
  else { q with items := q.items ++ [(value, bytes)], bytes := q.bytes + bytes }

/-- `close`, and `return` of the iterator. -/
def close (q : Events V E) : Events V E := ended none { q with items := [], bytes := 0 }

def next (q : Events V E) : Events V E :=
  match q.error with
  | some e => { q with results := q.results ++ [.rejected e] }
  | none =>
      match q.items with
      | item :: items =>
          { q with
            items
            bytes := q.bytes - item.2
            results := q.results ++ [.value item.1] }
      | [] =>
          if q.done then { q with results := q.results ++ [.finished] }
          else if q.waiter then { q with results := q.results ++ [.secondConsumer] }
          else { q with waiter := true }

inductive Step (V E : Type) where
  | push (value : V) (bytes : Nat)
  | ended (error : Option (EventsError E))
  | close
  | next

def step (q : Events V E) : Step V E → Events V E
  | .push value bytes => q.push value bytes
  | .ended error => q.ended error
  | .close => q.close
  | .next => q.next

def run (q : Events V E) (steps : List (Step V E)) : Events V E := steps.foldl step q

/-- The values that the consumer received. -/
def received (q : Events V E) : List V := q.results.filterMap IterResult.value?

end Events

/-! ## The run -/

inductive EventKind where
  | textDelta
  | permission
  | runFinished
deriving DecidableEq

structure RunEvent (D : Type) where
  sessionId : String
  runId : String
  kind : EventKind
  data : D
deriving DecidableEq

/-- A run with all the queues that were ever subscribed; `subscribers` are the places of those that
are active. -/
structure HostRun (D E : Type) where
  sessionId : String
  runId : Option String
  queues : List (Events (RunEvent D) E)
  subscribers : List Nat
  terminal : Option (RunEvent D)
  failure : Option E

namespace HostRun

variable {D E : Type} (bytes : RunEvent D → Nat)

def start (sessionId : String) : HostRun D E := ⟨sessionId, none, [], [], none, none⟩

/-- A call on a queue; `onClosed` releases the slot of a queue that this ends. -/
def update (h : HostRun D E) (i : Nat) (f : Events (RunEvent D) E → Events (RunEvent D) E) :
    HostRun D E :=
  let queues := h.queues.modify i f
  let ended := (queues[i]?.map (·.done)).getD false
  { h with
    queues
    subscribers := if ended then h.subscribers.filter (· ≠ i) else h.subscribers }

/-- `subscribe`; none when it throws. -/
def subscribe (options : SubscriptionOptions) (h : HostRun D E) : Option (HostRun D E) :=
  if h.subscribers.length ≥ 8 then none
  else
    match Events.new options with
    | none => none
    | some queue =>
        match h.terminal, h.failure with
        | some event, _ =>
            some { h with queues := h.queues ++ [(queue.push event (bytes event)).ended none] }
        | none, some error =>
            some { h with queues := h.queues ++ [queue.ended (some (.failure error))] }
        | none, none =>
            some { h with
              queues := h.queues ++ [queue]
              subscribers := h.subscribers ++ [h.queues.length] }

/-- `bind`; none when it throws. -/
def bind (runId sessionId : String) (h : HostRun D E) : Option (HostRun D E) :=
  if sessionId = h.sessionId then some { h with runId := some runId } else none

/-- What `accept` does with one queue. -/
def deliver (event : RunEvent D) (terminal : Bool) (q : Events (RunEvent D) E) :
    Events (RunEvent D) E :=
  let q := q.push event (bytes event)
  if terminal then q.ended none else q

/-- `accept`; none when it throws. -/
def accept (event : RunEvent D) (h : HostRun D E) : Option (HostRun D E) :=
  if h.runId = some event.runId ∧ event.sessionId = h.sessionId then
    let terminal := if event.kind = .runFinished then some event else h.terminal
    let h := { h with terminal }
    some (h.subscribers.foldl (fun h i => h.update i (deliver bytes event terminal.isSome)) h)
  else none

def fail (error : E) (h : HostRun D E) : HostRun D E :=
  let h := { h with failure := some error }
  h.subscribers.foldl (fun h i => h.update i (Events.ended (some (.failure error)))) h

inductive Event (D E : Type) where
  | subscribe (options : SubscriptionOptions)
  | bind (runId sessionId : String)
  | accept (event : RunEvent D)
  | fail (error : E)
  | next (i : Nat)
  | close (i : Nat)

def step (h : HostRun D E) : Event D E → Option (HostRun D E)
  | .subscribe options => h.subscribe bytes options
  | .bind runId sessionId => h.bind runId sessionId
  | .accept event => h.accept bytes event
  | .fail error => some (h.fail error)
  | .next i => some (h.update i Events.next)
  | .close i => some (h.update i Events.close)

end HostRun

end Client

end AgentBridge
