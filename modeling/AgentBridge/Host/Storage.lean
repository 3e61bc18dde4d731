import AgentBridge.Reasoning.Transition
import AgentBridge.Records.Error
import Mathlib.Logic.Function.Basic

/-!
# Storage threads of the host

Bounded waits around synchronous storage.  A writer thread runs the jobs of its store one after the
other, callers wait for a job until a deadline, and a reader thread runs one job of its own.  All of
them hold a permit of one budget, and the writers of one path share a gate.

A step of the system is one access of a thread or a caller to what they share; the steps of all of
them interleave.
-/

namespace AgentBridge

open Reasoning

/-- The errors that a storage thread answers for its store. -/
def StoreError.fromWorker : StoreError → Bool
  | .storageTimedOut => true
  | .storageUnavailable => true
  | .storageOverloaded => true
  | _ => false

namespace Host

/-- What the job of a caller returns: the store behind a thread never answers for the thread. -/
structure Answer (α : Type) where
  result : Except StoreError α
  own : ∀ e, result = .error e → e.fromWorker = false

/-- A `sync_channel(1)` whose one sender belongs to a job. -/
inductive Reply (α : Type) where
  | pending
  | sent (value : α)
  /-- The sender is gone, and nothing was sent. -/
  | dropped

/-- The return of `call`: what the job answered, or an error of `call` itself. -/
inductive Outcome (α : Type) where
  | answered (answer : Answer α)
  /-- The job was not queued. -/
  | refused (error : StoreError)
  /-- The job was queued, and `call` stopped waiting for it. -/
  | gaveUp (error : StoreError)

def Outcome.result {α : Type} : Outcome α → Except StoreError α
  | .answered answer => answer.result
  | .refused error => .error error
  | .gaveUp error => .error error

/-- An answer of the handle itself that it gives once it serves no call any more. -/
def Outcome.isFinal {α : Type} : Outcome α → Bool
  | .answered _ => false
  | .refused .storageOverloaded => false
  | _ => true

/-- `jobs.try_send` fails when this many jobs wait. -/
def queueLimit : Nat := 8

namespace Storage

/-! ## Writers -/

/-- Where `start_serialized` stands, and later the handle it returned. -/
inductive Opening where
  | starting
  | waiting
  | failing (error : StoreError)
  | serving
  /-- `failed` is set, and `jobs` is about to be dropped. -/
  | closing
  | closed

/-- Where a writer thread stands between two accesses to what it shares. -/
inductive Thread (α : Type) where
  /-- Not started: `start_serialized` holds the gate, and from `reserved` on a permit. -/
  | gated
  | reserved
  | spawned
  | opening
  | creating
  | announcing (result : Except StoreError Unit)
  | idle
  | received (job : Nat)
  | entered (job : Nat)
  /-- The stop check is passed. -/
  | checked (job : Nat)
  | running (job : Nat)
  | completed (job : Nat) (answer : Answer α)
  | ran
  /-- Out of the loop, with a job that will not run. -/
  | leaving (job : Option Nat)
  | released
  | ended

/-- A writer with its thread.  A job is named by the call that sent it. -/
structure Worker (α : Type) where
  path : String
  gate : Nat
  failed : Bool
  opening : Opening
  thread : Thread α
  ready : Option (Except StoreError Unit)
  queue : List Nat
  /-- The jobs sent to the queue so far, in order. -/
  queued : List Nat
  /-- The jobs started so far, in order. -/
  started : List Nat
  /-- The jobs that returned or panicked, in order. -/
  ended : List Nat
  completed : List (Nat × Answer α)

/-- `Mutex<()>`. -/
structure Gate where
  holder : Option Nat
  poisoned : Bool

/-- Where `call` stands between two accesses to what it shares. -/
inductive Phase (α : Type) where
  | idle
  | called
  | admitted
  | waiting
  | failing (error : StoreError)
  | returned (outcome : Outcome α)

structure Call (α : Type) where
  worker : Nat
  phase : Phase α
  reply : Reply (Answer α)

/-! ## Readers -/

inductive ReadThread where
  | reserved
  | running
  /-- The work has ended, and the permit is about to be dropped. -/
  | leaving
  | ended

/-- `Budget::execute` with its thread. -/
structure Reader (α : Type) where
  thread : ReadThread
  reply : Reply α
  outcome : Option (Except StoreError α)

/-! ## The system -/

/-- The threads and callers of one `Budget`. -/
structure System (α : Type) where
  limit : Nat
  active : Nat
  writers : String → Option Nat
  gates : Nat → Gate
  gateCount : Nat
  workers : List (Worker α)
  calls : Nat → Call α
  readers : List (Reader α)

inductive Event (α : Type) where
  /-- `writer_gate`, the start of `Store::open`. -/
  | open (path : String)
  | reserve (i : Nat)
  | spawn (i : Nat) (ok : Bool)
  /-- The opener receives what the thread announced, or that the thread is gone. -/
  | receiveReady (i : Nat)
  | readyTimedOut (i : Nat)
  /-- The next access of an opener that failed, or of a handle that is dropped. -/
  | close (i : Nat)
  | drop (i : Nat)
  /-- The next access of a writer thread that nothing else decides. -/
  | advance (i : Nat)
  | created (i : Nat) (result : Except StoreError Unit)
  | completes (i : Nat) (answer : Answer α)
  | panics (i : Nat)
  | call (k i : Nat)
  /-- The next access of a call. -/
  | proceed (k : Nat)
  | timesOut (k : Nat)
  | execute
  | spawnReader (r : Nat) (ok : Bool)
  /-- The work of a reader ends with an answer, or in a panic. -/
  | readEnds (r : Nat) (answer : Option α)
  | readReleased (r : Nat)
  | readReturns (r : Nat)
  | readTimesOut (r : Nat)

/-- The `Arc` of the gate is alive. -/
@[simp] def Thread.keepsGate {α : Type} : Thread α → Bool
  | .ended => false
  | _ => true

namespace System

variable {α : Type}

def setWorker (s : System α) (i : Nat) (w : Worker α) : System α :=
  { s with workers := s.workers.set i w }

def setGate (s : System α) (g : Nat) (gate : Gate) : System α :=
  { s with gates := Function.update s.gates g gate }

def setCall (s : System α) (k : Nat) (call : Call α) : System α :=
  { s with calls := Function.update s.calls k call }

def setReader (s : System α) (r : Nat) (reader : Reader α) : System α :=
  { s with readers := s.readers.set r reader }

def setPhase (s : System α) (k : Nat) (phase : Phase α) : System α :=
  s.setCall k { s.calls k with phase }

def setReply (s : System α) (k : Nat) (reply : Reply (Answer α)) : System α :=
  s.setCall k { s.calls k with reply }

/-- Dropping a queue drops the senders of its jobs. -/
def dropJobs (s : System α) (jobs : List Nat) : System α :=
  { s with calls := fun k =>
      if k ∈ jobs then { s.calls k with reply := .dropped } else s.calls k }

@[simp] theorem setGate_gates_self (s : System α) (g : Nat) (gate : Gate) :
    (s.setGate g gate).gates g = gate := Function.update_self _ _ _

theorem setGate_gates_of_ne {s : System α} {g g' : Nat} {gate : Gate} (h : g' ≠ g) :
    (s.setGate g gate).gates g' = s.gates g' := Function.update_of_ne h _ _

@[simp] theorem setCall_calls_self (s : System α) (k : Nat) (call : Call α) :
    (s.setCall k call).calls k = call := Function.update_self _ _ _

theorem setCall_calls_of_ne {s : System α} {k j : Nat} {call : Call α} (h : j ≠ k) :
    (s.setCall k call).calls j = s.calls j := Function.update_of_ne h _ _

/-- `Weak::upgrade` of a gate succeeds. -/
def isKept (s : System α) (g : Nat) : Bool :=
  s.workers.any fun w => w.thread.keepsGate && w.gate == g

end System

variable {α : Type}

/-- `writer_gate`: the gate of a path that is still alive, or a new one. -/
def writerGate (s : System α) (path : String) : Nat × System α :=
  let writers := fun p => (s.writers p).filter s.isKept
  match writers path with
  | some gate => (gate, { s with writers })
  | none =>
      (s.gateCount, { s with
        writers := Function.update writers path (some s.gateCount)
        gates := Function.update s.gates s.gateCount ⟨none, false⟩
        gateCount := s.gateCount + 1 })

def Worker.start (path : String) (gate : Nat) : Worker α where
  path
  gate
  failed := false
  opening := .starting
  thread := .gated
  ready := none
  queue := []
  queued := []
  started := []
  ended := []
  completed := []

/-- The opener's receiver is there as long as it waits. -/
def Opening.receives : Opening → Bool
  | .waiting => true
  | _ => false

/-- `jobs` is dropped. -/
def Opening.isClosed : Opening → Bool
  | .closed => true
  | _ => false

/-- `Budget::reserve`. -/
def reserve (s : System α) : Option (System α) :=
  if s.active < s.limit then some { s with active := s.active + 1 } else none

/-- Dropping a `Permit`. -/
def release (s : System α) : System α := { s with active := s.active - 1 }

/-- `enter`, once the gate is free: poison makes it fail. -/
def enter (s : System α) (i : Nat) (w : Worker α) (entered failed : Thread α) : Option (System α) :=
  match (s.gates w.gate).holder with
  | some _ => none
  | none =>
      if (s.gates w.gate).poisoned then some (s.setWorker i { w with thread := failed })
      else
        some ((s.setGate w.gate ⟨some i, false⟩).setWorker i { w with thread := entered })

/-- The thread drops its guard. -/
def leave (s : System α) (w : Worker α) : System α :=
  s.setGate w.gate ⟨none, (s.gates w.gate).poisoned⟩

/-- A panic drops the guard. -/
def poison (s : System α) (w : Worker α) : System α := s.setGate w.gate ⟨none, true⟩

/-- The next access of a writer thread that nothing else decides. -/
def advance (s : System α) (i : Nat) (w : Worker α) : Option (System α) :=
  match w.thread with
  | .spawned => enter s i w .opening (.announcing (.error .storageUnavailable))
  | .opening =>
      if w.failed then
        some ((leave s w).setWorker i
          { w with thread := .announcing (.error .storageUnavailable) })
      else some (s.setWorker i { w with thread := .creating })
  | .announcing result =>
      if w.opening.receives then
        match result with
        | .ok () => some (s.setWorker i { w with ready := some result, thread := .idle })
        | .error _ =>
            some (s.setWorker i { w with ready := some result, thread := .leaving none })
      else some (s.setWorker i { w with thread := .leaving none })
  | .idle =>
      match w.queue with
      | job :: queue => some (s.setWorker i { w with queue, thread := .received job })
      | [] =>
          if w.opening.isClosed then some (s.setWorker i { w with thread := .leaving none })
          else none
  | .received job => enter s i w (.entered job) (.leaving (some job))
  | .entered job =>
      -- a job may have timed out while it waited behind another writer
      if w.failed then some ((leave s w).setWorker i { w with thread := .leaving (some job) })
      else some (s.setWorker i { w with thread := .checked job })
  | .checked job =>
      some (s.setWorker i { w with thread := .running job, started := w.started ++ [job] })
  | .completed job answer =>
      some ((s.setReply job (.sent answer)).setWorker i { w with thread := .ran })
  | .ran =>
      if w.failed then some ((leave s w).setWorker i { w with thread := .leaving none })
      else some ((leave s w).setWorker i { w with thread := .idle })
  | .leaving (some job) =>
      some ((s.setReply job .dropped).setWorker i { w with thread := .leaving none })
  | .leaving none => some ((release s).setWorker i { w with thread := .released })
  -- what the thread has captured is dropped after its own variables
  | .released =>
      some ((s.dropJobs w.queue).setWorker i { w with queue := [], thread := .ended })
  | _ => none

/-- A panic of the factory or of a job. -/
def panics (s : System α) (i : Nat) (w : Worker α) : Option (System α) :=
  match w.thread with
  | .creating => some ((poison s w).setWorker i { w with thread := .leaving none })
  | .running job =>
      some (((poison s w).setReply job .dropped).setWorker i
        { w with thread := .leaving none, ended := w.ended ++ [job] })
  | _ => none

/-- What the opener receives. -/
def receiveReady (s : System α) (i : Nat) (w : Worker α) : Option (System α) :=
  if w.opening.receives then
    match w.ready with
    | some (.ok ()) => some (s.setWorker i { w with opening := .serving })
    | some (.error e) => some (s.setWorker i { w with opening := .failing e })
    | none =>
        match w.thread with
        | .ended => some (s.setWorker i { w with opening := .failing .storageUnavailable })
        | _ => none
  else none

/-- The receiver of the jobs is there as long as the thread. -/
@[simp] def Thread.hasEnded : Thread α → Bool
  | .ended => true
  | _ => false

/-- `jobs.try_send`. -/
def trySend (s : System α) (k : Nat) (call : Call α) (w : Worker α) : System α :=
  if w.thread.hasEnded then s.setPhase k (.returned (.refused .storageUnavailable))
  else if queueLimit ≤ w.queue.length then
    s.setPhase k (.returned (.refused .storageOverloaded))
  else
    (s.setPhase k .waiting).setWorker call.worker
      { w with queue := w.queue ++ [k], queued := w.queued ++ [k] }

/-- The next access of a call. -/
def proceed (s : System α) (k : Nat) (call : Call α) (w : Worker α) : Option (System α) :=
  match call.phase with
  | .called =>
      if w.failed then some (s.setPhase k (.returned (.refused .storageUnavailable)))
      else some (s.setPhase k .admitted)
  | .admitted => some (trySend s k call w)
  | .waiting =>
      match call.reply with
      | .sent answer => some (s.setPhase k (.returned (.answered answer)))
      | .dropped => some (s.setPhase k (.failing .storageUnavailable))
      | .pending => none
  | .failing e =>
      some ((s.setPhase k (.returned (.gaveUp e))).setWorker call.worker { w with failed := true })
  | _ => none

def next (s : System α) : Event α → Option (System α)
  | .open path =>
      let (gate, s) := writerGate s path
      some { s with workers := s.workers ++ [Worker.start path gate] }
  | .reserve i => do
      let w ← s.workers[i]?
      match w.thread with
      | .gated =>
          match reserve s with
          | some s => some (s.setWorker i { w with thread := .reserved })
          | none => some (s.setWorker i { w with opening := .closed, thread := .ended })
      | _ => none
  | .spawn i ok => do
      let w ← s.workers[i]?
      match w.thread with
      | .reserved =>
          if ok then some (s.setWorker i { w with opening := .waiting, thread := .spawned })
          else some ((release s).setWorker i { w with opening := .closed, thread := .ended })
      | _ => none
  | .receiveReady i => do
      let w ← s.workers[i]?
      receiveReady s i w
  | .readyTimedOut i => do
      let w ← s.workers[i]?
      if w.opening.receives ∧ w.ready.isNone ∧ ¬w.thread.hasEnded then
        some (s.setWorker i { w with opening := .failing .storageTimedOut })
      else none
  | .close i => do
      let w ← s.workers[i]?
      match w.opening with
      | .failing _ => some (s.setWorker i { w with failed := true, opening := .closing })
      | .closing => some (s.setWorker i { w with opening := .closed })
      | _ => none
  | .drop i => do
      let w ← s.workers[i]?
      match w.opening with
      -- callers borrow the handle, so none of them is in a call by then; nothing here needs it
      | .serving => some (s.setWorker i { w with failed := true, opening := .closing })
      | _ => none
  | .advance i => do
      let w ← s.workers[i]?
      advance s i w
  | .created i result => do
      let w ← s.workers[i]?
      match w.thread with
      | .creating => some ((leave s w).setWorker i { w with thread := .announcing result })
      | _ => none
  | .completes i answer => do
      let w ← s.workers[i]?
      match w.thread with
      | .running job => some (s.setWorker i { w with
          thread := .completed job answer
          ended := w.ended ++ [job]
          completed := w.completed ++ [(job, answer)] })
      | _ => none
  | .panics i => do
      let w ← s.workers[i]?
      panics s i w
  | .call k i => do
      let w ← s.workers[i]?
      match w.opening, (s.calls k).phase with
      | .serving, .idle => some (s.setCall k ⟨i, .called, .pending⟩)
      | _, _ => none
  | .proceed k => do
      let w ← s.workers[(s.calls k).worker]?
      proceed s k (s.calls k) w
  | .timesOut k =>
      match (s.calls k).phase, (s.calls k).reply with
      | .waiting, .pending => some (s.setPhase k (.failing .storageTimedOut))
      | _, _ => none
  | .execute =>
      match reserve s with
      | some s => some { s with readers := s.readers ++ [⟨.reserved, .pending, none⟩] }
      | none =>
          some { s with readers := s.readers ++ [⟨.ended, .dropped, some (.error .storageOverloaded)⟩] }
  | .spawnReader r ok => do
      let reader ← s.readers[r]?
      match reader.thread with
      | .reserved =>
          if ok then some (s.setReader r { reader with thread := .running })
          else some ((release s).setReader r
            ⟨.ended, .dropped, some (.error .storageUnavailable)⟩)
      | _ => none
  | .readEnds r answer => do
      let reader ← s.readers[r]?
      match reader.thread, answer with
      | .running, some a => some (s.setReader r { reader with thread := .leaving, reply := .sent a })
      | .running, none => some (s.setReader r { reader with thread := .leaving, reply := .dropped })
      | _, _ => none
  | .readReleased r => do
      let reader ← s.readers[r]?
      match reader.thread with
      | .leaving => some ((release s).setReader r { reader with thread := .ended })
      | _ => none
  | .readReturns r => do
      let reader ← s.readers[r]?
      match reader.outcome, reader.reply with
      | none, .sent a => some (s.setReader r { reader with outcome := some (.ok a) })
      | none, .dropped =>
          some (s.setReader r { reader with outcome := some (.error .storageUnavailable) })
      | _, _ => none
  | .readTimesOut r => do
      let reader ← s.readers[r]?
      match reader.outcome, reader.thread, reader.reply with
      | some _, _, _ => none
      | none, .reserved, _ => none
      | none, _, .pending => some (s.setReader r { reader with outcome := some (.error .storageTimedOut) })
      | none, _, _ => none

/-- `Budget::new`. -/
def System.start (limit : Nat) : System α where
  limit
  active := 0
  writers := fun _ => none
  gates := fun _ => ⟨none, false⟩
  gateCount := 0
  workers := []
  calls := fun _ => ⟨0, .idle, .pending⟩
  readers := []

end Storage

end Host

end AgentBridge
