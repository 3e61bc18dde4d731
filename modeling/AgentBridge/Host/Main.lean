import AgentBridge.Host.Value
import AgentBridge.Reasoning.HashMap
import AgentBridge.Reasoning.Transition

/-!
# The requests of the host

The main loop answers a request itself, or leaves it to the worker of a session, to a task of the
question service or to a thread that reads.  A step is one access of a thread to what the threads
share, with the response that it sends next.  What other parts of the host answer to the thread comes
with the event.  The results of responses are left out, and so are the frames that are no responses;
one that finds no room in the output stops the host, like the end of the input.
-/

namespace AgentBridge

open Reasoning

namespace Host

inductive Method where
  | configureTools
  | toolResult
  | questionAsk
  | questionAnswer
  | questionPending
  | ping
  | shutdown
  | createSession
  | restoreSession
  | history
  | snapshot
  | changes
  | discover
  | run
  | runTask
  | cancel
  | respond
  | pendingPermissions
  | configuration
  | setOption
  | handoff
  | setModel
  | other (name : String)
deriving DecidableEq

structure Request (ν : Type) where
  version : Nat
  id : String
  method : Method
  params : JsonTree ν

/-- What `output.ok` and `output.error` send. -/
inductive Response where
  | ok (id : String)
  | error (id code message : String)

def Response.id : Response → String
  | .ok id => id
  | .error id _ _ => id

/-- A response with what came of the request. -/
def respond (id code : String) : Except String Unit → Response
  | .ok () => .ok id
  | .error e => .error id code e

/-- `recovery::Restore`, by the session that it names. -/
inductive Restore where
  | native (session : String)
  | portable (session : String)

def Restore.session : Restore → String
  | .native session => session
  | .portable session => session

/-- The parameters of a session, as far as its worker's responses depend on them. -/
structure Open where
  deleteSessionOnClose : Bool
  restore : Option Restore

/-- `recovery::Session`. -/
inductive Session where
  | active
  /-- A restored one, and whether its selected context is still to be dispatched. -/
  | restored (pending : Bool)

namespace Session

def prepared : Option Restore → Session
  | none => .active
  | some (.native _) => .restored false
  | some (.portable _) => .restored true

/-- `into_active`, and the check of `handoff`. -/
def intoActive : Session → Except String Session
  | .restored true => .error "portable context has not been dispatched"
  | _ => .ok .active

/-- The session whose run is started. -/
def started : Session → Session
  | .restored _ => .restored false
  | .active => .active

end Session

/-! ## The worker of a session -/

inductive Phase where
  /-- It opens the store and connects. -/
  | connecting
  /-- It prepares the session, up to the response to `create_session`. -/
  | preparing
  | idle (session : Session)
  | configuring (request : String) (session : Session)
  /-- `handoff` has come to an outcome, and the queue is still open. -/
  | releasing (request : String) (outcome : Except String Unit)
  | running (run : String) (session : Session)
  /-- The queue is closed, and no command is taken any more. -/
  | closed

structure Worker (ν : Type) where
  create : String
  options : Open
  /-- The commands that the main loop has sent. -/
  queue : List (Request ν)
  phase : Phase

/-- What the worker is told in a step that takes a command. -/
structure Said where
  /-- The options of a run: whether it has a context or a result. -/
  options : Except String Bool
  /-- `binding.begin`. -/
  begun : Except String Unit
  /-- `session.start`, after its own checks. -/
  start : Except String Unit
  run : String
  handoff : Except String Unit
  cancel : Except String Unit
  respond : Except String Unit

inductive WorkerEvent where
  | setup (outcome : Except String Unit)
  | prepare (outcome : Except String Unit)
  /-- `commands.recv` yields a command. -/
  | take (said : Said)
  | configured (outcome : Except String Unit)
  | release
  /-- The run has ended. -/
  | finish

namespace Worker

variable {ν : Type}

/-- `session.start`. -/
def startRun (session : Session) (said : Said) (hasOptions : Bool) : Except String Unit :=
  match session, hasOptions with
  | .restored _, true =>
      .error "first restored run must use its frozen selection without run options"
  | _, _ => said.start

/-- A `run` or `run_task` between runs. -/
def start (w : Worker ν) (session : Session) (request : Request ν) (said : Said) :
    Worker ν × List Response :=
  match stringParam request.params "prompt" with
  | .error e => (w, [.error request.id "invalid_params" e])
  | .ok _ =>
  match said.options with
  | .error e => (w, [.error request.id "invalid_params" e])
  | .ok hasOptions =>
  match said.begun with
  | .error e => (w, [.error request.id "tool_binding_retired" e])
  | .ok () =>
  match startRun session said hasOptions with
  | .error e => (w, [.error request.id "start_failed" e])
  | .ok () => ({ w with phase := .running said.run session.started }, [.ok request.id])

/-- A command between runs. -/
def serve (w : Worker ν) (session : Session) (request : Request ν) (said : Said) :
    Worker ν × List Response :=
  match request.method with
  | .handoff =>
      if w.options.deleteSessionOnClose then
        (w, [.error request.id "handoff_failed" "cannot hand off a session configured for deletion"])
      else
        let outcome := match session.intoActive with
          | .error e => .error e
          | .ok _ => said.handoff
        ({ w with phase := .releasing request.id outcome }, [])
  | .configuration => (w, [.ok request.id])
  | .setOption => ({ w with phase := .configuring request.id session }, [])
  | .setModel => ({ w with phase := .configuring request.id session }, [])
  | .run => w.start session request said
  | .runTask => w.start session request said
  | _ => (w, [.error request.id "not_running" "session has no active run"])

/-- A command during a run. -/
def interrupt (run : String) (request : Request ν) (said : Said) : Response :=
  if request.method ∈ [.run, .runTask, .configuration, .setOption, .setModel, .handoff] then
    .error request.id "session_busy" "session already has an active run"
  else if (request.params.index "run_id").asStr ≠ some run then
    .error request.id "stale_run" "run ID is not active"
  else
    match request.method with
    | .pendingPermissions => .ok request.id
    | .cancel => Host.respond request.id "cancel_failed" said.cancel
    | .respond => Host.respond request.id "invalid_response" said.respond
    | _ => .error request.id "unknown_method" "unsupported session command"

/-- `commands.close()` and the response that follows. -/
def close (w : Worker ν) (response : Response) : Worker ν × List Response :=
  ({ w with phase := .closed }, [response])

/-- A step of the worker, with its response. -/
def next (w : Worker ν) (event : WorkerEvent) : Option (Worker ν × List Response) :=
  match w.phase, event with
  | .connecting, .setup (.ok ()) => some ({ w with phase := .preparing }, [])
  | .connecting, .setup (.error e) => some (w.close (.error w.create "setup_failed" e))
  | .preparing, .prepare (.ok ()) =>
      some ({ w with phase := .idle (.prepared w.options.restore) }, [.ok w.create])
  | .preparing, .prepare (.error e) =>
      some (w.close (.error w.create "session_setup_failed" e))
  | .idle session, .take said =>
      match w.queue with
      | [] => none
      | request :: queue => some ({ w with queue }.serve session request said)
  | .configuring request session, .configured outcome =>
      some ({ w with phase := .idle session }, [Host.respond request "configuration_failed" outcome])
  | .releasing request outcome, .release =>
      some (w.close (Host.respond request "handoff_failed" outcome))
  | .running run _, .take said =>
      match w.queue with
      | [] => none
      | request :: queue => some ({ w with queue }, [interrupt run request said])
  | .running _ session, .finish =>
      match session.intoActive with
      | .error e => some (w.close (.error w.create "session_setup_failed" e))
      | .ok session => some ({ w with phase := .idle session }, [])
  | _, _ => none

end Worker

/-! ## Questions and reads -/

inductive OperationStage where
  | admitted
  /-- A `question_ask` waits for the answer. -/
  | waiting
  /-- The response is sent, and the permit is dropped. -/
  | answered
deriving DecidableEq

/-- A task that `Service::dispatch` has spawned. -/
structure Operation where
  request : String
  asks : Bool
  stage : OperationStage

namespace Operation

/-- The task goes on: `open`, `answer` and `pending` first, and the wait of a question that was
opened. -/
def next (operation : Operation) (outcome : Except String Unit) :
    Option (Operation × List Response) :=
  match operation.stage, operation.asks, outcome with
  | .admitted, true, .ok () => some ({ operation with stage := .waiting }, [])
  | .admitted, true, .error e =>
      some ({ operation with stage := .answered },
        [.error operation.request "invalid_question" e])
  | .admitted, false, outcome =>
      some ({ operation with stage := .answered },
        [respond operation.request "invalid_answer" outcome])
  | .waiting, _, outcome =>
      some ({ operation with stage := .answered },
        [respond operation.request "question_failed" outcome])
  | .answered, _, _ => none

end Operation

/-- A thread that reads the database. -/
structure Read where
  request : String
  answered : Bool
  /-- The work holds its permit, also when nobody waits for it any more. -/
  permit : Bool

/-! ## The host -/

structure ConfigureTools where
  callbackProtocol : Nat
  questionProtocol : Option Nat

/-- What the main loop is told when it handles a request. -/
structure Consulted where
  config : Except String ConfigureTools
  hub : Except String Unit
  reply : Except String Unit
  owner : Except String Unit
  options : Option Open
  grants : Except String Unit
  /-- `identity("session")`. -/
  session : String

inductive Line (ν : Type) where
  | oversized
  | malformed
  | request (request : Request ν)

structure Main (ν : Type) where
  toolsLocked : Bool
  questionProtocol : Bool
  /-- The worker whose queue a session has. -/
  sessions : HashMap String Nat
  workers : List (Worker ν)
  operations : List Operation
  reads : List Read
  responses : List Response
  stopping : Bool

def maxSessions : Nat := 8

def commandLimit : Nat := 16

def questionLimit : Nat := 32

def readLimit : Nat := 4

inductive Event (ν : Type) where
  /-- The top of the main loop. -/
  | iterate
  | receive (line : Line ν) (consulted : Consulted)
  | worker (i : Nat) (event : WorkerEvent)
  | operation (k : Nat) (outcome : Except String Unit)
  | read (k : Nat) (outcome : Except String Unit)
  | release (k : Nat)
  | stop

namespace Main

variable {ν : Type}

def send (s : Main ν) (responses : List Response) : Main ν :=
  { s with responses := s.responses ++ responses }

/-- `sender.is_closed()`. -/
def isClosed (s : Main ν) (i : Nat) : Bool :=
  match s.workers[i]? with
  | some w => match w.phase with
    | .closed => true
    | _ => false
  | none => true

/-- `sessions.retain(|_, sender| !sender.is_closed())`. -/
def retain (s : Main ν) : Main ν :=
  { s with sessions := HashMap.retain s.sessions fun _ i => !s.isClosed i }

def configureTools (s : Main ν) (id : String) (consulted : Consulted) : Main ν :=
  if s.toolsLocked then
    s.send [.error id "tools_locked"
      "tool declarations are immutable after configuration or session creation"]
  else
    match consulted.config with
    | .error e => s.send [.error id "invalid_tools" e]
    | .ok config =>
        if config.callbackProtocol ≠ 1 then
          s.send [.error id "unsupported_tool_protocol" "tool callback protocol 1 required"]
        else if config.questionProtocol.any (· ≠ 1) then
          s.send [.error id "unsupported_question_protocol" "question protocol 1 required"]
        else
          match consulted.hub with
          | .ok () =>
              { s.send [.ok id] with
                toolsLocked := true
                questionProtocol := config.questionProtocol == some 1 }
          | .error e => s.send [.error id "invalid_tools" e]

/-- `Service::dispatch`. -/
def dispatch (s : Main ν) (id : String) (asks : Bool) : Main ν :=
  if s.operations.countP (·.stage ≠ .answered) ≥ questionLimit then
    s.send [.error id "question_capacity" "too many question operations"]
  else { s with operations := s.operations ++ [⟨id, asks, .admitted⟩] }

def question (s : Main ν) (id : String) (asks : Bool) (consulted : Consulted) : Main ν :=
  if !s.questionProtocol then
    s.send [.error id "questions_disabled" "question callbacks were not negotiated"]
  else if asks then
    match consulted.owner with
    | .error e => s.send [.error id "invalid_question_scope" e]
    | .ok () => s.dispatch id asks
  else s.dispatch id asks

/-- `create_session`, and `restore_session` when `restores`, once closed sessions are gone. -/
def openSession (s : Main ν) (id : String) (restores : Bool) (consulted : Consulted) : Main ν :=
  if s.sessions.keys.length ≥ maxSessions then
    s.send [.error id "session_limit" "host session limit reached"]
  else
    match consulted.options with
    | none => s.send [.error id "invalid_params" "invalid session options"]
    | some options =>
        if restores ≠ options.restore.isSome then
          s.send [.error id "invalid_params" ("restore_session requires an explicit restoration " ++
            "strategy; create_session does not accept one")]
        else
          let session := (options.restore.map Restore.session).getD consulted.session
          if (s.sessions.lookup session).any (!s.isClosed ·) then
            s.send [.error id "session_busy" "session already owned by this host"]
          else
            match consulted.grants with
            | .error e => s.send [.error id "invalid_tool_grant" e]
            | .ok () =>
                { s with
                  toolsLocked := true
                  sessions := s.sessions.insert session s.workers.length
                  workers := s.workers ++ [⟨id, options, [], .connecting⟩] }

def readDatabase (s : Main ν) (id : String) : Main ν :=
  if s.reads.countP (·.permit) ≥ readLimit then
    s.send [.error id "history_limit" "too many concurrent history requests"]
  else { s with reads := s.reads ++ [⟨id, false, true⟩] }

/-- A command of a session, to the queue of its worker. -/
def command (s : Main ν) (request : Request ν) : Main ν :=
  match stringParam request.params "session_id" with
  | .error e => s.send [.error request.id "invalid_params" e]
  | .ok session =>
  match s.sessions.lookup session with
  | none => s.send [.error request.id "unknown_session" "session is not owned by this host"]
  | some i =>
  match s.workers[i]? with
  | none => s.send [.error request.id "session_unavailable" "session queue is full or closed"]
  | some w =>
      if s.isClosed i || decide (w.queue.length ≥ commandLimit) then
        s.send [.error request.id "session_unavailable" "session queue is full or closed"]
      else { s with workers := s.workers.set i { w with queue := w.queue ++ [request] } }

/-- A request of the protocol's version. -/
def handle (s : Main ν) (request : Request ν) (consulted : Consulted) : Main ν :=
  match request.method with
  | .configureTools => s.configureTools request.id consulted
  | .toolResult => s.send [respond request.id "invalid_tool_result" consulted.reply]
  | .questionAsk => s.question request.id true consulted
  | .questionAnswer => s.question request.id false consulted
  | .questionPending => s.question request.id false consulted
  | .ping => s.send [.ok request.id]
  | .shutdown => { s.send [.ok request.id] with stopping := true }
  | .createSession => s.retain.openSession request.id false consulted
  | .restoreSession => s.retain.openSession request.id true consulted
  | .history => s.readDatabase request.id
  | .snapshot => s.readDatabase request.id
  | .changes => s.readDatabase request.id
  | .discover => s.readDatabase request.id
  | .other _ => s.send [.error request.id "unknown_method" "unknown host method"]
  | _ => s.command request

def receive (s : Main ν) (line : Line ν) (consulted : Consulted) : Main ν :=
  match line with
  | .oversized => { s with stopping := true }
  | .malformed => s
  | .request request =>
      if request.version ≠ 1 ∨ request.id.isEmpty then
        s.send [.error request.id "unsupported_protocol"
          "version 1 and a nonempty request ID are required"]
      else s.handle request consulted

/-- Nothing is said of a host that is stopping. -/
def next (s : Main ν) (event : Event ν) : Option (Main ν) :=
  if s.stopping then none
  else
    match event with
    | .iterate => some s.retain
    | .receive line consulted => some (s.receive line consulted)
    | .worker i event => do
        let w ← s.workers[i]?
        let (w, responses) ← w.next event
        some ({ s with workers := s.workers.set i w }.send responses)
    | .operation k outcome => do
        let operation ← s.operations[k]?
        let (operation, responses) ← operation.next outcome
        some ({ s with operations := s.operations.set k operation }.send responses)
    | .read k outcome => do
        let read ← s.reads[k]?
        if read.answered then none
        else
          some ({ s with reads := s.reads.set k { read with answered := true } }.send
            [respond read.request "history_failed" outcome])
    | .release k => do
        let read ← s.reads[k]?
        some { s with reads := s.reads.set k { read with permit := false } }
    | .stop => some { s with stopping := true }

def start : Main ν := ⟨false, false, ∅, [], [], [], [], false⟩

end Main

end Host

end AgentBridge
