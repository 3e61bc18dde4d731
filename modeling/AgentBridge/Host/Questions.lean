import AgentBridge.Host.Value
import AgentBridge.Reasoning.Transition
import AgentBridge.Records.Question
import Mathlib.Data.List.Sort

/-!
# Questions of tool calls, on the host

A call that was announced to the application may ask it questions.  Each operation is a task of its
own, and the tasks share the entries of the questions and the output; a step is one access of a call
or of a task to what is shared.  Replies that say nothing about questions to the application are left
out, and one that finds no room in the output stops the host by an event of its own.
-/

namespace AgentBridge

open Reasoning

namespace Host

namespace Questions

variable {ν : Type}

/-! ## Data -/

structure QuestionOwner where
  call : String
  binding : String
  session : String
  slot : String
deriving DecidableEq

/-- What `Entry::frame` says of a question. -/
structure QuestionView where
  questionId : String
  revision : Nat
  owner : QuestionOwner
  definition : Question
deriving DecidableEq

/-- The output of the host, as far as questions depend on it. -/
inductive Frame where
  | toolCall (owner : QuestionOwner)
  | toolCancel (owner : QuestionOwner)
  | questionOpened (view : QuestionView)
  | questionClosed (id : String) (owner : QuestionOwner)
  /-- The reply to a `question_pending`. -/
  | pendingReply (views : List QuestionView)
deriving DecidableEq

/-- Where `Broker::invoke` stands. -/
inductive CallStage where
  /-- It holds its permits. -/
  | admitted
  /-- It is in `broker.pending`. -/
  | pending
  | announced
  /-- `Hub::reply` took it out of `broker.pending`. -/
  | replied
  /-- The guard is dropped: the token of its questions is cancelled. -/
  | cancelled (settled : Bool)
  | removed (settled : Bool)
  /-- An unsettled call has sent its `tool_cancel`. -/
  | reported
  | released
deriving DecidableEq

/-- The token of the call's questions is cancelled. -/
def CallStage.isCancelled : CallStage → Bool
  | .cancelled _ => true
  | .removed _ => true
  | .reported => true
  | .released => true
  | _ => false

structure HostCall where
  owner : QuestionOwner
  stage : CallStage

inductive Answerer where
  | user
  | host
deriving DecidableEq

/-- An `Entry`, with the gate of its responder. -/
structure Entry where
  id : String
  revision : Nat
  owner : QuestionOwner
  definition : Question
  resolved : Bool
  answer : Option (Answerer × AnswerOutcome)
  /-- It is in the map of the service. -/
  live : Bool

def Entry.frame (entry : Entry) : QuestionView where
  questionId := entry.id
  revision := entry.revision
  owner := entry.owner
  definition := entry.definition

/-- A task of the question runtime; it knows an entry by its place among those opened so far. -/
inductive Task (ν : Type) where
  | asking (owner : QuestionOwner) (params : JsonTree ν)
  /-- The entry is inserted and not yet announced. -/
  | opened (q : Nat)
  | waiting (q : Nat)
  | woken (q : Nat)
  | resolved (q : Nat)
  /-- The reply is sent; the entry stays until its call ends. -/
  | lingering (q : Nat)
  | answering (params : JsonTree ν)
  | found (q : Nat) (params : JsonTree ν)
  | checked (q : Nat) (params : JsonTree ν) (outcome : AnswerOutcome)
  /-- The answer is accepted, `resolved` is not yet set. -/
  | answered (q : Nat)
  | listing (params : JsonTree ν)
  | listed (views : List QuestionView)
  | finished

/-- The task holds a permit of `operations`. -/
def Task.isAdmitted : Task ν → Bool
  | .lingering _ => false
  | .finished => false
  | _ => true

structure Service (ν : Type) where
  calls : List HostCall
  /-- The questions opened so far. -/
  questions : List Entry
  tasks : List (Task ν)
  /-- What the writer of the output has been given. -/
  emitted : List Frame
  stopped : Bool
  /-- The answers that requests stored: the place of the question and the parameters. -/
  stored : List (Nat × JsonTree ν)

/-- The libraries that a definition and an outcome are read with. -/
structure Readers (ν : Type) where
  numbers : Numbers ν
  question : JsonTree ν → Option Question
  outcome : JsonTree ν → Option AnswerOutcome

/-- What the environment decides in a step of a task: whether the output has room, the identity that
is drawn, and what the store answers, with the revision of what it wrote. -/
structure Input where
  room : Bool
  id : String
  store : Option Nat

inductive Event (ν : Type) where
  | invoke (owner : QuestionOwner)
  /-- The next access of a call. -/
  | access (i : Nat) (room : Bool)
  /-- A `tool_result` for the call. -/
  | reply (i : Nat)
  | cancel (i : Nat) (settled : Bool)
  | ask (params : JsonTree ν)
  | answer (params : JsonTree ν)
  | pending (params : JsonTree ν)
  /-- The next access of a task. -/
  | advance (k : Nat) (input : Input)
  | stop

def operationLimit : Nat := 32

namespace Service

/-! ## Calls -/

/-- `Output::emit`; a frame that finds no room is lost, and the host stops. -/
def emit (s : Service ν) (room : Bool) (frame : Frame) : Service ν :=
  if room then { s with emitted := s.emitted ++ [frame] } else { s with stopped := true }

/-- The token of a call's questions is cancelled. -/
def isCancelled (s : Service ν) (call : String) : Bool :=
  s.calls.any fun c => c.owner.call == call && c.stage.isCancelled

def setStage (s : Service ν) (i : Nat) (call : HostCall) (stage : CallStage) : Service ν :=
  { s with calls := s.calls.set i { call with stage } }

/-- The semaphores of the broker and of the binding have a permit left. -/
def hasCapacity (s : Service ν) (binding : String) : Bool :=
  let held := s.calls.filter (·.stage ≠ .released)
  held.length < 16 && (held.filter (·.owner.binding = binding)).length < 4

/-- The accesses of `Broker::invoke` that need nothing of others, and of the drop of its guard. -/
def access (s : Service ν) (i : Nat) (room : Bool) : Option (Service ν) := do
  let call ← s.calls[i]?
  match call.stage with
  | .admitted => some (s.setStage i call .pending)
  | .pending => some ((s.setStage i call .announced).emit room (.toolCall call.owner))
  | .cancelled settled => some (s.setStage i call (.removed settled))
  | .removed true => some (s.setStage i call .reported)
  | .removed false => some ((s.setStage i call .reported).emit room (.toolCancel call.owner))
  | .reported => some (s.setStage i call .released)
  | _ => none

/-- A settled call has been answered; any other one may end where `invoke` awaits or returns an
error. -/
def cancel (s : Service ν) (i : Nat) (settled : Bool) : Option (Service ν) := do
  let call ← s.calls[i]?
  match call.stage, settled with
  | .admitted, false => some (s.setStage i call (.cancelled false))
  | .announced, false => some (s.setStage i call (.cancelled false))
  | .replied, settled => some (s.setStage i call (.cancelled settled))
  | _, _ => none

/-- `Hub::question_owner`. -/
def questionOwner (s : Service ν) (params : JsonTree ν) : Option QuestionOwner := do
  let call ← s.calls.find? fun c =>
    (params.index "call_id").asStr == some c.owner.call &&
      (c.stage == .pending || c.stage == .announced)
  if (params.index "binding_id").asStr == some call.owner.binding &&
      (params.index "session_id").asStr == some call.owner.session &&
      (params.index "slot_id").asStr == some call.owner.slot then some call.owner
  else none

/-! ## Tasks -/

def setTask (s : Service ν) (k : Nat) (task : Task ν) : Service ν :=
  { s with tasks := s.tasks.set k task }

/-- The entry at a place is given another value. -/
def setEntry (s : Service ν) (q : Nat) (entry : Entry) : Service ν :=
  { s with questions := s.questions.set q entry }

/-- `Service::dispatch`, which refuses an operation beyond the limit. -/
def dispatch (s : Service ν) (task : Task ν) : Service ν :=
  if (s.tasks.filter Task.isAdmitted).length ≥ operationLimit then s
  else { s with tasks := s.tasks ++ [task] }

/-- The map of the service. -/
def entries (s : Service ν) : List Entry := s.questions.filter (·.live)

/-- The definition of a request that passes the checks of `open`. -/
def readDefinition (readers : Readers ν) (params : JsonTree ν) : Option Question := do
  let definition := params.index "definition"
  if textLength readers.numbers definition > 16384 || !validJson readers.numbers definition 0 then
    none
  else
    let question ← readers.question definition
    match question.validate with
    | .error _ => none
    | .ok () =>
        if question.fields.any fun field =>
            match field.kind with
            | .text maxBytes => maxBytes > 16384
            | .integer min max => min < -9007199254740991 || max > 9007199254740991
            | _ => false then none
        else some question

/-- The entries of calls whose token is cancelled leave the map. -/
def retain (s : Service ν) : Service ν :=
  { s with
    questions := s.questions.map fun entry =>
      { entry with live := entry.live && !s.isCancelled entry.owner.call } }

/-- The limits of `open`. -/
def isFull (s : Service ν) (call : String) : Bool :=
  let same := s.entries.filter (·.owner.call = call)
  s.entries.length ≥ 128 || same.length ≥ 8 || same.any (!·.resolved)

/-- `Service::open`, for the task at `k`. -/
def openQuestion (readers : Readers ν) (s : Service ν) (k : Nat) (owner : QuestionOwner)
    (params : JsonTree ν) (input : Input) : Service ν :=
  match readDefinition readers params with
  | none => s.setTask k .finished
  | some definition =>
      let s := s.retain
      if s.isCancelled owner.call || s.stopped || s.isFull owner.call then s.setTask k .finished
      else
        match input.store with
        | none => s.setTask k .finished
        | some revision =>
            { s.setTask k (.opened s.questions.length) with
              questions := s.questions ++ [⟨input.id, revision, owner, definition, false, none, true⟩] }

/-- `Entry::matches`. -/
def matchesParams (s : Service ν) (entry : Entry) (params : JsonTree ν) : Bool :=
  (params.index "call_id").asStr == some entry.owner.call &&
  (params.index "binding_id").asStr == some entry.owner.binding &&
  (params.index "session_id").asStr == some entry.owner.session &&
  (params.index "slot_id").asStr == some entry.owner.slot &&
  (params.index "revision").asStr == some (toString entry.revision) &&
  !s.isCancelled entry.owner.call

/-- The place of the entry that an answer names, if it is live. -/
def find (s : Service ν) (params : JsonTree ν) : Option Nat :=
  match stringParam params "question_id" with
  | .error _ => none
  | .ok id => s.questions.findIdx? fun entry => entry.live && entry.id == id

def readOutcome (readers : Readers ν) (params : JsonTree ν) : Option AnswerOutcome :=
  let outcome := params.index "outcome"
  if textLength readers.numbers outcome > 60000 || !validJson readers.numbers outcome 0 then none
  else readers.outcome outcome

/-- `Service::pending`. -/
def pendingViews (s : Service ν) (params : JsonTree ν) : List QuestionView :=
  let live := s.entries.filter fun entry =>
    !entry.resolved && !s.isCancelled entry.owner.call &&
      match params.get "session_id" with
      | none => true
      | some id => id.asStr == some entry.owner.session
  (live.map Entry.frame).insertionSort fun a b => a.questionId ≤ b.questionId

/-- `PendingQuestion::wait` comes back: with the answer at the gate, or once the call is cancelled
with what cancelling comes to.  Otherwise only the stop of the host ends the wait, and the entry
stays behind. -/
def wake (s : Service ν) (k q : Nat) (entry : Entry) (input : Input) : Option (Service ν) :=
  if entry.answer.isSome then some (s.setTask k (.woken q))
  else if s.isCancelled entry.owner.call then
    let answer := if input.store.isSome then some (.host, .cancelled) else none
    some ((s.setEntry q { entry with answer }).setTask k (.woken q))
  else if s.stopped then
    let answer := if input.store.isSome then some (.host, .cancelled) else none
    some ((s.setEntry q { entry with answer }).setTask k .finished)
  else none

/-- `QuestionResponder::answer`. -/
def storeAnswer (s : Service ν) (k q : Nat) (entry : Entry) (params : JsonTree ν)
    (outcome : AnswerOutcome) (input : Input) : Service ν :=
  match entry.answer with
  | some answer =>
      if answer = (.user, outcome) then s.setTask k (.answered q) else s.setTask k .finished
  | none =>
      if input.store.isSome then
        { (s.setEntry q { entry with answer := some (.user, outcome) }).setTask k (.answered q) with
          stored := s.stored ++ [(q, params)] }
      else s.setTask k .finished

/-- The next access of the task at `k`. -/
def advance (readers : Readers ν) (s : Service ν) (k : Nat) (input : Input) :
    Option (Service ν) := do
  match ← s.tasks[k]? with
  | .asking owner params =>
      if s.questions.any (·.id == input.id) then none
      else some (openQuestion readers s k owner params input)
  | .opened q =>
      let entry ← s.questions[q]?
      some ((s.emit input.room (.questionOpened entry.frame)).setTask k (.waiting q))
  | .waiting q =>
      let entry ← s.questions[q]?
      s.wake k q entry input
  | .woken q =>
      let entry ← s.questions[q]?
      some ((s.setEntry q { entry with resolved := true }).setTask k (.resolved q))
  | .resolved q =>
      let entry ← s.questions[q]?
      some ((s.emit input.room (.questionClosed entry.id entry.owner)).setTask k (.lingering q))
  | .lingering q =>
      let entry ← s.questions[q]?
      if s.isCancelled entry.owner.call || s.stopped then
        some ((s.setEntry q { entry with live := false }).setTask k .finished)
      else none
  | .answering params =>
      match s.find params with
      | none => some (s.setTask k .finished)
      | some q => some (s.setTask k (.found q params))
  | .found q params =>
      let entry ← s.questions[q]?
      if !s.matchesParams entry params then some (s.setTask k .finished)
      else
        match readOutcome readers params with
        | none => some (s.setTask k .finished)
        | some outcome => some (s.setTask k (.checked q params outcome))
  | .checked q params outcome =>
      let entry ← s.questions[q]?
      some (s.storeAnswer k q entry params outcome input)
  | .answered q =>
      let entry ← s.questions[q]?
      some ((s.setEntry q { entry with resolved := true }).setTask k .finished)
  | .listing params => some (s.setTask k (.listed (s.pendingViews params)))
  | .listed views => some ((s.emit input.room (.pendingReply views)).setTask k .finished)
  | .finished => none

def next (readers : Readers ν) : Next (Event ν) (Service ν)
  | s, .invoke owner =>
      if s.calls.any (·.owner.call == owner.call) then none
      else if s.hasCapacity owner.binding then
        some { s with calls := s.calls ++ [⟨owner, .admitted⟩] }
      else some s
  | s, .access i room => s.access i room
  | s, .reply i => do
      let call ← s.calls[i]?
      if call.stage = .announced then some (s.setStage i call .replied) else none
  | s, .cancel i settled => s.cancel i settled
  | s, .ask params =>
      match s.questionOwner params with
      | none => some s
      | some owner => some (s.dispatch (.asking owner params))
  | s, .answer params => some (s.dispatch (.answering params))
  | s, .pending params => some (s.dispatch (.listing params))
  | s, .advance k input => s.advance readers k input
  | s, .stop => some { s with stopped := true }

/-- A host without calls. -/
def start : Service ν := ⟨[], [], [], [], false, []⟩

end Service

end Questions

end Host

end AgentBridge
