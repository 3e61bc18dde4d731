import AgentBridge.Reasoning.Transition
import AgentBridge.Records.Error
import AgentBridge.Records.Interface
import Mathlib.Data.Set.Basic

/-!
# Questions that wait for an answer

A question is answered by any clone of its responder, or cancelled by the waiter or by the drop of
the pending question.  All of them resolve the request under one gate, which they hold while they
call the store, so each is one event; the two polls of the waiter are events of their own.
-/

namespace AgentBridge

open Reasoning

namespace Questions

inductive QuestionError where
  | store (e : StoreError)
  | notQuestion
  | alreadyExists
  | receiverClosed
deriving DecidableEq

/-- What a handle calls of its `RecordStore`, as functions of the state that the store is in. -/
structure Store (σ : Type) where
  get : RecordId → σ → Except StoreError Snapshot
  insert : Draft → σ → Except StoreError Snapshot × σ
  resolve : RecordId → Nat → Draft → σ → Except StoreError Snapshot × σ

variable {σ : Type}

/-- The id of the answer to a request, `question/{length}:{id}/answer`. -/
def answerId (request : RecordId) : RecordId where
  asStr := "question/" ++ (toString request.asStr.utf8ByteSize ++ ":" ++ request.asStr ++ "/answer")
  notBlank := by
    rw [isBlank, String.toList_append, List.all_append]
    rfl

def answerDraft (request : Snapshot) (actor : ActorId) (outcome : AnswerOutcome) : Draft where
  id := answerId request.record.id
  sessionId := request.record.sessionId
  runId := request.record.runId
  actor
  replyToId := some request.record.id
  source := none
  payload := .answer outcome .stored
  state := .complete

/-! ## Opening -/

/-- The checks and calls of `PendingQuestion::open`; its answer is the request that the handle
keeps. -/
def openQuestion (store : Store σ) (request : Draft) (state : σ) :
    Except QuestionError Snapshot × σ :=
  let isQuestion := match request.payload with | .question _ => true | _ => false
  if !isQuestion || request.state ≠ .opened then (.error .notQuestion, state)
  else
    match store.get request.id state with
    | .ok _ => (.error .alreadyExists, state)
    | .error .missingRecord =>
        match store.insert request state with
        | (.ok request, state) =>
            if request.state ≠ .opened then (.error (.store .finalized), state)
            else (.ok request, state)
        | (.error e, state) => (.error (.store e), state)
    | .error e => (.error (.store e), state)

/-! ## The shared state -/

structure Gate where
  /-- The sender of the channel has not been taken. -/
  sender : Bool
  resolved : Option Snapshot

/-- Where the pending question stands: not waited for yet, in `wait` between two polls, in a poll
that found the channel empty, with `wait` finished, or dropped. -/
inductive Waiter where
  | held
  | waiting
  | polled
  | finished
  | gone
deriving DecidableEq

/-- What the calls returned so far; the drop returns nothing to anyone, but its cancellation has a
result. -/
inductive Return where
  | answered (actor : ActorId) (outcome : AnswerOutcome) (result : Except QuestionError Snapshot)
  | waited (result : Except QuestionError Snapshot)
  | dropped (result : Except QuestionError Snapshot)

def Return.result : Return → Except QuestionError Snapshot
  | .answered _ _ result => result
  | .waited result => result
  | .dropped result => result

structure System (σ : Type) where
  store : σ
  gate : Gate
  /-- The value in the channel, unless its receiver is gone. -/
  channel : Option Snapshot
  /-- The cancellation token. -/
  cancelled : Bool
  waiter : Waiter
  returned : List Return

def System.start (store : σ) : System σ := ⟨store, ⟨true, none⟩, none, false, .held, []⟩

section Handle

variable (store : Store σ) (request : Snapshot) (host : ActorId)

def resolve (actor : ActorId) (outcome : AnswerOutcome) (acceptExisting : Bool) (s : System σ) :
    Except QuestionError Snapshot × System σ :=
  match s.gate.resolved with
  | some existing =>
      if acceptExisting ∨
          (existing.record.actor = actor ∧ existing.record.payload = .answer outcome .stored) then
        (.ok existing, s)
      else (.error (.store .alreadyResolved), s)
  | none =>
      match store.resolve request.record.id request.revision (answerDraft request actor outcome)
          s.store with
      | (.error e, state) => (.error (.store e), { s with store := state })
      | (.ok answer, state) =>
          (.ok answer, { s with
            store := state
            gate := ⟨false, some answer⟩
            channel :=
              if s.gate.sender ∧ s.waiter ≠ .gone then some answer else s.channel })

def cancel (s : System σ) : Except QuestionError Snapshot × System σ :=
  resolve store request host .cancelled true s

inductive Event (σ : Type) where
  | answer (actor : ActorId) (outcome : AnswerOutcome)
  | wait
  /-- The first branch of the `select!`: the receiver. -/
  | pollReceiver
  /-- The second one, polled after the first was found pending. -/
  | pollCancelled
  | cancelToken
  | drop
  /-- Somebody else uses the store. -/
  | other (op : σ → σ)

def next : Next (Event σ) (System σ)
  | s, .answer actor outcome =>
      let (result, s) := resolve store request actor outcome false s
      some { s with returned := s.returned ++ [.answered actor outcome result] }
  | s, .wait =>
      match s.waiter with
      | .held => some { s with waiter := .waiting }
      | _ => none
  | s, .pollReceiver =>
      match s.waiter with
      | .waiting =>
          match s.channel with
          | some answer =>
              some { s with waiter := .finished, returned := s.returned ++ [.waited (.ok answer)] }
          | none =>
              if s.gate.sender then some { s with waiter := .polled }
              else some { s with
                waiter := .finished
                returned := s.returned ++ [.waited (.error .receiverClosed)] }
      | _ => none
  | s, .pollCancelled =>
      match s.waiter with
      | .polled =>
          if s.cancelled then
            let (result, s) := cancel store request host s
            some { s with waiter := .finished, returned := s.returned ++ [.waited result] }
          else some { s with waiter := .waiting }
      | _ => none
  | s, .cancelToken => some { s with cancelled := true }
  | s, .drop =>
      match s.waiter with
      | .gone => none
      -- a poll runs to its end before the future is dropped
      | .polled => none
      | _ =>
          let (result, s) := cancel store request host s
          some { s with waiter := .gone, returned := s.returned ++ [.dropped result] }
  | s, .other op => some { s with store := op s.store }

end Handle

end Questions

end AgentBridge
