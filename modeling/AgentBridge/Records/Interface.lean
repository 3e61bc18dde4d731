import AgentBridge.Reasoning.Machine
import AgentBridge.Records.Continuation
import AgentBridge.Records.Execution

/-!
# The store interface

The calls of `RecordStore`, `ContinuationStore` and `ExecutionStore`, each with the type of its
answer.  A mutex or an immediate transaction makes each call atomic, so a run of a store is a list
of calls, whoever the callers are.
-/

namespace AgentBridge

open Reasoning

inductive StoreCall : Type → Type where
  | createSession (id : SessionId) : StoreCall Unit
  | registerRun (spec : RunSpec) : StoreCall Bool
  | insert (draft : Draft) : StoreCall Snapshot
  | checkpoint (id : RecordId) (expectedRevision : Nat) (payload : Payload) (state : RecordState) :
      StoreCall Snapshot
  | resolve (request : RecordId) (expectedRevision : Nat) (decision : Draft) : StoreCall Snapshot
  | get (id : RecordId) : StoreCall Snapshot
  | getRun (id : RunId) : StoreCall RunSpec
  | list (session : SessionId) (after : Option Nat) (limit : Nat) : StoreCall (List Snapshot)
  | saveContinuation (value : Continuation) : StoreCall ContinuationRecord
  | getContinuation (id : ContinuationId) : StoreCall ContinuationRecord
  | claimContinuation (id : ContinuationId) : StoreCall ContinuationRecord
  | linkExecution (relation : ExecutionRelation) : StoreCall ExecutionRelation
  | executionParent (child : RunId) : StoreCall (Option ExecutionRelation)
  | executionChildren (parent : RunId) : StoreCall (List ExecutionRelation)

/-- The calls that write records or runs. -/
def writesHistory {β : Type} : StoreCall β → Bool
  | .registerRun _ => true
  | .insert _ => true
  | .checkpoint _ _ _ _ => true
  | .resolve _ _ _ => true
  | _ => false

def createsSession {β : Type} : StoreCall β → Bool
  | .createSession _ => true
  | _ => false

abbrev StoreOp := Op StoreCall

/-- A store with states of type `σ`. -/
abbrev StoreMachine (σ : Type) := Machine StoreCall (Except Fault) σ

end AgentBridge
