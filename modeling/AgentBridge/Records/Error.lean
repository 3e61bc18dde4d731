import Mathlib.Order.Basic

/-! # Errors of the record store -/

namespace AgentBridge

inductive StoreError where
  | invalidExecutionRelation
  | executionRelationConflict
  | executionCycle
  | missingSession
  | missingRun
  | missingRecord
  | identityConflict
  | wrongSession
  | revisionConflict
  | finalized
  | invalidPayload
  | invalidDecision
  | alreadyResolved
  | openContextRecord
  | invalidPageSize
  | invalidChangeCursor
  | readOnly
  /-- The caller stopped waiting; an in-progress mutation may still commit. -/
  | storageTimedOut
  | storageUnavailable
  | storageOverloaded
  | schemaMigrationRequired (found expected : Int)
  | sequenceExhausted
  | poisoned
  | busy
  | database (message : String)
  | corruptData (message : String)
  | unsupportedSchemaVersion (version : Int)
  | unsupportedDataVersion (version : Nat)
  | unversionedSchema
  | missingContinuation
  | continuationClaimed
  | continuationConflict
  | invalidContinuation
deriving DecidableEq

/-- How a call ends when it does not return a value: with an error of the store, or in a panic of
an `unwrap` or an index that found nothing. -/
inductive Fault where
  | error (e : StoreError)
  | panic
deriving DecidableEq

instance : Coe StoreError Fault := ⟨Fault.error⟩

/-- The `?` of a call that cannot panic, in a call that can. -/
def orFault {α : Type} : Except StoreError α → Except Fault α
  | .ok a => .ok a
  | .error e => .error (.error e)

@[simp] theorem orFault_ok {α : Type} (a : α) : orFault (.ok a) = .ok a := rfl

@[simp] theorem orFault_error {α : Type} (e : StoreError) :
    orFault (.error e : Except StoreError α) = .error (.error e) := rfl

end AgentBridge
