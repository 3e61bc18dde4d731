import AgentBridge.Records.Interface
import AgentBridge.Records.Rules
import Mathlib.Data.List.Sort

/-!
# The in-memory store

Each call takes the state the mutex guards and returns its answer with the state it leaves, also
when it fails: what a failing call changed before its error would stay changed.
-/

namespace AgentBridge

open Reasoning

namespace MemoryStore

structure State where
  executionRelations : HashMap RunId ExecutionRelation
  continuations : Registry
  sessions : HashMap SessionId (List RecordId)
  runs : HashMap RunId RunSpec
  records : HashMap RecordId Entry
  decisions : HashMap RecordId RecordId

def State.default : State := ⟨∅, .empty, ∅, ∅, ∅, ∅⟩

/-- `state.sessions.get(..).ok_or(MissingSession)`. -/
def State.findSession (state : State) (id : SessionId) : Except Fault (List RecordId) :=
  match state.sessions.lookup id with
  | some session => .ok session
  | none => .error (.error .missingSession)

def State.checkRun (state : State) (draft : Draft) : Except Fault Unit :=
  match draft.runId with
  | none => .ok ()
  | some run =>
      match state.runs.lookup run with
      | none => .error (.error .missingRun)
      | some run =>
          if run.sessionId ≠ draft.sessionId then .error (.error .wrongSession) else .ok ()

def State.checkReply (state : State) (draft : Draft) : Except Fault Unit :=
  match draft.replyToId with
  | none => .ok ()
  | some reply =>
      match state.records.lookup reply with
      | none => .error (.error .missingRecord)
      | some _ => .ok ()

def State.prepare (state : State) (draft : Draft) : Except Fault Snapshot := do
  orFault (Rules.validate draft.payload draft.state)
  let session ← state.findSession draft.sessionId
  state.checkRun draft
  state.checkReply draft
  if session.length ≤ u64Max then .ok (Rules.created draft session.length)
  else .error (.error .sequenceExhausted)

/-- `commit`; a missing session is the panic of `get_mut(..).unwrap()`. -/
def State.commit (state : State) (snapshot : Snapshot) : Except Fault Unit × State :=
  match state.sessions.lookup snapshot.record.sessionId with
  | none => (.error .panic, state)
  | some ids =>
      (.ok (), { state with
        sessions := state.sessions.insert snapshot.record.sessionId (ids ++ [snapshot.record.id])
        records := state.records.insert snapshot.record.id ⟨snapshot, snapshot⟩ })

def createSession (id : SessionId) (state : State) : Except Fault Unit × State :=
  match state.sessions.lookup id with
  | some _ => (.ok (), state)
  | none => (.ok (), { state with sessions := state.sessions.insert id [] })

/-- The loop of `register_run` over the selected records. -/
def checkContextRecords (state : State) : List RecordId → Except Fault Unit
  | [] => .ok ()
  | id :: ids =>
      match state.records.lookup id with
      | none => .error (.error .missingRecord)
      | some entry =>
          if entry.current.state.isFinal then checkContextRecords state ids
          else .error (.error .openContextRecord)

def checkContinuation (state : State) (spec : RunSpec) : Except Fault Unit :=
  match spec.continuation with
  | none => .ok ()
  | some id => do
      let saved ← orFault (state.continuations.get id)
      if saved.state ≠ .claimed ∨ saved.latest = false ∨
          saved.continuation.sessionId ≠ spec.sessionId ∨
          saved.continuation.slotId ≠ spec.slotId then
        .error (.error .invalidContinuation)
      else .ok ()

def registerRun (spec : RunSpec) (state : State) : Except Fault Bool × State :=
  match state.runs.lookup spec.id with
  | some existing =>
      if existing = spec then (.ok false, state) else (.error (.error .identityConflict), state)
  | none =>
  match state.sessions.lookup spec.sessionId with
  | none => (.error (.error .missingSession), state)
  | some _ =>
  match checkContinuation state spec with
  | .error e => (.error e, state)
  | .ok () =>
  match checkContextRecords state spec.context.records with
  | .error e => (.error e, state)
  | .ok () => (.ok true, { state with runs := state.runs.insert spec.id spec })

def insert (draft : Draft) (state : State) : Except Fault Snapshot × State :=
  if draft.payload.isResponse then (.error (.error .invalidDecision), state)
  else
  match state.records.lookup draft.id with
  | some entry =>
      if Rules.sameDraft entry.initial draft then (.ok entry.current, state)
      else (.error (.error .identityConflict), state)
  | none =>
  if draft.payload.isRequest ∧ draft.state ≠ .opened then (.error (.error .invalidPayload), state)
  else
  match state.prepare draft with
  | .error e => (.error e, state)
  | .ok snapshot =>
      match state.commit snapshot with
      | (.error e, state) => (.error e, state)
      | (.ok (), state) => (.ok snapshot, state)

def checkpoint (id : RecordId) (expectedRevision : Nat) (payload : Payload) (next : RecordState)
    (state : State) : Except Fault Snapshot × State :=
  match state.records.lookup id with
  | none => (.error (.error .missingRecord), state)
  | some entry =>
  match Rules.checkpoint entry.current expectedRevision payload next with
  | .error e => (.error (.error e), state)
  | .ok snapshot =>
      (.ok snapshot,
        { state with records := state.records.insert id { entry with current := snapshot } })

/-- `resolve`; the two panics are those of `records.get(existing_id).unwrap()` and of
`records.get_mut(request).unwrap()`. -/
def resolve (request : RecordId) (expectedRevision : Nat) (decision : Draft) (state : State) :
    Except Fault Snapshot × State :=
  match state.decisions.lookup request with
  | some existingId =>
      match state.records.lookup existingId with
      | none => (.error .panic, state)
      | some entry =>
          if Rules.sameDraft entry.initial decision then (.ok entry.current, state)
          else (.error (.error .alreadyResolved), state)
  | none =>
  if (state.records.lookup decision.id).isSome then (.error (.error .identityConflict), state)
  else
  match state.records.lookup request with
  | none => (.error (.error .missingRecord), state)
  | some original =>
  match Rules.resolveRequest original.current expectedRevision decision with
  | .error e => (.error (.error e), state)
  | .ok resolved =>
  match state.prepare decision with
  | .error e => (.error e, state)
  | .ok snapshot =>
      let state := { state with
        decisions := state.decisions.insert request snapshot.record.id }
      match state.records.lookup request with
      | none => (.error .panic, state)
      | some entry =>
          let state := { state with
            records := state.records.insert request { entry with current := resolved } }
          match state.commit snapshot with
          | (.error e, state) => (.error e, state)
          | (.ok (), state) => (.ok snapshot, state)

def get (id : RecordId) (state : State) : Except Fault Snapshot :=
  match state.records.lookup id with
  | some entry => .ok entry.current
  | none => .error (.error .missingRecord)

def getRun (id : RunId) (state : State) : Except Fault RunSpec :=
  match state.runs.lookup id with
  | some spec => .ok spec
  | none => .error (.error .missingRun)

/-- The `map` of `list`; an id without a record is the panic of `state.records[id]`. -/
def currents (state : State) : List RecordId → Except Fault (List Snapshot)
  | [] => .ok []
  | id :: ids => do
      let entry ← match state.records.lookup id with
        | some entry => .ok entry
        | none => .error .panic
      let rest ← currents state ids
      .ok (entry.current :: rest)

def list (session : SessionId) (after : Option Nat) (limit : Nat) (state : State) :
    Except Fault (List Snapshot) :=
  if limit < 1 ∨ 1000 < limit then .error (.error .invalidPageSize)
  else
  match state.sessions.lookup session with
  | none => .error (.error .missingSession)
  | some ids =>
      let start := match after with
        | none => 0
        | some cursor => (checkedSucc cursor).getD u64Max
      currents state ((ids.drop start).take limit)

theorem unvisited_lt {keys visited : List RunId} {run : RunId} (hkey : run ∈ keys)
    (hnew : run ∉ visited) :
    (keys.filter (· ∉ run :: visited)).length < (keys.filter (· ∉ visited)).length := by
  have hfilter : keys.filter (· ∉ run :: visited) =
      (keys.filter (· ∉ visited)).filter (· ≠ run) := by
    rw [List.filter_filter]
    congr 1
    funext x
    simp [not_or]
  rw [hfilter, List.length_filter_lt_length_iff_exists]
  exact ⟨run, List.mem_filter.mpr ⟨hkey, by simpa using hnew⟩, by simp⟩

/-- The loop of `link_execution` up the ancestors of a run.  The visited runs other than the last
one have an edge, so the loop ends. -/
def walkAncestors (relations : HashMap RunId ExecutionRelation) (child ancestor : RunId)
    (visited : List RunId) : Except Fault Unit :=
  if ancestor = child ∨ ancestor ∈ visited then .error (.error .executionCycle)
  else
    match _hedge : relations.lookup ancestor with
    | none => .ok ()
    | some edge => walkAncestors relations child edge.parent (ancestor :: visited)
termination_by (relations.keys.filter (· ∉ visited)).length
decreasing_by
  rename_i hnew
  have hkey : ancestor ∈ relations.keys := AList.lookup_isSome.mp (by rw [_hedge]; rfl)
  exact unvisited_lt hkey fun hv => hnew (.inr hv)

theorem walkAncestors_eq (relations : HashMap RunId ExecutionRelation) (child ancestor : RunId)
    (visited : List RunId) :
    walkAncestors relations child ancestor visited =
      if ancestor = child ∨ ancestor ∈ visited then .error (.error .executionCycle)
      else
        match relations.lookup ancestor with
        | none => .ok ()
        | some edge => walkAncestors relations child edge.parent (ancestor :: visited) := by
  rw [walkAncestors]
  split
  · rfl
  · split
    · next heq => simp only [heq]
    · next heq => simp only [heq]

/-- The loop of `link_execution` over the child's selected records. -/
def checkChildRecords (state : State) (child : RunSpec) : List RecordId → Except Fault Unit
  | [] => .ok ()
  | id :: ids =>
      match state.records.lookup id with
      | none => .error (.error .missingRecord)
      | some entry =>
          if entry.current.record.sessionId ≠ child.sessionId then .error (.error .wrongSession)
          else checkChildRecords state child ids

def linkExecution (relation : ExecutionRelation) (state : State) :
    Except Fault ExecutionRelation × State :=
  match state.executionRelations.lookup relation.child with
  | some existing =>
      if existing = relation then (.ok existing, state)
      else (.error (.error .executionRelationConflict), state)
  | none =>
  match state.runs.lookup relation.parent with
  | none => (.error (.error .missingRun), state)
  | some parent =>
  match state.runs.lookup relation.child with
  | none => (.error (.error .missingRun), state)
  | some child =>
  match relation.validate parent child with
  | .error e => (.error (.error e), state)
  | .ok () =>
  if (state.executionRelations.lookup relation.parent).any
        (fun edge => edge.childAuthority != relation.parentAuthority) ||
      state.executionRelations.values.any
        (fun edge => edge.parent == relation.child &&
          edge.parentAuthority != relation.childAuthority) then
    (.error (.error .invalidExecutionRelation), state)
  else
  match checkChildRecords state child child.context.records with
  | .error e => (.error e, state)
  | .ok () =>
  match walkAncestors state.executionRelations relation.child relation.parent [] with
  | .error e => (.error e, state)
  | .ok () =>
      (.ok relation, { state with
        executionRelations := state.executionRelations.insert relation.child relation })

def executionParent (child : RunId) (state : State) : Except Fault (Option ExecutionRelation) :=
  .ok (state.executionRelations.lookup child)

def executionChildren (parent : RunId) (state : State) : Except Fault (List ExecutionRelation) :=
  .ok ((state.executionRelations.values.filter fun edge => edge.parent == parent).insertionSort
    fun a b => a.child.asStr ≤ b.child.asStr)

/-- A registry call under the store's mutex. -/
def withRegistry {α : Type} (state : State)
    (action : Registry → Except StoreError α × Registry) : Except Fault α × State :=
  (orFault (action state.continuations).1,
    { state with continuations := (action state.continuations).2 })

def saveContinuation (value : Continuation) (state : State) :
    Except Fault ContinuationRecord × State :=
  match state.sessions.lookup value.sessionId with
  | none => (.error (.error .missingSession), state)
  | some _ => withRegistry state fun registry => registry.save value

def getContinuation (id : ContinuationId) (state : State) : Except Fault ContinuationRecord :=
  orFault (state.continuations.get id)

def claimContinuation (id : ContinuationId) (state : State) :
    Except Fault ContinuationRecord × State :=
  withRegistry state fun registry => registry.claim id

def exec {β : Type} : StoreCall β → State → Except Fault β × State
  | .createSession id, state => createSession id state
  | .registerRun spec, state => registerRun spec state
  | .insert draft, state => insert draft state
  | .checkpoint id expectedRevision payload next, state =>
      checkpoint id expectedRevision payload next state
  | .resolve request expectedRevision decision, state =>
      resolve request expectedRevision decision state
  | .get id, state => (get id state, state)
  | .getRun id, state => (getRun id state, state)
  | .list session after limit, state => (list session after limit state, state)
  | .saveContinuation value, state => saveContinuation value state
  | .getContinuation id, state => (getContinuation id state, state)
  | .claimContinuation id, state => claimContinuation id state
  | .linkExecution relation, state => linkExecution relation state
  | .executionParent child, state => (executionParent child state, state)
  | .executionChildren parent, state => (executionChildren parent state, state)

def machine : StoreMachine State := ⟨exec⟩

end MemoryStore

end AgentBridge
