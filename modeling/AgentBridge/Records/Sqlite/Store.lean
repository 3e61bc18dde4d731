import AgentBridge.Records.Sqlite.Schema
import AgentBridge.Records.Interface

/-!
# The SQLite store

Reads decode rows.  Each mutation is an action on the database in an immediate transaction: when it
fails, the database stays as it was.
-/

namespace AgentBridge

open Reasoning

namespace SqliteStore

variable {Text : Type} (J : SerdeJson Text)

def parseState : String → Except StoreError RecordState
  | "open" => .ok .opened
  | "complete" => .ok .complete
  | "interrupted" => .ok .interrupted
  | _ => .error (.corruptData "invalid record state")

def id {kind : IdKind} (value : String) : Except StoreError (Identifier kind) :=
  match Identifier.new value with
  | .ok id => .ok id
  | .error e => .error (.corruptData e.toString)

/-- `Option::map` of a fallible function, transposed. -/
def transpose {α β : Type} (f : α → Except StoreError β) : Option α → Except StoreError (Option β)
  | none => .ok none
  | some a => (f a).map some

/-- `u64::try_from`. -/
def number (value : Int) : Except StoreError Nat :=
  if 0 ≤ value then .ok value.toNat else .error (.corruptData "negative sequence or revision")

/-- `i64::try_from`. -/
def tryI64 (value : Nat) : Option Int := if (value : Int) ≤ i64Max then some value else none

/-! ## Reading -/

/-- The check of a payload read; `validate` fails with `InvalidPayload` only. -/
def validateRead (payload : Payload) (state : RecordState) : Except StoreError Unit :=
  match Rules.validate payload state with
  | .ok () => .ok ()
  | .error _ => .error (.corruptData "record store: InvalidPayload")

def RowData.decodeCurrent {Text : Type} (J : SerdeJson Text) (row : RowData Text) : Except StoreError Snapshot := do
  let recordId ← SqliteStore.id row.id
  let sessionId ← SqliteStore.id row.session
  let runId ← transpose SqliteStore.id row.run
  let sequence ← number row.sequence
  let actor ← SqliteStore.id row.actor
  let replyToId ← transpose SqliteStore.id row.reply
  let payload ← Codec.decode J row.payload
  let source ← transpose (Codec.decode J) row.source
  let revision ← number row.revision
  let state ← parseState row.state
  validateRead payload state
  .ok {
    record := { id := recordId, sessionId, runId, sequence, actor, replyToId, payload }
    source, revision, state }

def RowData.decode (row : RowData Text) : Except StoreError Entry := do
  let current ← row.decodeCurrent J
  match row.initial with
  | some text => do
      let content ← (Codec.decode J text : Except StoreError InitialContent)
      validateRead content.payload content.state
      let initial : Snapshot := { current with
        record := { current.record with payload := content.payload }
        state := content.state
        revision := 0 }
      .ok ⟨initial, current⟩
  | none =>
      if current.revision ≠ 0 then .error (.corruptData "updated record has no creation snapshot")
      else .ok ⟨current, current⟩

def entry (db : Db Text) (record : RecordId) : Except StoreError (Option Entry) :=
  transpose (RowData.decode J) (db.records.lookup record.asStr)

def sessionSequence (db : Db Text) (session : SessionId) : Except StoreError Int :=
  match db.sessions.lookup session.asStr with
  | some next => .ok next
  | none => .error .missingSession

def RunRow.decode (run : RunId) (row : RunRow Text) : Except StoreError RunSpec := do
  let sessionId ← id row.session
  let slotId ← id row.slot
  let context ← (Codec.decode J row.context : Except StoreError ContextManifest)
  let config ← transpose (Codec.decode J) row.config
  let continuation ← transpose id row.continuation
  .ok { id := run, sessionId, slotId, context, config := config.getD .default, continuation }

def readRun (db : Db Text) (run : RunId) : Except StoreError (Option RunSpec) :=
  transpose (RunRow.decode J run) (db.runs.lookup run.asStr)

def parseContinuationState : String → Except StoreError ContinuationState
  | "available" => .ok .available
  | "claimed" => .ok .claimed
  | _ => .error (.corruptData "invalid continuation state")

def ContinuationRow.decode (id : ContinuationId) (row : ContinuationRow Text) :
    Except StoreError ContinuationRecord := do
  let value ← (Codec.decode J row.descriptor : Except StoreError Continuation)
  value.validate
  if value.id ≠ id ∨ value.sessionId.asStr ≠ row.session ∨ value.adapter ≠ row.adapter ∨
      value.scope ≠ row.scope ∨ value.nativeKey ≠ row.nativeKey ∨
      value.predecessor.map (·.asStr) ≠ row.predecessor then
    .error (.corruptData "continuation descriptor does not match its indexed identity")
  else do
    let state ← parseContinuationState row.state
    .ok ⟨value, state, row.latest⟩

/-- `continuation::read`. -/
def readContinuation (db : Db Text) (id : ContinuationId) :
    Except StoreError (Option ContinuationRecord) :=
  transpose (ContinuationRow.decode J id) (db.continuations.lookup id.asStr)

def RelationRow.decode (db : Db Text) (child : RunId) (row : RelationRow Text) :
    Except StoreError ExecutionRelation := do
  let relation ← (Codec.decode J row.relation : Except StoreError ExecutionRelation)
  if relation.child ≠ child ∨ relation.parent.asStr ≠ row.parent then
    .error (.corruptData "execution relation identity mismatch")
  else
    match ← readRun J db relation.parent with
    | none => .error .missingRun
    | some parent =>
    match ← readRun J db child with
    | none => .error .missingRun
    | some child =>
    match relation.validate parent child with
    | .error _ => .error (.corruptData "invalid execution relation")
    | .ok () => .ok relation

/-- `execution::read`. -/
def readRelation (db : Db Text) (child : RunId) : Except StoreError (Option ExecutionRelation) :=
  transpose (RelationRow.decode J db child) (db.executionRelations.lookup child.asStr)

/-! ## Rows written -/

def checkRun (db : Db Text) (draft : Draft) : Except StoreError Unit :=
  match draft.runId with
  | none => .ok ()
  | some run => do
      match ← readRun J db run with
      | none => .error .missingRun
      | some run => if run.sessionId ≠ draft.sessionId then .error .wrongSession else .ok ()

def checkReply (db : Db Text) (draft : Draft) : Except StoreError Unit :=
  match draft.replyToId with
  | none => .ok ()
  | some reply => do
      match ← entry J db reply with
      | none => .error .missingRecord
      | some _ => .ok ()

def prepare (db : Db Text) (draft : Draft) : Except StoreError Snapshot := do
  Rules.validate draft.payload draft.state
  let sequence ← sessionSequence db draft.sessionId
  if sequence = i64Max then .error .sequenceExhausted
  else do
    checkRun J db draft
    checkReply J db draft
    let sequence ← number sequence
    .ok (Rules.created draft sequence)

def insertRow (db : Db Text) (snapshot : Snapshot) : Except StoreError (Db Text) := do
  let record := snapshot.record
  let source ← transpose (Codec.encode J) snapshot.source
  let payload ← Codec.encode J record.payload
  let db ← db.insertRecord {
    id := record.id.asStr
    session := record.sessionId.asStr
    run := record.runId.map (·.asStr)
    sequence := asI64 record.sequence
    actor := record.actor.asStr
    reply := record.replyToId.map (·.asStr)
    source, payload
    state := stateName snapshot.state
    revision := 0
    initial := none } (.payload record.payload :: (snapshot.source.map Document.source).toList)
  db.incrementSequence record.sessionId.asStr

def updateRow (db : Db Text) (old new : Snapshot) : Except StoreError (Db Text) :=
  if old = new then .ok db
  else do
    let revision ← match tryI64 new.revision with
      | some revision => .ok revision
      | none => .error .sequenceExhausted
    let content := if old.revision = 0 then
      some (⟨old.record.payload, old.state⟩ : InitialContent) else none
    let initial ← transpose (Codec.encode J) content
    let payload ← Codec.encode J new.record.payload
    let (changed, db) ← db.updateRecord old.record.id.asStr (asI64 old.revision) payload
      (stateName new.state) revision initial
      (.payload new.record.payload :: (content.map Document.initial).toList)
    if changed ≠ 1 then .error .revisionConflict else .ok db

/-! ## The calls -/

/-- The transaction around a mutation. -/
def write {α : Type} (action : Db Text → Except StoreError (α × Db Text)) (db : Db Text) :
    Except StoreError α × Db Text :=
  match action db with
  | .ok (a, db) => (.ok a, db)
  | .error e => (.error e, db)

def createSession (id : SessionId) (db : Db Text) : Except StoreError (Unit × Db Text) :=
  .ok ((), db.insertSession id.asStr)

def checkContinuation (db : Db Text) (spec : RunSpec) : Except StoreError Unit :=
  match spec.continuation with
  | none => .ok ()
  | some id => do
      match ← readContinuation J db id with
      | none => .error .missingContinuation
      | some saved =>
          if saved.state ≠ .claimed ∨ saved.latest = false ∨
              saved.continuation.sessionId ≠ spec.sessionId ∨
              saved.continuation.slotId ≠ spec.slotId then
            .error .invalidContinuation
          else .ok ()

/-- The loop of `register_run` over the selected records. -/
def checkContextRecords (db : Db Text) : List RecordId → Except StoreError Unit
  | [] => .ok ()
  | id :: ids => do
      match ← entry J db id with
      | none => .error .missingRecord
      | some existing =>
          if existing.current.state.isFinal then checkContextRecords db ids
          else .error .openContextRecord

def registerRun (spec : RunSpec) (db : Db Text) : Except StoreError (Bool × Db Text) := do
  match ← readRun J db spec.id with
  | some existing => if existing = spec then .ok (false, db) else .error .identityConflict
  | none => do
      let _ ← sessionSequence db spec.sessionId
      checkContinuation J db spec
      checkContextRecords J db spec.context.records
      let context ← Codec.encode J spec.context
      let config ← Codec.encode J spec.config
      let db ← db.insertRun spec.id.asStr {
        session := spec.sessionId.asStr
        slot := spec.slotId.asStr
        context
        config := some config
        continuation := spec.continuation.map (·.asStr) } [.context spec.context, .config spec.config]
      .ok (true, db)

def insert (draft : Draft) (db : Db Text) : Except StoreError (Snapshot × Db Text) :=
  if draft.payload.isResponse then .error .invalidDecision
  else do
    match ← entry J db draft.id with
    | some existing =>
        if Rules.sameDraft existing.initial draft then .ok (existing.current, db)
        else .error .identityConflict
    | none =>
        if draft.payload.isRequest ∧ draft.state ≠ .opened then .error .invalidPayload
        else do
          let snapshot ← prepare J db draft
          let db ← insertRow J db snapshot
          .ok (snapshot, db)

def checkpoint (id : RecordId) (expectedRevision : Nat) (payload : Payload) (state : RecordState)
    (db : Db Text) : Except StoreError (Snapshot × Db Text) := do
  match ← entry J db id with
  | none => .error .missingRecord
  | some existing => do
      let old := existing.current
      let new ← Rules.checkpoint old expectedRevision payload state
      let db ← updateRow J db old new
      .ok (new, db)

def resolve (request : RecordId) (expectedRevision : Nat) (decision : Draft) (db : Db Text) :
    Except StoreError (Snapshot × Db Text) :=
  match db.decisions.lookup request.asStr with
  | some responseId => do
      let responseId ← id responseId
      match ← entry J db responseId with
      | none => .error .missingRecord
      | some existing =>
          if Rules.sameDraft existing.initial decision then .ok (existing.current, db)
          else .error .alreadyResolved
  | none => do
      match ← entry J db decision.id with
      | some _ => .error .identityConflict
      | none =>
      match ← entry J db request with
      | none => .error .missingRecord
      | some existing => do
          let original := existing.current
          let resolved ← Rules.resolveRequest original expectedRevision decision
          let response ← prepare J db decision
          let db ← updateRow J db original resolved
          let db ← insertRow J db response
          let db ← db.insertDecision request.asStr response.record.id.asStr
          .ok (response, db)

def get (id : RecordId) (db : Db Text) : Except StoreError Snapshot := do
  match ← entry J db id with
  | some existing => .ok existing.current
  | none => .error .missingRecord

def getRun (id : RunId) (db : Db Text) : Except StoreError RunSpec := do
  match ← readRun J db id with
  | some spec => .ok spec
  | none => .error .missingRun

/-- Rows decoded in order, up to the first that does not decode. -/
def decodeRows : List (RowData Text) → Except StoreError (List Snapshot)
  | [] => .ok []
  | row :: rows => do
      let existing ← row.decode J
      let rest ← decodeRows rows
      .ok (existing.current :: rest)

def list (session : SessionId) (after : Option Nat) (limit : Nat) (db : Db Text) :
    Except StoreError (List Snapshot) :=
  if limit < 1 ∨ 1000 < limit then .error .invalidPageSize
  else do
    let _ ← sessionSequence db session
    match after with
    | none => decodeRows J (db.selectRecords session.asStr (-1) limit)
    | some after =>
        match tryI64 after with
        | some after => decodeRows J (db.selectRecords session.asStr after limit)
        | none => .ok []

/-- The latest continuation of the value's native session, as `save_continuation` reads it. -/
def readLatest (db : Db Text) (value : Continuation) :
    Except StoreError (Option ContinuationRecord) :=
  match db.selectLatest value.adapter value.scope value.nativeKey with
  | none => .ok none
  | some previous => do
      let previous ← id previous
      readContinuation J db previous

def saveContinuation (value : Continuation) (db : Db Text) :
    Except StoreError (ContinuationRecord × Db Text) := do
  let _ ← sessionSequence db value.sessionId
  value.validate
  match ← readContinuation J db value.id with
  | some existing =>
      if existing.continuation = value then .ok (existing, db) else .error .identityConflict
  | none => do
      let previous ← readLatest J db value
      value.validateSuccessor previous
      let db := match previous with
        | some previous => db.updateContinuation previous.continuation.id.asStr fun row =>
            { row with latest := false }
        | none => db
      let descriptor ← Codec.encode J value
      let db ← db.insertContinuation value.id.asStr {
        session := value.sessionId.asStr
        adapter := value.adapter
        scope := value.scope
        nativeKey := value.nativeKey
        predecessor := value.predecessor.map (·.asStr)
        descriptor
        state := "available"
        latest := true } [.continuation value]
      .ok (⟨value, .available, true⟩, db)

def getContinuation (id : ContinuationId) (db : Db Text) :
    Except StoreError ContinuationRecord := do
  match ← readContinuation J db id with
  | some record => .ok record
  | none => .error .missingContinuation

def claimContinuation (id : ContinuationId) (db : Db Text) :
    Except StoreError (ContinuationRecord × Db Text) := do
  match ← readContinuation J db id with
  | none => .error .missingContinuation
  | some record =>
      if record.state ≠ .available ∨ record.latest = false then .error .continuationClaimed
      else
        .ok ({ record with state := .claimed },
          db.updateContinuation id.asStr fun row => { row with state := "claimed" })

/-- The loop of `link_execution` over the relations whose parent is the child. -/
def checkDescendants (db : Db Text) (relation : ExecutionRelation) :
    List String → Except StoreError Unit
  | [] => .ok ()
  | descendant :: descendants => do
      let run ← id descendant
      match ← readRelation J db run with
      | none => checkDescendants db relation descendants
      | some edge =>
          if edge.parentAuthority ≠ relation.childAuthority then .error .invalidExecutionRelation
          else checkDescendants db relation descendants

/-- The loop of `link_execution` over the child's selected records. -/
def checkChildRecords (db : Db Text) (child : RunSpec) : List RecordId → Except StoreError Unit
  | [] => .ok ()
  | id :: ids => do
      match ← entry J db id with
      | none => .error .missingRecord
      | some existing =>
          if existing.current.record.sessionId ≠ child.sessionId then .error .wrongSession
          else checkChildRecords db child ids

theorem unvisited_lt {keys : List String} {visited : List RunId} {run : RunId}
    (hkey : run.asStr ∈ keys) (hnew : run ∉ visited) :
    (keys.filter fun key => key ∉ (run :: visited).map (·.asStr)).length <
      (keys.filter fun key => key ∉ visited.map (·.asStr)).length := by
  have hfilter : (keys.filter fun key => key ∉ (run :: visited).map (·.asStr)) =
      (keys.filter fun key => key ∉ visited.map (·.asStr)).filter (· ≠ run.asStr) := by
    rw [List.filter_filter]
    congr 1
    funext key
    simp [not_or]
  have hout : run.asStr ∉ visited.map (·.asStr) := by
    intro hmem
    obtain ⟨other, hother, heq⟩ := List.mem_map.mp hmem
    exact hnew (Identifier.asStr_inj.mp heq ▸ hother)
  rw [hfilter, List.length_filter_lt_length_iff_exists]
  exact ⟨run.asStr, List.mem_filter.mpr ⟨hkey, by simpa using hout⟩, by simp⟩

/-- The loop of `link_execution` up the ancestors of a run. -/
def walkAncestors (db : Db Text) (child ancestor : RunId) (visited : List RunId) :
    Except StoreError Unit :=
  if ancestor = child ∨ ancestor ∈ visited then .error .executionCycle
  else
    match _hread : readRelation J db ancestor with
    | .error e => .error e
    | .ok none => .ok ()
    | .ok (some edge) => walkAncestors db child edge.parent (ancestor :: visited)
termination_by (db.executionRelations.keys.filter fun key => key ∉ visited.map (·.asStr)).length
decreasing_by
  rename_i hnew
  refine unvisited_lt ?_ fun hv => hnew (.inr hv)
  refine AList.lookup_isSome.mp ?_
  cases hrow : db.executionRelations.lookup ancestor.asStr with
  | none => simp [readRelation, transpose, hrow] at _hread
  | some row => rfl

def linkExecution (relation : ExecutionRelation) (db : Db Text) :
    Except StoreError (ExecutionRelation × Db Text) := do
  match ← readRelation J db relation.child with
  | some existing =>
      if existing = relation then .ok (existing, db) else .error .executionRelationConflict
  | none =>
  match ← readRun J db relation.parent with
  | none => .error .missingRun
  | some parent =>
  match ← readRun J db relation.child with
  | none => .error .missingRun
  | some child => do
      relation.validate parent child
      let edge ← readRelation J db relation.parent
      if edge.any fun edge => edge.childAuthority != relation.parentAuthority then
        .error .invalidExecutionRelation
      else do
        checkDescendants J db relation (db.selectChildren relation.child.asStr)
        checkChildRecords J db child child.context.records
        walkAncestors J db relation.child relation.parent []
        let document ← Codec.encode J relation
        let db ← db.insertRelation relation.child.asStr ⟨relation.parent.asStr, document⟩
          [.relation relation]
        .ok (relation, db)

def executionParent (child : RunId) (db : Db Text) :
    Except StoreError (Option ExecutionRelation) :=
  readRelation J db child

/-- The `map` of `execution_children`. -/
def readChildren (db : Db Text) : List String → Except StoreError (List ExecutionRelation)
  | [] => .ok []
  | child :: children => do
      let run ← id child
      match ← readRelation J db run with
      | none => .error .missingRun
      | some edge => do
          let rest ← readChildren db children
          .ok (edge :: rest)

def executionChildren (parent : RunId) (db : Db Text) :
    Except StoreError (List ExecutionRelation) :=
  readChildren J db (db.selectChildren parent.asStr)

/-- A call, as the mutex and the transactions let callers see it. -/
def call {β : Type} : StoreCall β → Db Text → Except StoreError β × Db Text
  | .createSession id, db => write (createSession id) db
  | .registerRun spec, db => write (registerRun J spec) db
  | .insert draft, db => write (insert J draft) db
  | .checkpoint id expectedRevision payload state, db =>
      write (checkpoint J id expectedRevision payload state) db
  | .resolve request expectedRevision decision, db =>
      write (resolve J request expectedRevision decision) db
  | .get id, db => (get J id db, db)
  | .getRun id, db => (getRun J id db, db)
  | .list session after limit, db => (list J session after limit db, db)
  | .saveContinuation value, db => write (saveContinuation J value) db
  | .getContinuation id, db => (getContinuation J id db, db)
  | .claimContinuation id, db => write (claimContinuation J id) db
  | .linkExecution relation, db => write (linkExecution J relation) db
  | .executionParent child, db => (executionParent J child db, db)
  | .executionChildren parent, db => (executionChildren J parent db, db)

def exec {β : Type} (c : StoreCall β) (db : Db Text) : Except Fault β × Db Text :=
  (orFault (call J c db).1, (call J c db).2)

def machine : StoreMachine (Db Text) := ⟨exec J⟩

end SqliteStore

end AgentBridge
