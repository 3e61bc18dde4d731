import AgentBridge.Records.Sqlite.Codec
import AgentBridge.Reasoning.HashMap
import Mathlib.Data.List.Sort

/-!
# The tables, their constraints and their triggers

A statement gives the database after it, or the constraint it violates.  Primary keys are the keys
of the tables; the other constraints of the migrations are checked where a statement can violate
them.  Foreign keys are immediate: they hold at the end of each statement.
-/

namespace AgentBridge

open Reasoning

namespace SqliteStore

def i64Max : Int := 2 ^ 63 - 1

/-- `n as i64` of a `u64`. -/
def asI64 (n : Nat) : Int := if n < 2 ^ 63 then n else n - 2 ^ 64

def stateName : RecordState → String
  | .opened => "open"
  | .complete => "complete"
  | .interrupted => "interrupted"

def sqlStates : List String := ["open", "complete", "interrupted"]

/-- A row of `agent_bridge_records`. -/
structure RowData (Text : Type) where
  id : String
  session : String
  run : Option String
  sequence : Int
  actor : String
  reply : Option String
  source : Option Text
  payload : Text
  state : String
  revision : Int
  initial : Option Text

structure RunRow (Text : Type) where
  session : String
  slot : String
  context : Text
  config : Option Text
  continuation : Option String

structure ContinuationRow (Text : Type) where
  session : String
  adapter : String
  scope : String
  nativeKey : String
  predecessor : Option String
  descriptor : Text
  state : String
  latest : Bool

structure RelationRow (Text : Type) where
  parent : String
  relation : Text

structure ChangeClock where
  epoch : String
  position : Int

structure RecordChange where
  session : String
  position : Int

structure Db (Text : Type) where
  /-- The session's `next_sequence`. -/
  sessions : HashMap String Int
  runs : HashMap String (RunRow Text)
  records : HashMap String (RowData Text)
  /-- The response of a request. -/
  decisions : HashMap String String
  continuations : HashMap String (ContinuationRow Text)
  /-- By child. -/
  executionRelations : HashMap String (RelationRow Text)
  changeClock : ChangeClock
  recordChanges : HashMap String RecordChange
  /-- No column: the values that the JSON columns were given so far, which no statement reads. -/
  written : List Document

/-- The database that all migrations create, with a random epoch. -/
def Db.empty (Text : Type) (epoch : String) : Db Text where
  sessions := ∅
  runs := ∅
  records := ∅
  decisions := ∅
  continuations := ∅
  executionRelations := ∅
  changeClock := ⟨epoch, 0⟩
  recordChanges := ∅
  written := []

/-- `n + 1` in a column whose check is `typeof(n) = 'integer'`: beyond `i64::MAX` it is a real. -/
def incremented (column : String) (n : Int) : Except StoreError Int :=
  if n < i64Max then .ok (n + 1) else .error (.database s!"CHECK constraint failed: {column}")

namespace Db

variable {Text : Type}

/-! ## Sessions and runs -/

/-- `INSERT INTO agent_bridge_sessions (id) .. ON CONFLICT(id) DO NOTHING`. -/
def insertSession (db : Db Text) (id : String) : Db Text :=
  match db.sessions.lookup id with
  | some _ => db
  | none => { db with sessions := db.sessions.insert id 0 }

/-- `UPDATE agent_bridge_sessions SET next_sequence = next_sequence + 1 WHERE id = ?1`. -/
def incrementSequence (db : Db Text) (id : String) : Except StoreError (Db Text) :=
  match db.sessions.lookup id with
  | none => .ok db
  | some next => do
      let next ← incremented "next_sequence" next
      .ok { db with sessions := db.sessions.insert id next }

def insertRun (db : Db Text) (id : String) (row : RunRow Text) (docs : List Document) :
    Except StoreError (Db Text) :=
  if (db.runs.lookup id).isSome then
    .error (.database "UNIQUE constraint failed: agent_bridge_runs.id")
  else if (db.sessions.lookup row.session).isNone ||
      row.continuation.any fun id => (db.continuations.lookup id).isNone then
    .error (.database "FOREIGN KEY constraint failed")
  else .ok { db with runs := db.runs.insert id row, written := docs ++ db.written }

/-! ## Records and their changes -/

/-- The trigger `agent_bridge_record_insert_change`.  The foreign keys of the change are the new
record and that record's session. -/
def recordInsertChange (db : Db Text) (record session : String) : Except StoreError (Db Text) := do
  let position ← incremented "agent_bridge_change_clock" db.changeClock.position
  if (db.recordChanges.lookup record).isSome then
    .error (.database "UNIQUE constraint failed: agent_bridge_record_changes.record_id")
  else if db.recordChanges.values.any fun change => change.position == position then
    .error (.database "UNIQUE constraint failed: agent_bridge_record_changes.position")
  else
    .ok { db with
      changeClock := { db.changeClock with position }
      recordChanges := db.recordChanges.insert record ⟨session, position⟩ }

/-- The trigger `agent_bridge_record_update_change`. -/
def recordUpdateChange (db : Db Text) (record : String) : Except StoreError (Db Text) := do
  let position ← incremented "agent_bridge_change_clock" db.changeClock.position
  match db.recordChanges.lookup record with
  | none => .ok { db with changeClock := { db.changeClock with position } }
  | some change =>
      if db.recordChanges.values.any fun change => change.position == position then
        .error (.database "UNIQUE constraint failed: agent_bridge_record_changes.position")
      else
        .ok { db with
          changeClock := { db.changeClock with position }
          recordChanges := db.recordChanges.insert record { change with position } }

/-- The run of a record belongs to the record's session. -/
def hasRun (db : Db Text) (row : RowData Text) : Bool :=
  row.run.all fun run => (db.runs.lookup run).any fun spec => spec.session == row.session

def insertRecord (db : Db Text) (row : RowData Text) (docs : List Document) :
    Except StoreError (Db Text) :=
  if (db.records.lookup row.id).isSome then
    .error (.database "UNIQUE constraint failed: agent_bridge_records.id")
  else if db.records.values.any fun other =>
      other.session == row.session && other.sequence == row.sequence then
    .error (.database
      "UNIQUE constraint failed: agent_bridge_records.session_id, agent_bridge_records.sequence")
  else if row.sequence < 0 then .error (.database "CHECK constraint failed: sequence")
  else if !sqlStates.contains row.state then .error (.database "CHECK constraint failed: state")
  else if row.revision < 0 then .error (.database "CHECK constraint failed: revision")
  else if (db.sessions.lookup row.session).isNone || !db.hasRun row ||
      row.reply.any fun id => id != row.id && (db.records.lookup id).isNone then
    .error (.database "FOREIGN KEY constraint failed")
  else
    recordInsertChange
      { db with records := db.records.insert row.id row, written := docs ++ db.written }
      row.id row.session

/-- The update of `update_row`: the number of rows it changed, at most one. -/
def updateRecord (db : Db Text) (id : String) (expected : Int) (payload : Text) (state : String)
    (revision : Int) (initial : Option Text) (docs : List Document) :
    Except StoreError (Nat × Db Text) :=
  match db.records.lookup id with
  | none => .ok (0, db)
  | some row =>
      if row.revision ≠ expected then .ok (0, db)
      else if !sqlStates.contains state then .error (.database "CHECK constraint failed: state")
      else if revision < 0 then .error (.database "CHECK constraint failed: revision")
      else do
        -- `initial_json = COALESCE(initial_json, ?4)`
        let updated := { db with
          records := db.records.insert id
            { row with payload, state, revision, initial := row.initial.or initial }
          written := docs ++ db.written }
        let db ← if revision ≠ row.revision then updated.recordUpdateChange id else .ok updated
        .ok (1, db)

def insertDecision (db : Db Text) (request response : String) : Except StoreError (Db Text) :=
  if (db.decisions.lookup request).isSome then
    .error (.database "UNIQUE constraint failed: agent_bridge_decisions.request_id")
  else if db.decisions.values.contains response then
    .error (.database "UNIQUE constraint failed: agent_bridge_decisions.response_id")
  else if (db.records.lookup request).isNone || (db.records.lookup response).isNone then
    .error (.database "FOREIGN KEY constraint failed")
  else .ok { db with decisions := db.decisions.insert request response }

/-- `WHERE session_id = ?1 AND sequence > ?2 ORDER BY sequence LIMIT ?3`. -/
def selectRecords (db : Db Text) (session : String) (after : Int) (limit : Nat) :
    List (RowData Text) :=
  ((db.records.values.filter fun row => row.session == session && after < row.sequence).insertionSort
    fun a b => a.sequence ≤ b.sequence).take limit

/-! ## Continuations -/

/-- The rows of the index `agent_bridge_continuation_latest` for a native session. -/
def isLatest (adapter scope nativeKey : String) (row : ContinuationRow Text) : Bool :=
  row.adapter == adapter && row.scope == scope && row.nativeKey == nativeKey && row.latest

def selectLatest (db : Db Text) (adapter scope nativeKey : String) : Option String :=
  (db.continuations.entries.find? fun e => isLatest adapter scope nativeKey e.2).map (·.1)

def insertContinuation (db : Db Text) (id : String) (row : ContinuationRow Text)
    (docs : List Document) : Except StoreError (Db Text) :=
  if (db.continuations.lookup id).isSome then
    .error (.database "UNIQUE constraint failed: agent_bridge_continuations.id")
  else if row.predecessor.isSome &&
      db.continuations.values.any fun other => other.predecessor == row.predecessor then
    .error (.database "UNIQUE constraint failed: agent_bridge_continuations.predecessor_id")
  else if row.latest && db.continuations.values.any (isLatest row.adapter row.scope row.nativeKey)
  then
    .error (.database "UNIQUE constraint failed: agent_bridge_continuation_latest")
  else if (db.sessions.lookup row.session).isNone ||
      row.predecessor.any fun p => p != id && (db.continuations.lookup p).isNone then
    .error (.database "FOREIGN KEY constraint failed")
  else
    .ok { db with
      continuations := db.continuations.insert id row, written := docs ++ db.written }

/-- `UPDATE agent_bridge_continuations SET .. WHERE id = ?1`. -/
def updateContinuation (db : Db Text) (id : String)
    (set : ContinuationRow Text → ContinuationRow Text) : Db Text :=
  match db.continuations.lookup id with
  | none => db
  | some row => { db with continuations := db.continuations.insert id (set row) }

/-! ## Execution relations -/

def insertRelation (db : Db Text) (child : String) (row : RelationRow Text) (docs : List Document) :
    Except StoreError (Db Text) :=
  if (db.executionRelations.lookup child).isSome then
    .error (.database "UNIQUE constraint failed: agent_bridge_execution_relations.child_id")
  else if child = row.parent then .error (.database "CHECK constraint failed: child_id <> parent_id")
  else if (db.runs.lookup child).isNone || (db.runs.lookup row.parent).isNone then
    .error (.database "FOREIGN KEY constraint failed")
  else
    .ok { db with
      executionRelations := db.executionRelations.insert child row
      written := docs ++ db.written }

/-- `SELECT child_id .. WHERE parent_id = ?1 ORDER BY child_id`; the rows of a query without an
order come in this order too, which is one of those they may come in. -/
def selectChildren (db : Db Text) (parent : String) : List String :=
  ((db.executionRelations.entries.filter fun e => e.2.parent == parent).map (·.1)).insertionSort
    fun a b => a ≤ b

end Db

end SqliteStore

end AgentBridge
