import AgentBridge.Records.Sqlite.Schema
import AgentBridge.Context.Archive

/-!
# Opening a database file

A file holds the reserved tables that the version of its schema has, and what the application keeps
beside them.  Opening runs the migrations that are missing and checks the tables in one transaction:
when a statement fails, the file stays as it was.  Which statements SQLite refuses is a parameter.
-/

namespace AgentBridge

open Reasoning

namespace SqliteStore

/-- A row of `agent_bridge_runs` before the third migration. -/
structure PlainRunRow (Text : Type) where
  session : String
  slot : String
  context : Text

inductive RunTable (Text : Type) where
  | plain (rows : HashMap String (PlainRunRow Text))
  | configured (rows : HashMap String (RunRow Text))

/-- What a file holds; a table that was not created is `none`. -/
structure File (Text App : Type) where
  /-- The table `agent_bridge_schema`, and the version in its row. -/
  schema : Option (Option Int)
  sessions : Option (HashMap String Int)
  runs : Option (RunTable Text)
  records : Option (HashMap String (RowData Text))
  decisions : Option (HashMap String String)
  continuations : Option (HashMap String (ContinuationRow Text))
  resources : Option Context.ResourceDb
  executionRelations : Option (HashMap String (RelationRow Text))
  changeClock : Option ChangeClock
  recordChanges : Option (HashMap String RecordChange)
  /-- Other objects under a reserved name. -/
  strays : List String
  /-- What is not reserved. -/
  application : App

inductive Statement where
  | connect
  | busyTimeout
  | foreignKeys
  | synchronous
  | begin
  | findSchema
  | readVersion
  | script (index : Nat)
  | setVersion (index : Nat)
  | validate
  | commit
deriving DecidableEq

/-- `.map_err(database_error)?` of a statement. -/
def issue (refuses : Statement → Option StoreError) (statement : Statement) :
    Except StoreError Unit :=
  match refuses statement with
  | some e => .error e
  | none => .ok ()

/-! ## The scripts -/

def createTable {α : Type} (name : String) (rows : α) : Option α → Except StoreError (Option α)
  | some _ => .error (.database s!"table {name} already exists")
  | none => .ok (some rows)

/-- A column that is added is null in the rows there. -/
def PlainRunRow.configured {Text : Type} (row : PlainRunRow Text) : RunRow Text :=
  ⟨row.session, row.slot, row.context, none, none⟩

/-- The two `ALTER TABLE agent_bridge_runs ADD COLUMN`. -/
def RunTable.addColumns {Text : Type} : RunTable Text → Except StoreError (RunTable Text)
  | .plain rows => .ok (.configured (HashMap.mapValues PlainRunRow.configured rows))
  | .configured _ => .error (.database "duplicate column name: config_json")

/-- `ORDER BY session_id, sequence`. -/
def inOrder {Text : Type} (a b : RowData Text) : Bool :=
  a.session < b.session || (a.session == b.session && a.sequence ≤ b.sequence)

def orderedIds {Text : Type} (records : HashMap String (RowData Text)) : List String :=
  (records.values.insertionSort fun a b => inOrder a b = true).map (·.id)

/-- `SELECT id, session_id, row_number() OVER (..)`. -/
def backfill {Text : Type} (records : HashMap String (RowData Text)) : HashMap String RecordChange :=
  HashMap.mapValues (fun row => ⟨row.session, (orderedIds records).idxOf row.id + 1⟩) records

namespace Migration

variable {Text App : Type}

def records (file : File Text App) : Except StoreError (File Text App) := do
  let schema ← createTable "agent_bridge_schema" (some 1) file.schema
  let sessions ← createTable "agent_bridge_sessions" ∅ file.sessions
  let runs ← createTable "agent_bridge_runs" (.plain ∅) file.runs
  let records ← createTable "agent_bridge_records" ∅ file.records
  let decisions ← createTable "agent_bridge_decisions" ∅ file.decisions
  .ok { file with schema, sessions, runs, records, decisions }

def continuations (file : File Text App) : Except StoreError (File Text App) := do
  let continuations ← createTable "agent_bridge_continuations" ∅ file.continuations
  .ok { file with continuations }

def runConfiguration (file : File Text App) : Except StoreError (File Text App) :=
  match file.runs with
  | none => .error (.database "no such table: agent_bridge_runs")
  | some runs => do
      let runs ← runs.addColumns
      .ok { file with runs := some runs }

def resources (file : File Text App) : Except StoreError (File Text App) := do
  let resources ← createTable "agent_bridge_resource_blobs" .empty file.resources
  .ok { file with resources }

/-- The script holds comments only. -/
def questions (file : File Text App) : Except StoreError (File Text App) :=
  .ok file

def executionRelations (file : File Text App) : Except StoreError (File Text App) := do
  let executionRelations ← createTable "agent_bridge_execution_relations" ∅ file.executionRelations
  .ok { file with executionRelations }

/-- The change clock with the epoch of `randomblob`, and a change of every record. -/
def changes (epoch : String) (file : File Text App) : Except StoreError (File Text App) := do
  let _ ← createTable "agent_bridge_change_clock" (ChangeClock.mk epoch 0) file.changeClock
  let _ ← createTable "agent_bridge_record_changes" ∅ file.recordChanges
  match file.records, file.sessions with
  | some records, some sessions =>
      if records.values.any fun row => (sessions.lookup row.session).isNone then
        .error (.database "FOREIGN KEY constraint failed")
      else
        .ok { file with
          changeClock := some ⟨epoch, records.values.length⟩
          recordChanges := some (backfill records) }
  | _, _ => .error (.database "no such table: agent_bridge_records")

end Migration

/-- `MIGRATIONS`. -/
def migrations {Text App : Type} (epoch : String) :
    List (File Text App → Except StoreError (File Text App)) :=
  [Migration.records, Migration.continuations, Migration.runConfiguration, Migration.resources,
    Migration.questions, Migration.executionRelations, Migration.changes epoch]

/-! ## Opening -/

namespace File

variable {Text App : Type} (refuses : Statement → Option StoreError)

/-- A reserved name is taken, but for that of the schema. -/
def isOccupied (file : File Text App) : Bool :=
  file.sessions.isSome || file.runs.isSome || file.records.isSome || file.decisions.isSome ||
    file.continuations.isSome || file.resources.isSome || file.executionRelations.isSome ||
    file.changeClock.isSome || file.recordChanges.isSome || !file.strays.isEmpty

/-- The tables as the calls find them, once all of them are there. -/
def tables (file : File Text App) : Option (Db Text) :=
  match file.runs with
  | some (.configured runs) => do
      let sessions ← file.sessions
      let records ← file.records
      let decisions ← file.decisions
      let continuations ← file.continuations
      let executionRelations ← file.executionRelations
      let changeClock ← file.changeClock
      let recordChanges ← file.recordChanges
      some {
        sessions, runs, records, decisions, continuations, executionRelations, changeClock
        recordChanges, written := [] }
  | _ => none

/-- What calls leave of a file. -/
def withTables (file : File Text App) (db : Db Text) : File Text App :=
  { file with
    sessions := some db.sessions
    runs := some (.configured db.runs)
    records := some db.records
    decisions := some db.decisions
    continuations := some db.continuations
    executionRelations := some db.executionRelations
    changeClock := some db.changeClock
    recordChanges := some db.recordChanges }

/-- `SELECT version FROM agent_bridge_schema WHERE id = 1`, of a table that is there. -/
def readVersion (file : File Text App) : Except StoreError Int := do
  issue refuses .findSchema
  issue refuses .readVersion
  match file.schema with
  | some (some version) => .ok version
  | some none => .error (.corruptData "schema version row is missing")
  | none => if file.isOccupied then .error .unversionedSchema else .ok 0

/-- `UPDATE agent_bridge_schema SET version = ?1 WHERE id = 1`. -/
def setVersion (file : File Text App) (version : Int) : File Text App :=
  { file with schema := file.schema.map fun row => row.map fun _ => version }

/-- The loop of `migrate`. -/
def runScripts : List (File Text App → Except StoreError (File Text App)) → Nat →
    File Text App → Except StoreError (File Text App)
  | [], _, file => .ok file
  | script :: scripts, index, file => do
      issue refuses (.script index)
      let file ← script file
      issue refuses (.setVersion index)
      runScripts scripts (index + 1) (file.setVersion (index + 1))

/-- `validate_schema`. -/
def validateSchema (file : File Text App) : Except StoreError Unit := do
  issue refuses .validate
  if file.tables.isSome && file.resources.isSome then .ok ()
  else .error (.database "no such table or column")

def migrate (epoch : String) (file : File Text App) : Except StoreError (File Text App) := do
  issue refuses .begin
  let version ← file.readVersion refuses
  if version < 0 ∨ 7 < version ∨ (file.schema.isSome ∧ version = 0) then
    .error (.unsupportedSchemaVersion version)
  else do
    let migrated ← runScripts refuses ((migrations epoch).drop version.toNat) version.toNat file
    migrated.validateSchema refuses
    issue refuses .commit
    .ok migrated

/-- The transaction that is not committed leaves the file as it was. -/
def openWithBusyTimeout (epoch : String) (file : File Text App) :
    Except StoreError Unit × File Text App :=
  let migrated : Except StoreError (File Text App) := do
    issue refuses .connect
    issue refuses .busyTimeout
    issue refuses .foreignKeys
    issue refuses .synchronous
    file.migrate refuses epoch
  match migrated with
  | .ok migrated => (.ok (), migrated)
  | .error e => (.error e, file)

def openReadOnly (file : File Text App) : Except StoreError Unit × File Text App :=
  let checked : Except StoreError Unit := do
    issue refuses .connect
    issue refuses .busyTimeout
    issue refuses .begin
    issue refuses .readVersion
    let version ← match file.schema with
      | some (some version) => .ok version
      | some none => .error (.database "Query returned no rows")
      | none => .error (.database "no such table: agent_bridge_schema")
    if 7 < version ∨ version ≤ 0 then .error (.unsupportedSchemaVersion version)
    else if version ≠ 7 then .error (.schemaMigrationRequired version 7)
    else do
      file.validateSchema refuses
      issue refuses .commit
  (checked, file)

end File

end SqliteStore

end AgentBridge
