import AgentBridge.Records.Sqlite.Changes

/-!
# Synchronising a session's state

`SessionState.sync` reads pages of a session from the host: first a scan, unless it has a cursor, and
then the changes since.  It waits for every page, so others commit calls between them.  The new
records and the new cursor are kept together, when the last page has come.
-/

namespace AgentBridge

open Reasoning

/-! ## The host's side -/

namespace Host

/-- A `snapshot` or a `changes` request. -/
structure PageRequest where
  sessionId : SessionId
  cursor : Option ChangeCursor
  limit : Nat

/-- Why a request fails: with a message of the host, or in the store. -/
inductive Failure where
  | message (text : String)
  | fault (e : Fault)

def orFailure {α : Type} : Except Fault α → Except Failure α
  | .ok a => .ok a
  | .error e => .error (.fault e)

/-- What `history` checks of the two requests. -/
def checkPage (request : PageRequest) : Except Failure Unit :=
  if request.cursor.any fun c => c.epoch == "" then
    .error (.message "missing or empty string parameter")
  else if request.cursor.any fun c => c.sessionId != request.sessionId then
    .error (.message "cursor belongs to another session")
  else if request.limit < 1 ∨ 1000 < request.limit then
    .error (.message "limit must be 1..=1000")
  else .ok ()

variable {Text : Type} (J : SerdeJson Text)

/-- `history` of a `snapshot` request, on the database that it opens. -/
def snapshot (request : PageRequest) (after : Option Nat) (db : SqliteStore.Db Text) :
    Except Failure StatePage := do
  checkPage request
  orFailure (orFault
    (SqliteStore.snapshotPage J request.sessionId request.cursor after request.limit db))

/-- `history` of a `changes` request. -/
def changes (request : PageRequest) (db : SqliteStore.Db Text) : Except Failure StatePage := do
  checkPage request
  match request.cursor with
  | none => .error (.message "cursor required")
  | some cursor => orFailure (SqliteStore.changes J cursor request.limit db)

end Host

/-! ## The client's side -/

/-- The loop of `sync` that waits for a page. -/
inductive SyncLoop where
  | snapshot (after : Option Nat)
  | changes

/-- The variables of a `sync` that runs. -/
structure Sync where
  limit : Nat
  records : HashMap RecordId Snapshot
  cursor : Option ChangeCursor
  pages : Nat
  loop : SyncLoop

structure StateCheckpoint where
  projectionVersion : Option Nat
  cursor : ChangeCursor
  records : List Snapshot

/-- Latest-record projection of a session. -/
structure SessionState where
  sessionId : SessionId
  records : HashMap RecordId Snapshot
  position : Option ChangeCursor
  syncing : Option Sync

/-- How a step of a `sync` ends: it waits for a page, or it is done. -/
inductive SyncStep where
  | waits (sync : Sync)
  | done (records : HashMap RecordId Snapshot) (position : Option ChangeCursor)

namespace SessionState

-- whether `project` reads a record rather than throw; nothing is assumed of it
variable (accepts : Snapshot → Bool)

/-- The body of the loop in `apply`. -/
def applyRow (sessionId : SessionId) (records : HashMap RecordId Snapshot) (row : Snapshot) :
    Except String (HashMap RecordId Snapshot) :=
  if row.record.sessionId ≠ sessionId then .error "foreign session record"
  else if !accepts row then .error "invalid record"
  else
    match records.lookup row.record.id with
    | none => .ok (records.insert row.record.id row)
    | some old =>
        if old.revision < row.revision then .ok (records.insert row.record.id row)
        else .ok records

def apply (sessionId : SessionId) :
    HashMap RecordId Snapshot → List Snapshot → Except String (HashMap RecordId Snapshot)
  | records, [] => .ok records
  | records, row :: rows => do
      let records ← applyRow accepts sessionId records row
      apply sessionId records rows

def budget (pages : Nat) : Except String Nat :=
  if 1000 < pages + 1 then .error "state sync page budget exceeded; no state was committed"
  else .ok (pages + 1)

/-- What a `sync` does with the page that it waited for, until it waits for the next one. -/
def proceed (sessionId : SessionId) (sync : Sync) (page : StatePage) : Except String SyncStep :=
  match sync.loop with
  | .snapshot _ => do
      let cursor := sync.cursor.getD page.cursor
      let records ← apply accepts sessionId sync.records page.records
      let pages ← budget sync.pages
      .ok (.waits { sync with
        records, pages
        cursor := some cursor
        loop := if page.pageFull then .snapshot page.nextAfter else .changes })
  | .changes => do
      let records ← apply accepts sessionId sync.records page.records
      if page.pageFull then do
        let pages ← budget sync.pages
        .ok (.waits { sync with records, pages, cursor := some page.cursor })
      else .ok (.done records (some page.cursor))

/-- The start of a call of `sync`, up to its first request. -/
def sync (state : SessionState) (limit : Nat) : Except String SessionState :=
  if state.syncing.isSome then .error "state sync already in progress"
  else do
    let pages ← budget 0
    .ok { state with syncing := some {
      limit, pages
      records := state.records
      cursor := state.position
      loop := if state.position.isSome then .changes else .snapshot none } }

/-- The request that a `sync` waits for. -/
def request {Text : Type} (J : SerdeJson Text) (sessionId : SessionId) (sync : Sync)
    (db : SqliteStore.Db Text) : Except Host.Failure StatePage :=
  match sync.loop with
  | .snapshot after => Host.snapshot J ⟨sessionId, sync.cursor, sync.limit⟩ after db
  | .changes => Host.changes J ⟨sessionId, sync.cursor, sync.limit⟩ db

/-- The answer of a request arrives.  The second component says whether the promise of `sync` is
settled by it, and fulfilled. -/
def receive (state : SessionState) (sync : Sync) (answer : Except Host.Failure StatePage) :
    SessionState × Option Bool :=
  match answer with
  | .error _ => ({ state with syncing := none }, some false)
  | .ok page =>
      match proceed accepts state.sessionId sync page with
      | .error _ => ({ state with syncing := none }, some false)
      | .ok (.waits sync) => ({ state with syncing := some sync }, none)
      | .ok (.done records position) => ({ state with records, position, syncing := none }, some true)

def checkpoint (state : SessionState) : Option StateCheckpoint :=
  state.position.map fun cursor =>
    { projectionVersion := some 2, cursor, records := state.records.entries.map (·.2) }

def empty (sessionId : SessionId) : SessionState := ⟨sessionId, ∅, none, none⟩

/-- The constructor. -/
def new (sessionId : SessionId) (checkpoint : Option StateCheckpoint) :
    Except String SessionState :=
  match checkpoint with
  | none => .ok (empty sessionId)
  | some checkpoint =>
      if checkpoint.cursor.sessionId ≠ sessionId ∨
          checkpoint.records.any fun row => row.record.sessionId != sessionId then
        .error "foreign state checkpoint"
      else if checkpoint.projectionVersion = none ∨ checkpoint.projectionVersion = some 1 then
        .ok (empty sessionId)
      else if checkpoint.projectionVersion ≠ some 2 then
        .error "unsupported state projection version"
      else if checkpoint.records.any fun row => !accepts row then .error "invalid record"
      else
        .ok {
          sessionId
          records := checkpoint.records.foldl (fun records row => records.insert row.record.id row) ∅
          position := some checkpoint.cursor
          syncing := none }

end SessionState

end AgentBridge
