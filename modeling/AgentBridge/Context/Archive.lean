import AgentBridge.Context.Prepare

/-!
# Archives of resources

The two stores of the crate that keep resources: a map in memory, and two tables of the database.  A
call on the database is one transaction, so any interleaving of the calls of its connections is a
list of calls.  The digest is a parameter, and so are the statements that the database refuses.
-/

namespace AgentBridge

open Reasoning

namespace Context

inductive ArchiveCall where
  | put (resource : Resource)
  | get (reference : ResourceRef)

/-- What a call answers: `Ok(resource)`, or the error. -/
abbrev Answer := Except ResourceError Resource

/-! ## In memory -/

structure MemoryResourceStore where
  resources : HashMap (ResourceId × String) Resource

namespace MemoryResourceStore

def default : MemoryResourceStore := ⟨∅⟩

def put (resource : Resource) (store : MemoryResourceStore) : Answer × MemoryResourceStore :=
  if isBlank resource.reference.revision || isBlank resource.mediaType then
    (.error .invalid, store)
  else
    let key := (resource.reference.id, resource.reference.revision)
    match store.resources.lookup key with
    | some existing =>
        if existing = resource then (.ok existing, store) else (.error .revisionConflict, store)
    | none => (.ok resource, ⟨store.resources.insert key resource⟩)

def get (reference : ResourceRef) (store : MemoryResourceStore) : Answer :=
  if isBlank reference.revision then .error .invalid
  else
    match store.resources.lookup (reference.id, reference.revision) with
    | some resource => .ok resource
    | none => .error .missing

def exec (store : MemoryResourceStore) : ArchiveCall → Answer × MemoryResourceStore
  | .put resource => store.put resource
  | .get reference => (store.get reference, store)

end MemoryResourceStore

/-! ## In the database -/

/-- A row of `agent_bridge_resource_versions`. -/
structure VersionRow where
  mediaType : String
  sha256 : String
deriving DecidableEq

structure ResourceDb where
  /-- By digest. -/
  blobs : HashMap String ByteArray
  /-- By resource and revision. -/
  versions : HashMap (String × String) VersionRow

/-- Which statements of a call the database refuses, and with what. -/
abbrev Refusals := Nat → Option StoreError

namespace ResourceDb

def empty : ResourceDb := ⟨∅, ∅⟩

/-- `.map_err(error)` of the n-th statement. -/
def statement (refusals : Refusals) (n : Nat) : Except ResourceError Unit :=
  match refusals n with
  | some e => .error (.store e)
  | none => .ok ()

variable (digest : ByteArray → String)

/-- The row that the join of `read` finds, and its blob. -/
def read (db : ResourceDb) (reference : ResourceRef) : Answer :=
  match db.versions.lookup (reference.id.asStr, reference.revision) with
  | none => .error .missing
  | some row =>
      match db.blobs.lookup row.sha256 with
      | none => .error (.store (.corruptData "resource blob missing"))
      | some bytes =>
          if digest bytes ≠ row.sha256 then
            .error (.store (.corruptData "resource digest mismatch"))
          else .ok ⟨reference, row.mediaType, bytes⟩

def get (refusals : Refusals) (reference : ResourceRef) (db : ResourceDb) : Answer :=
  if isBlank reference.revision then .error .invalid
  else do
    statement refusals 0
    db.read digest reference

/-- `INSERT OR IGNORE INTO agent_bridge_resource_blobs`. -/
def insertBlob (db : ResourceDb) (hash : String) (bytes : ByteArray) : ResourceDb :=
  match db.blobs.lookup hash with
  | some _ => db
  | none => { db with blobs := db.blobs.insert hash bytes }

/-- `SELECT bytes`, of a row that has to be there. -/
def selectBlob (db : ResourceDb) (hash : String) : Except ResourceError ByteArray :=
  match db.blobs.lookup hash with
  | some bytes => .ok bytes
  | none => .error (.store (.database "Query returned no rows"))

/-- `INSERT INTO agent_bridge_resource_versions`. -/
def insertVersion (db : ResourceDb) (reference : ResourceRef) (row : VersionRow) :
    Except ResourceError ResourceDb :=
  let key := (reference.id.asStr, reference.revision)
  if (db.versions.lookup key).isSome then
    .error (.store (.database "UNIQUE constraint failed: agent_bridge_resource_versions"))
  else if (db.blobs.lookup row.sha256).isNone then
    .error (.store (.database "FOREIGN KEY constraint failed"))
  else .ok { db with versions := db.versions.insert key row }

/-- The transaction of `put`: its answer and the database that it commits, or an early return, whose
changes are dropped with the transaction. -/
def transaction (refusals : Refusals) (resource : Resource) (db : ResourceDb) :
    Except ResourceError (Resource × ResourceDb) := do
  statement refusals 0
  statement refusals 1
  match db.read digest resource.reference with
  | .ok existing =>
      if existing = resource then .ok (existing, db) else .error .revisionConflict
  | .error .missing =>
      let hash := digest resource.bytes
      statement refusals 2
      let inserted := db.insertBlob hash resource.bytes
      statement refusals 3
      let bytes ← inserted.selectBlob hash
      if bytes ≠ resource.bytes then
        .error (.store (.corruptData "resource blob conflicts with digest"))
      else do
        statement refusals 4
        let inserted ← inserted.insertVersion resource.reference ⟨resource.mediaType, hash⟩
        statement refusals 5
        .ok (resource, inserted)
  | .error e => .error e

/-- `put`; what a transaction did that is not committed is rolled back. -/
def put (refusals : Refusals) (resource : Resource) (db : ResourceDb) : Answer × ResourceDb :=
  if isBlank resource.reference.revision || isBlank resource.mediaType then (.error .invalid, db)
  else
    match transaction digest refusals resource db with
    | .ok (answer, db) => (.ok answer, db)
    | .error e => (.error e, db)

def exec (refusals : Refusals) (db : ResourceDb) : ArchiveCall → Answer × ResourceDb
  | .put resource => db.put digest refusals resource
  | .get reference => (db.get digest refusals reference, db)

end ResourceDb

/-! ## Runs -/

/-- The calls so far, with their answers. -/
abbrev History := List (ArchiveCall × Answer)

def MemoryResourceStore.run : List ArchiveCall → MemoryResourceStore → History × MemoryResourceStore
  | [], store => ([], store)
  | call :: calls, store =>
      let (answer, store) := store.exec call
      let (history, store) := MemoryResourceStore.run calls store
      ((call, answer) :: history, store)

def ResourceDb.run (digest : ByteArray → String) :
    List (ArchiveCall × Refusals) → ResourceDb → History × ResourceDb
  | [], db => ([], db)
  | (call, refusals) :: calls, db =>
      let (answer, db) := db.exec digest refusals call
      let (history, db) := ResourceDb.run digest calls db
      ((call, answer) :: history, db)

end Context

end AgentBridge
