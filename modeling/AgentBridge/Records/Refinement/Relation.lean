import AgentBridge.Records.MemorySteps
import AgentBridge.Records.Sqlite.Steps

/-!
# The tables that hold a state of the in-memory store

`Refines` says that every table holds the encodings of a map of the in-memory state, and nothing
else.  While the documents written read back, every read of the database then gives what the
in-memory state holds.
-/

namespace AgentBridge

open Reasoning SqliteStore

variable {Text : Type} {J : SerdeJson Text}

/-! ## Maps by the name of their key -/

section ByName

variable {kind : IdKind} {V : Type}

/-- The value under the identifier that a text spells, if it spells one. -/
def byName (m : HashMap (Identifier kind) V) (name : String) : Option V :=
  match (Identifier.new name : Except InvalidId (Identifier kind)) with
  | .ok key => m.lookup key
  | .error _ => none

@[simp] theorem byName_asStr (m : HashMap (Identifier kind) V) (id : Identifier kind) :
    byName m id.asStr = m.lookup id := by
  simp [byName]

theorem byName_eq_some {m : HashMap (Identifier kind) V} {name : String} {v : V} :
    byName m name = some v ↔ ∃ id, id.asStr = name ∧ m.lookup id = some v := by
  constructor
  · intro h
    unfold byName Identifier.new at h
    split at h
    · next id heq =>
      split at heq
      · cases heq
        exact ⟨_, rfl, h⟩
      · cases heq
    · cases h
  · rintro ⟨id, rfl, h⟩
    simp [h]

theorem byName_insert (m : HashMap (Identifier kind) V) (id : Identifier kind) (v : V)
    (name : String) :
    byName (m.insert id v) name = if name = id.asStr then some v else byName m name := by
  unfold byName
  cases hnew : (Identifier.new name : Except InvalidId (Identifier kind)) with
  | ok other =>
    obtain rfl : other.asStr = name := by
      unfold Identifier.new at hnew
      split at hnew <;> cases hnew
      rfl
    simp only [HashMap.lookup_insert_eq, Identifier.asStr_inj]
  | error e =>
    rw [if_neg]
    rintro rfl
    simp at hnew

/-- A row inserted for a value keeps a table the image of its map. -/
theorem lookup_insert_byName {Row : Type} {row : V → Row} {table : HashMap String Row}
    {m : HashMap (Identifier kind) V}
    (h : ∀ name, table.lookup name = (byName m name).map row) (id : Identifier kind) (v : V)
    (name : String) :
    (table.insert id.asStr (row v)).lookup name = (byName (m.insert id v) name).map row := by
  rw [HashMap.lookup_insert_eq, byName_insert]
  by_cases hname : name = id.asStr
  · rw [if_pos hname, if_pos hname, Option.map_some]
  · rw [if_neg hname, if_neg hname, h name]

end ByName

/-! ## Rows of values -/

/-- The row of a record: the creation content is stored once the record has been updated. -/
def entryRow (J : SerdeJson Text) (e : Entry) : RowData Text where
  id := e.current.record.id.asStr
  session := e.current.record.sessionId.asStr
  run := e.current.record.runId.map (·.asStr)
  sequence := e.current.record.sequence
  actor := e.current.record.actor.asStr
  reply := e.current.record.replyToId.map (·.asStr)
  source := e.current.source.map (Codec.documentText J)
  payload := Codec.documentText J e.current.record.payload
  state := stateName e.current.state
  revision := e.current.revision
  initial := if e.current.revision = 0 then none
    else some (Codec.documentText J (⟨e.initial.record.payload, e.initial.state⟩ : InitialContent))

def runRow (J : SerdeJson Text) (spec : RunSpec) : RunRow Text where
  session := spec.sessionId.asStr
  slot := spec.slotId.asStr
  context := Codec.documentText J spec.context
  config := some (Codec.documentText J spec.config)
  continuation := spec.continuation.map (·.asStr)

def continuationStateName : ContinuationState → String
  | .available => "available"
  | .claimed => "claimed"

def continuationRow (J : SerdeJson Text) (record : ContinuationRecord) : ContinuationRow Text where
  session := record.continuation.sessionId.asStr
  adapter := record.continuation.adapter
  scope := record.continuation.scope
  nativeKey := record.continuation.nativeKey
  predecessor := record.continuation.predecessor.map (·.asStr)
  descriptor := Codec.documentText J record.continuation
  state := continuationStateName record.state
  latest := record.latest

def relationRow (J : SerdeJson Text) (relation : ExecutionRelation) : RelationRow Text where
  parent := relation.parent.asStr
  relation := Codec.documentText J relation

/-- The documents of a record's row. -/
def entryDocs (e : Entry) : List Document :=
  .payload e.current.record.payload :: ((e.current.source.map Document.source).toList ++
    if e.current.revision = 0 then []
    else [.initial ⟨e.initial.record.payload, e.initial.state⟩])

/-- The documents of everything a state holds have been written. -/
structure Documented (state : MemoryStore.State) (written : List Document) : Prop where
  entries : ∀ id e, state.records.lookup id = some e → ∀ d ∈ entryDocs e, d ∈ written
  runs : ∀ id spec, state.runs.lookup id = some spec →
    .context spec.context ∈ written ∧ .config spec.config ∈ written
  continuations : ∀ id record, state.continuations.records.lookup id = some record →
    .continuation record.continuation ∈ written
  relations : ∀ id relation, state.executionRelations.lookup id = some relation →
    .relation relation ∈ written

theorem Documented.append {state : MemoryStore.State} {written : List Document}
    (h : Documented state written) (docs : List Document) : Documented state (docs ++ written) where
  entries id e he d hd := List.mem_append_right _ (h.entries id e he d hd)
  runs id spec hs :=
    ⟨List.mem_append_right _ (h.runs id spec hs).1, List.mem_append_right _ (h.runs id spec hs).2⟩
  continuations id record hr := List.mem_append_right _ (h.continuations id record hr)
  relations id relation hr := List.mem_append_right _ (h.relations id relation hr)

/-! ## The relation -/

structure Refines (J : SerdeJson Text) (state : MemoryStore.State) (db : Db Text) : Prop where
  wellFormed : state.WellFormed
  sessions : ∀ name, db.sessions.lookup name =
    (byName state.sessions name).map fun ids => (ids.length : Int)
  runs : ∀ name, db.runs.lookup name = (byName state.runs name).map (runRow J)
  records : ∀ name, db.records.lookup name = (byName state.records name).map (entryRow J)
  decisions : ∀ name, db.decisions.lookup name = (byName state.decisions name).map (·.asStr)
  continuations : ∀ name, db.continuations.lookup name =
    (byName state.continuations.records name).map (continuationRow J)
  relations : ∀ name, db.executionRelations.lookup name =
    (byName state.executionRelations name).map (relationRow J)
  changes : ∀ name, (db.recordChanges.lookup name).isSome = (db.records.lookup name).isSome
  positions : ∀ name change, db.recordChanges.lookup name = some change →
    change.position ≤ db.changeClock.position
  documents : Documented state db.written

theorem refines_empty (epoch : String) :
    Refines J MemoryStore.State.default (Db.empty Text epoch) := by
  have hempty {kind : IdKind} {V : Type} (name : String) :
      byName (∅ : HashMap (Identifier kind) V) name = none := by
    unfold byName
    split <;> simp
  refine ⟨MemoryStore.State.WellFormed.default, ?_, ?_, ?_, ?_, ?_, ?_, ?_, ?_, ⟨?_, ?_, ?_, ?_⟩⟩ <;>
    simp [Db.empty, MemoryStore.State.default, Registry.empty, hempty]

/-- Every document written so far reads back. -/
def Db.ReadsBack (J : SerdeJson Text) (db : Db Text) : Prop := ∀ d ∈ db.written, d.ReadsBack J

/-- No sequence and no revision has reached `i64::MAX`. -/
structure Db.CountersBelowMax (db : Db Text) : Prop where
  sequence : ∀ name next, db.sessions.lookup name = some next → next < i64Max
  revision : ∀ name row, db.records.lookup name = some row → row.revision < i64Max

/-- Nor would a change position within the next call, which moves it by at most two. -/
structure Db.WithinBounds (db : Db Text) : Prop extends Db.CountersBelowMax db where
  position : db.changeClock.position + 1 < i64Max

theorem decode_runRow {id : RunId} {spec : RunSpec} (hid : spec.id = id)
    (hcontext : Codec.decode J (Codec.documentText J spec.context) = .ok spec.context)
    (hconfig : Codec.decode J (Codec.documentText J spec.config) = .ok spec.config) :
    RunRow.decode J id (runRow J spec) = .ok spec := by
  have hcontinuation : transpose SqliteStore.id (spec.continuation.map (·.asStr)) =
      .ok spec.continuation := transpose_id_eq_ok.mpr rfl
  unfold RunRow.decode runRow
  simp only [id_eq_ok.mpr rfl, hcontext, hcontinuation, ok_bind]
  simp [transpose, hconfig, Except.map, ← hid]

namespace Refines

/-! ## Reads -/

variable {state : MemoryStore.State} {db : Db Text}

theorem decodesTo_entryRow {e : Entry} (hwf : e.WellFormed)
    (hdocs : ∀ d ∈ entryDocs e, d.ReadsBack J) : DecodesTo J (entryRow J e) e where
  id := rfl
  session := rfl
  run := rfl
  sequence := rfl
  actor := rfl
  reply := rfl
  payload := hdocs (.payload _) (by simp [entryDocs])
  source := by
    cases hs : e.current.source with
    | none => simp [entryRow, hs, transpose]
    | some source =>
      have hread : Codec.decode J (Codec.documentText J source) = .ok source :=
        hdocs (.source source) (by simp [entryDocs, hs])
      simp [entryRow, hs, transpose, hread, Except.map]
  revision := rfl
  state := rfl
  valid := hwf.valid
  initial := by
    by_cases hrev : e.current.revision = 0
    · simp only [entryRow, hrev, ↓reduceIte]
      exact ⟨hrev, hwf.first hrev⟩
    · simp only [entryRow, hrev, ↓reduceIte]
      exact ⟨_, hdocs (.initial _) (by simp [entryDocs, hrev]), hwf.validInitial, hwf.initial_eq⟩

theorem entry (h : Refines J state db) (hread : Db.ReadsBack J db) (id : RecordId) :
    SqliteStore.entry J db id = .ok (state.records.lookup id) := by
  unfold SqliteStore.entry
  rw [h.records, byName_asStr]
  cases he : state.records.lookup id with
  | none => rfl
  | some e =>
    have hdecode : (entryRow J e).decode J = .ok e :=
      decode_eq_ok.mpr (decodesTo_entryRow (h.wellFormed.entries id e he).1
        fun d hd => hread d (h.documents.entries id e he d hd))
    simp [transpose, hdecode, Except.map]

theorem readRun (h : Refines J state db) (hread : Db.ReadsBack J db) (id : RunId) :
    SqliteStore.readRun J db id = .ok (state.runs.lookup id) := by
  unfold SqliteStore.readRun
  rw [h.runs, byName_asStr]
  cases hs : state.runs.lookup id with
  | none => rfl
  | some spec =>
    obtain ⟨hcontext, hconfig⟩ := h.documents.runs id spec hs
    have hdecode : RunRow.decode J id (runRow J spec) = .ok spec :=
      decode_runRow (h.wellFormed.runs id spec hs) (hread _ hcontext) (hread _ hconfig)
    simp [transpose, hdecode, Except.map]

theorem sessionSequence (h : Refines J state db) (id : SessionId) :
    SqliteStore.sessionSequence db id = match state.sessions.lookup id with
      | some ids => .ok (ids.length : Int)
      | none => .error .missingSession := by
  unfold SqliteStore.sessionSequence
  rw [h.sessions, byName_asStr]
  cases state.sessions.lookup id <;> rfl

theorem readContinuation (h : Refines J state db) (hread : Db.ReadsBack J db)
    (id : ContinuationId) :
    SqliteStore.readContinuation J db id = .ok (state.continuations.records.lookup id) := by
  unfold SqliteStore.readContinuation
  rw [h.continuations, byName_asStr]
  cases hr : state.continuations.records.lookup id with
  | none => rfl
  | some record =>
    have hdoc : Codec.decode J (Codec.documentText J record.continuation) =
        .ok record.continuation := hread _ (h.documents.continuations id record hr)
    obtain ⟨hid, hvalid⟩ := h.wellFormed.registry.valid id record hr
    have hstate : parseContinuationState (continuationStateName record.state) =
        .ok record.state := by
      cases record.state <;> rfl
    have hdecode : ContinuationRow.decode J id (continuationRow J record) = .ok record := by
      simp [ContinuationRow.decode, continuationRow, hdoc, hvalid, hid, hstate]
    simp [transpose, hdecode, Except.map]

theorem readRelation (h : Refines J state db) (hread : Db.ReadsBack J db) (child : RunId) :
    SqliteStore.readRelation J db child = .ok (state.executionRelations.lookup child) := by
  unfold SqliteStore.readRelation
  rw [h.relations, byName_asStr]
  cases hr : state.executionRelations.lookup child with
  | none => rfl
  | some relation =>
    have hdoc : Codec.decode J (Codec.documentText J relation) = .ok relation :=
      hread _ (h.documents.relations child relation hr)
    obtain ⟨hchild, parentSpec, childSpec, hparent, hchildSpec, hvalid⟩ :=
      h.wellFormed.relations child relation hr
    have hdecode : RelationRow.decode J db child (relationRow J relation) = .ok relation := by
      simp [RelationRow.decode, relationRow, hdoc, hchild, h.readRun hread, hparent, hchildSpec,
        hvalid]
    simp [transpose, hdecode, Except.map]

end Refines

end AgentBridge
