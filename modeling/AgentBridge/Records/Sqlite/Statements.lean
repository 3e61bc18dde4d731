import AgentBridge.Records.Sqlite.Schema
import AgentBridge.Reasoning.Except

/-! # What a statement that succeeds found and did -/

namespace AgentBridge

open Reasoning

namespace SqliteStore

variable {Text : Type}

theorem incremented_eq_ok {column : String} {n m : Int} :
    incremented column n = .ok m ↔ n < i64Max ∧ m = n + 1 := by
  unfold incremented
  by_cases h : n < i64Max
  · simp [h, eq_comm]
  · simp [h]

namespace Db

/-! ## Records -/

/-- The database after a record is inserted and its change recorded. -/
def withRecord (db : Db Text) (row : RowData Text) (docs : List Document) : Db Text :=
  { db with
    records := db.records.insert row.id row
    changeClock := { db.changeClock with position := db.changeClock.position + 1 }
    recordChanges := db.recordChanges.insert row.id ⟨row.session, db.changeClock.position + 1⟩
    written := docs ++ db.written }

/-- No change has the next position yet. -/
def FreshPosition (db : Db Text) : Prop :=
  ∀ id change, db.recordChanges.lookup id = some change →
    change.position ≠ db.changeClock.position + 1

theorem freshPosition_iff {db : Db Text} :
    (db.recordChanges.values.any fun change =>
      change.position == db.changeClock.position + 1) = false ↔ db.FreshPosition := by
  simp only [List.any_eq_false, beq_iff_eq, HashMap.mem_values_iff, FreshPosition]
  constructor
  · exact fun h id change hc => h change ⟨id, hc⟩
  · rintro h change ⟨id, hc⟩
    exact h id change hc

/-- What `insertRecord` checks. -/
structure InsertsRecord (db : Db Text) (row : RowData Text) : Prop where
  fresh : db.records.lookup row.id = none
  unique : ∀ id other, db.records.lookup id = some other → other.session = row.session →
    other.sequence ≠ row.sequence
  sequence : 0 ≤ row.sequence
  state : row.state ∈ sqlStates
  revision : 0 ≤ row.revision
  session : (db.sessions.lookup row.session).isSome
  run : db.hasRun row = true
  reply : ∀ id, row.reply = some id → id = row.id ∨ (db.records.lookup id).isSome
  position : db.changeClock.position < i64Max
  change : db.recordChanges.lookup row.id = none
  freshPosition : db.FreshPosition

theorem recordInsertChange_eq_ok {db db' : Db Text} {record session : String} :
    db.recordInsertChange record session = .ok db' ↔
      db.changeClock.position < i64Max ∧ db.recordChanges.lookup record = none ∧
        db.FreshPosition ∧
        db' = { db with
          changeClock := { db.changeClock with position := db.changeClock.position + 1 }
          recordChanges :=
            db.recordChanges.insert record ⟨session, db.changeClock.position + 1⟩ } := by
  unfold recordInsertChange
  simp only [bind_eq_ok, incremented_eq_ok]
  constructor
  · rintro ⟨position, ⟨hlt, rfl⟩, h⟩
    split at h
    · cases h
    next hrecord =>
    split at h
    · cases h
    next hfresh =>
    simp only [Except.ok.injEq] at h
    exact ⟨hlt, by simpa using hrecord, freshPosition_iff.mp (by simpa using hfresh), h.symm⟩
  · rintro ⟨hlt, hrecord, hfresh, rfl⟩
    refine ⟨_, ⟨hlt, rfl⟩, ?_⟩
    rw [if_neg (by simp [hrecord]), if_neg (by simp [freshPosition_iff.mpr hfresh])]

theorem insertRecord_eq_ok {db db' : Db Text} {row : RowData Text} {docs : List Document} :
    db.insertRecord row docs = .ok db' ↔
      db.InsertsRecord row ∧ db' = db.withRecord row docs := by
  have hunique : (db.records.values.any fun other =>
      other.session == row.session && other.sequence == row.sequence) = false ↔
      ∀ id other, db.records.lookup id = some other → other.session = row.session →
        other.sequence ≠ row.sequence := by
    simp only [List.any_eq_false, Bool.and_eq_true, beq_iff_eq, not_and, HashMap.mem_values_iff]
    constructor
    · exact fun h id other ho => h other ⟨id, ho⟩
    · rintro h other ⟨id, ho⟩
      exact h id other ho
  have hforeign : ((db.sessions.lookup row.session).isNone || !db.hasRun row ||
        row.reply.any fun id => id != row.id && (db.records.lookup id).isNone) = false ↔
      (db.sessions.lookup row.session).isSome ∧ db.hasRun row = true ∧
        ∀ id, row.reply = some id → id = row.id ∨ (db.records.lookup id).isSome := by
    cases hreply : row.reply with
    | none => simp
    | some id =>
      simp only [Bool.or_eq_false_iff, Option.isNone_eq_false_iff, Bool.not_eq_false',
        Option.any_some, Bool.and_eq_false_iff, bne_eq_false_iff_eq, Option.some.injEq,
        forall_eq', and_assoc]
  unfold insertRecord
  simp only [ite_error_eq_ok, recordInsertChange_eq_ok, FreshPosition]
  constructor
  · rintro ⟨h1, h2, h3, h4, h5, h6, h7, h8, h9, rfl⟩
    have hf := hforeign.mp ((Bool.not_eq_true _).mp h6)
    exact ⟨⟨by simpa using h1, hunique.mp (by simpa using h2), by omega, by simpa using h4, by omega,
      hf.1, hf.2.1, hf.2.2, h7, h8, h9⟩, rfl⟩
  · rintro ⟨h, rfl⟩
    refine ⟨by simp [h.fresh], by simp [hunique.mpr h.unique], ?_, by simpa using h.state, ?_, ?_,
      h.position, h.change, h.freshPosition, rfl⟩
    · have := h.sequence
      omega
    · have := h.revision
      omega
    · rw [Bool.not_eq_true]
      exact hforeign.mpr ⟨h.session, h.run, h.reply⟩

/-- What `incrementSequence` leaves when the session exists. -/
def withSequence (db : Db Text) (session : String) (next : Int) : Db Text :=
  { db with sessions := db.sessions.insert session next }

theorem incrementSequence_eq_ok {db db' : Db Text} {session : String} {next : Int}
    (h : db.sessions.lookup session = some next) :
    db.incrementSequence session = .ok db' ↔
      next < i64Max ∧ db' = db.withSequence session (next + 1) := by
  simp only [incrementSequence, h, bind_eq_ok, incremented_eq_ok, Except.ok.injEq, withSequence]
  constructor
  · rintro ⟨m, ⟨hlt, rfl⟩, rfl⟩
    exact ⟨hlt, rfl⟩
  · rintro ⟨hlt, rfl⟩
    exact ⟨_, ⟨hlt, rfl⟩, rfl⟩

/-- The row after an update: `COALESCE(initial_json, ?4)` keeps a snapshot once there is one. -/
def updatedRow (row : RowData Text) (payload : Text) (state : String) (revision : Int)
    (initial : Option Text) : RowData Text :=
  { row with payload, state, revision, initial := row.initial.or initial }

/-- The database after a record with a change is given another revision. -/
def withUpdate (db : Db Text) (id : String) (row : RowData Text) (change : RecordChange)
    (docs : List Document) : Db Text :=
  { db with
    records := db.records.insert id row
    changeClock := { db.changeClock with position := db.changeClock.position + 1 }
    recordChanges :=
      db.recordChanges.insert id { change with position := db.changeClock.position + 1 }
    written := docs ++ db.written }

/-- What `updateRecord` checks before it changes a record's revision. -/
structure UpdatesRecord (db : Db Text) (id : String) (expected : Int) (state : String)
    (revision : Int) (row : RowData Text) (change : RecordChange) : Prop where
  found : db.records.lookup id = some row
  expected : row.revision = expected
  state : state ∈ sqlStates
  revision : 0 ≤ revision
  position : db.changeClock.position < i64Max
  change : db.recordChanges.lookup id = some change
  freshPosition : db.FreshPosition

theorem updateRecord_eq_ok {db db' : Db Text} {id : String} {expected : Int} {payload : Text}
    {state : String} {revision : Int} {initial : Option Text} {docs : List Document}
    (hne : revision ≠ expected)
    (hchange : ∀ row, db.records.lookup id = some row → (db.recordChanges.lookup id).isSome) :
    db.updateRecord id expected payload state revision initial docs = .ok (1, db') ↔
      ∃ row change, db.UpdatesRecord id expected state revision row change ∧
        db' = db.withUpdate id (updatedRow row payload state revision initial) change docs := by
  cases hrow : db.records.lookup id with
  | none =>
    constructor
    · intro h
      simp [updateRecord, hrow] at h
    · rintro ⟨row, change, h, -⟩
      exact absurd h.found (by simp [hrow])
  | some row =>
    obtain ⟨change, hc⟩ := Option.isSome_iff_exists.mp (hchange row hrow)
    have htrigger (records : HashMap String (RowData Text)) (written : List Document)
        (after : Db Text) :
        ({ db with records, written } : Db Text).recordUpdateChange id = .ok after ↔
          db.changeClock.position < i64Max ∧ db.FreshPosition ∧
            after = { db with
              records, written
              changeClock := { db.changeClock with position := db.changeClock.position + 1 }
              recordChanges := db.recordChanges.insert id
                { change with position := db.changeClock.position + 1 } } := by
      simp only [recordUpdateChange, hc, bind_eq_ok, incremented_eq_ok]
      constructor
      · rintro ⟨position, ⟨hlt, rfl⟩, h⟩
        obtain ⟨hfresh, h⟩ := ite_error_eq_ok.mp h
        exact ⟨hlt, freshPosition_iff.mp ((Bool.not_eq_true _).mp hfresh), (Except.ok.inj h).symm⟩
      · rintro ⟨hlt, hfresh, rfl⟩
        refine ⟨_, ⟨hlt, rfl⟩, ite_error_eq_ok.mpr ⟨?_, rfl⟩⟩
        rw [Bool.not_eq_true]
        exact freshPosition_iff.mpr hfresh
    constructor
    · intro h
      simp only [updateRecord, hrow] at h
      split at h
      · simp at h
      next hrev =>
      have hrev : row.revision = expected := not_not.mp hrev
      obtain ⟨hstate, h⟩ := ite_error_eq_ok.mp h
      obtain ⟨hrevision, h⟩ := ite_error_eq_ok.mp h
      rw [if_pos (by rw [hrev]; exact hne), bind_eq_ok] at h
      obtain ⟨updated, hupdated, h⟩ := h
      obtain rfl : updated = db' := by simpa using h
      obtain ⟨hlt, hfresh, rfl⟩ := (htrigger _ _ _).mp hupdated
      refine ⟨row, change, ⟨hrow, hrev, by simpa using hstate, by omega, hlt, hc, hfresh⟩, rfl⟩
    · rintro ⟨row', change', h, rfl⟩
      obtain rfl : row = row' := by simpa [hrow] using h.found
      obtain rfl : change = change' := by simpa [hc] using h.change
      have hnonneg : ¬ revision < 0 := by
        have := h.revision
        omega
      simp only [updateRecord, hrow]
      rw [if_neg (not_not.mpr h.expected), if_neg (by simpa using h.state), if_neg hnonneg,
        if_pos (by rw [h.expected]; exact hne), bind_eq_ok]
      exact ⟨_, (htrigger _ _ _).mpr ⟨h.position, h.freshPosition, rfl⟩, rfl⟩

/-! ## Continuations -/

/-- The database after a continuation's row is stored. -/
def withContinuation (db : Db Text) (id : String) (row : ContinuationRow Text) : Db Text :=
  { db with continuations := db.continuations.insert id row }

theorem updateContinuation_eq {db : Db Text} {id : String} {row : ContinuationRow Text}
    (h : db.continuations.lookup id = some row) (set : ContinuationRow Text → ContinuationRow Text) :
    db.updateContinuation id set = db.withContinuation id (set row) := by
  simp only [updateContinuation, h, withContinuation]

/-- What `insertContinuation` checks. -/
structure InsertsContinuation (db : Db Text) (id : String) (row : ContinuationRow Text) : Prop where
  fresh : db.continuations.lookup id = none
  predecessor : ∀ name other, db.continuations.lookup name = some other →
    row.predecessor.isSome → other.predecessor ≠ row.predecessor
  latest : ∀ name other, db.continuations.lookup name = some other →
    row.latest = true → isLatest row.adapter row.scope row.nativeKey other = false
  session : (db.sessions.lookup row.session).isSome
  reference : ∀ p, row.predecessor = some p → p = id ∨ (db.continuations.lookup p).isSome

theorem insertContinuation_eq {db : Db Text} {id : String} {row : ContinuationRow Text}
    {docs : List Document} (h : db.InsertsContinuation id row) :
    db.insertContinuation id row docs =
      .ok { db.withContinuation id row with written := docs ++ db.written } := by
  have hpredecessor : (row.predecessor.isSome &&
      db.continuations.values.any fun other => other.predecessor == row.predecessor) = false := by
    rw [Bool.and_eq_false_imp]
    intro hsome
    rw [List.any_eq_false]
    intro other hother
    obtain ⟨name, hname⟩ := (HashMap.mem_values_iff _ _).mp hother
    simpa using h.predecessor name other hname hsome
  have hlatest : (row.latest &&
      db.continuations.values.any (isLatest row.adapter row.scope row.nativeKey)) = false := by
    rw [Bool.and_eq_false_imp]
    intro hl
    rw [List.any_eq_false]
    intro other hother
    obtain ⟨name, hname⟩ := (HashMap.mem_values_iff _ _).mp hother
    simpa using h.latest name other hname hl
  have hforeign : ((db.sessions.lookup row.session).isNone ||
      row.predecessor.any fun p => p != id && (db.continuations.lookup p).isNone) = false := by
    rw [Bool.or_eq_false_iff]
    refine ⟨by simpa using h.session, ?_⟩
    cases hp : row.predecessor with
    | none => rfl
    | some p =>
      simp only [Option.any_some, Bool.and_eq_false_imp, bne_iff_ne, ne_eq]
      intro hne
      simpa using (h.reference p hp).resolve_left hne
  unfold insertContinuation
  rw [if_neg (by simp [h.fresh]), hpredecessor, hlatest, hforeign]
  rfl

end Db

end SqliteStore

end AgentBridge
