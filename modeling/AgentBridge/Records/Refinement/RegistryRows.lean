import AgentBridge.Records.Chains
import AgentBridge.Records.Refinement.Relation

/-!
# The rows of the continuation registry

The table of continuations holds a registry, whether its descriptors read back or not.  Every call
of the SQLite store that succeeds does to the rows what the call of the registry does to the
registry; a descriptor that cannot be read makes the call fail.
-/

namespace AgentBridge

open Reasoning SqliteStore

variable {Text : Type} {J : SerdeJson Text} {registry : Registry} {db db' : Db Text}

structure RegistryRows (J : SerdeJson Text) (registry : Registry) (db : Db Text) : Prop where
  wellFormed : registry.WellFormed
  rows : ∀ name, db.continuations.lookup name =
    (byName registry.records name).map (continuationRow J)

theorem Refines.registryRows {state : MemoryStore.State} (h : Refines J state db) :
    RegistryRows J state.continuations db :=
  ⟨h.wellFormed.registry, h.continuations⟩

theorem decode_continuationRow {id : ContinuationId} {record : ContinuationRecord}
    (hid : record.continuation.id = id) (hvalid : record.continuation.validate = .ok ())
    (hdoc : Codec.decode J (Codec.documentText J record.continuation) = .ok record.continuation) :
    ContinuationRow.decode J id (continuationRow J record) = .ok record := by
  have hstate : parseContinuationState (continuationStateName record.state) =
      .ok record.state := by
    cases record.state <;> rfl
  simp [ContinuationRow.decode, continuationRow, hdoc, hvalid, hid, hstate]

theorem isLatest_iff {value : Continuation} {record : ContinuationRecord} :
    Db.isLatest value.adapter value.scope value.nativeKey (continuationRow J record) = true ↔
      record.continuation.key = value.key ∧ record.latest = true := by
  simp only [Db.isLatest, continuationRow, Continuation.key, Bool.and_eq_true, beq_iff_eq,
    Prod.mk.injEq, and_assoc]

/-- The records after the previous continuation of a new one has lost its mark. -/
def unlatched (registry : Registry) (value : Continuation) :
    HashMap ContinuationId ContinuationRecord :=
  match registry.previous value with
  | some previous =>
      registry.records.insert previous.continuation.id { previous with latest := false }
  | none => registry.records

/-- The tables after the update of the previous row. -/
def afterUnlatch (db : Db Text) (previous : Option ContinuationRecord) : Db Text :=
  match previous with
  | some previous => db.updateContinuation previous.continuation.id.asStr fun row =>
      { row with latest := false }
  | none => db

namespace RegistryRows

theorem mem_iff (h : RegistryRows J registry db) {name : String} {row : ContinuationRow Text} :
    db.continuations.lookup name = some row ↔
      ∃ record, registry.records.lookup record.continuation.id = some record ∧
        record.continuation.id.asStr = name ∧ row = continuationRow J record := by
  rw [h.rows, Option.map_eq_some_iff]
  constructor
  · rintro ⟨record, hrecord, rfl⟩
    obtain ⟨id, rfl, hid⟩ := byName_eq_some.mp hrecord
    obtain rfl := (h.wellFormed.valid id record hid).1
    exact ⟨record, hid, rfl, rfl⟩
  · rintro ⟨record, hrecord, rfl, rfl⟩
    exact ⟨record, by rw [byName_asStr, hrecord], rfl⟩

theorem selectLatest (h : RegistryRows J registry db) (value : Continuation) :
    db.selectLatest value.adapter value.scope value.nativeKey =
      (registry.previous value).map (·.continuation.id.asStr) := by
  unfold Db.selectLatest
  cases hfind : db.continuations.entries.find? fun e =>
      Db.isLatest value.adapter value.scope value.nativeKey e.2 with
  | none =>
    cases hprev : registry.previous value with
    | none => rfl
    | some previous =>
      obtain ⟨hprevious, hkey, hlatest⟩ := (Registry.previous_eq_some h.wellFormed).mp hprev
      have hrow := h.mem_iff.mpr ⟨previous, hprevious, rfl, rfl⟩
      have hnot := List.find?_eq_none.mp hfind _ ((HashMap.mem_entries_iff _ _ _).mpr hrow)
      exact absurd (isLatest_iff.mpr ⟨hkey, hlatest⟩) hnot
  | some e =>
    obtain ⟨record, hrecord, hname, hrow⟩ := h.mem_iff.mp
      ((HashMap.mem_entries_iff _ _ _).mp (List.mem_of_find?_eq_some hfind))
    have hlatest := List.find?_some hfind
    rw [hrow, isLatest_iff] at hlatest
    have hprev : registry.previous value = some record :=
      (Registry.previous_eq_some h.wellFormed).mpr ⟨hrecord, hlatest⟩
    rw [hprev]
    show some e.1 = some record.continuation.id.asStr
    rw [hname]

/-- `UPDATE agent_bridge_continuations` of a row in the table. -/
theorem updateContinuation (h : RegistryRows J registry db) {record : ContinuationRecord}
    (hrecord : registry.records.lookup record.continuation.id = some record)
    (set : ContinuationRow Text → ContinuationRow Text) :
    db.updateContinuation record.continuation.id.asStr set =
      db.withContinuation record.continuation.id.asStr (set (continuationRow J record)) :=
  Db.updateContinuation_eq (h.mem_iff.mpr ⟨record, hrecord, rfl, rfl⟩) set

theorem afterUnlatch_eq (h : RegistryRows J registry db) (value : Continuation) :
    ∃ continuations : HashMap String (ContinuationRow Text),
      afterUnlatch db (registry.previous value) = { db with continuations } ∧
      ∀ name, continuations.lookup name =
        (byName (unlatched registry value) name).map (continuationRow J) := by
  cases hprev : registry.previous value with
  | none =>
    refine ⟨db.continuations, rfl, ?_⟩
    simp only [unlatched, hprev]
    exact h.rows
  | some previous =>
    have hrecord := ((Registry.previous_eq_some h.wellFormed).mp hprev).1
    refine ⟨_, h.updateContinuation hrecord _, ?_⟩
    simp only [unlatched, hprev]
    exact lookup_insert_byName h.rows previous.continuation.id { previous with latest := false }

/-- What is read of a continuation is its record, or an error. -/
theorem readContinuation_cases (h : RegistryRows J registry db) (hJ : J.Lawful)
    (id : ContinuationId) :
    readContinuation J db id = .ok (registry.records.lookup id) ∨
      ∃ e, readContinuation J db id = .error e := by
  unfold readContinuation
  rw [h.rows, byName_asStr]
  cases hrecord : registry.records.lookup id with
  | none => exact .inl rfl
  | some record =>
    obtain ⟨hid, hvalid⟩ := h.wellFormed.valid id record hrecord
    rcases Codec.decode_continuation hJ record.continuation with hdoc | ⟨e, hdoc⟩
    · left
      have hdecode := decode_continuationRow hid hvalid hdoc
      simp [transpose, hdecode, Except.map]
    · right
      refine ⟨.corruptData e, ?_⟩
      simp only [Option.map_some, transpose, ContinuationRow.decode, continuationRow, hdoc,
        error_bind]
      rfl

theorem readLatest_cases (h : RegistryRows J registry db) (hJ : J.Lawful) (value : Continuation) :
    readLatest J db value = .ok (registry.previous value) ∨
      ∃ e, readLatest J db value = .error e := by
  unfold readLatest
  rw [h.selectLatest]
  cases hprev : registry.previous value with
  | none => exact .inl rfl
  | some previous =>
    have hid : SqliteStore.id previous.continuation.id.asStr = .ok previous.continuation.id :=
      id_eq_ok.mpr rfl
    have hrecord := ((Registry.previous_eq_some h.wellFormed).mp hprev).1
    simp only [Option.map_some, hid, ok_bind]
    rcases h.readContinuation_cases hJ previous.continuation.id with hread | herror
    · left
      rw [hread, hrecord]
    · exact .inr herror

/-! ## What the calls do to the rows -/

theorem claim_cases (h : RegistryRows J registry db) (hJ : J.Lawful) (id : ContinuationId) :
    (∃ e, write (claimContinuation J id) db = (.error e, db)) ∨
      ∃ record, registry.records.lookup id = some record ∧ record.state = .available ∧
        record.latest = true ∧
        (write (claimContinuation J id) db).1 = .ok { record with state := .claimed } ∧
        RegistryRows J (registry.claimed id record) (write (claimContinuation J id) db).2 := by
  rcases h.readContinuation_cases hJ id with hread | ⟨e, herror⟩
  · cases hrecord : registry.records.lookup id with
    | none =>
      rw [hrecord] at hread
      exact .inl ⟨.missingContinuation, write_error (by simp [claimContinuation, hread])⟩
    | some record =>
      rw [hrecord] at hread
      by_cases hclaimed : record.state ≠ .available ∨ record.latest = false
      · exact .inl ⟨.continuationClaimed, write_error (by simp [claimContinuation, hread, hclaimed])⟩
      · have hfree := hclaimed
        simp only [not_or, ne_eq, not_not, Bool.not_eq_false] at hfree
        have hnamed := (h.wellFormed.valid id record hrecord).1
        have hrecord' : registry.records.lookup record.continuation.id = some record := by
          rw [hnamed, hrecord]
        have hupdate := h.updateContinuation hrecord' fun row => { row with state := "claimed" }
        rw [hnamed] at hupdate
        have haction : claimContinuation J id db = .ok ({ record with state := .claimed },
            db.withContinuation id.asStr (continuationRow J { record with state := .claimed })) := by
          simp only [claimContinuation, hread, hclaimed, ok_bind, ↓reduceIte, hupdate]
          rfl
        rw [write_ok haction]
        exact .inr ⟨record, rfl, hfree.1, hfree.2, rfl, h.wellFormed.claimed hrecord,
          lookup_insert_byName h.rows id { record with state := .claimed }⟩
  · exact .inl ⟨e, write_error (by simp [claimContinuation, herror])⟩

theorem insertContinuation_eq_ok {id : String} {row : ContinuationRow Text} {docs : List Document}
    (h : db.insertContinuation id row docs = .ok db') :
    db' = { db.withContinuation id row with written := docs ++ db.written } := by
  unfold Db.insertContinuation at h
  simp only [ite_error_eq_ok, Except.ok.injEq] at h
  obtain ⟨-, -, -, -, rfl⟩ := h
  rfl

theorem save_cases (h : RegistryRows J registry db) (hJ : J.Lawful) (value : Continuation) :
    (∃ e, write (saveContinuation J value) db = (.error e, db)) ∨
      (∃ record, registry.records.lookup value.id = some record ∧ record.continuation = value ∧
        write (saveContinuation J value) db = (.ok record, db)) ∨
      (registry.Saves value ∧
        (write (saveContinuation J value) db).1 = .ok ⟨value, .available, true⟩ ∧
        RegistryRows J (registry.saved value) (write (saveContinuation J value) db).2) := by
  cases hresult : saveContinuation J value db with
  | error e => exact .inl ⟨e, write_error hresult⟩
  | ok result =>
  right
  have hresult' := hresult
  unfold saveContinuation at hresult'
  obtain ⟨_, -, hresult'⟩ := bind_eq_ok.mp hresult'
  obtain ⟨⟨⟩, hvalid, hresult'⟩ := bind_eq_ok.mp hresult'
  obtain ⟨found, hfound, hresult'⟩ := bind_eq_ok.mp hresult'
  have hrecord : registry.records.lookup value.id = found := by
    rcases h.readContinuation_cases hJ value.id with hread | ⟨e, herror⟩
    · rw [hfound, Except.ok.injEq] at hread
      exact hread.symm
    · rw [hfound] at herror
      cases herror
  cases found with
  | some existing =>
    left
    simp only at hresult'
    split at hresult'
    · next hsame =>
      cases hresult'
      exact ⟨existing, hrecord, hsame, write_ok hresult⟩
    · cases hresult'
  | none =>
    right
    simp only at hresult'
    obtain ⟨previous, hprevious, hresult'⟩ := bind_eq_ok.mp hresult'
    obtain rfl : registry.previous value = previous := by
      rcases h.readLatest_cases hJ value with hread | ⟨e, herror⟩
      · rw [hprevious, Except.ok.injEq] at hread
        exact hread.symm
      · rw [hprevious] at herror
        cases herror
    obtain ⟨⟨⟩, hsuccessor, hresult'⟩ := bind_eq_ok.mp hresult'
    obtain ⟨continuations, hunlatch, hrows⟩ := h.afterUnlatch_eq value
    have hunlatch' : afterUnlatch db (registry.previous value) = { db with continuations } := hunlatch
    have hinsert : (do
        let db ← (afterUnlatch db (registry.previous value)).insertContinuation
          value.id.asStr (continuationRow J ⟨value, .available, true⟩) [.continuation value]
        Except.ok ((⟨value, .available, true⟩ : ContinuationRecord), db)) = .ok result := hresult'
    rw [hunlatch'] at hinsert
    obtain ⟨inserted, hok, hpair⟩ := bind_eq_ok.mp hinsert
    obtain rfl := insertContinuation_eq_ok hok
    obtain rfl := Except.ok.inj hpair
    have hsaves : registry.Saves value := ⟨hvalid, hrecord, hsuccessor⟩
    rw [write_ok hresult]
    exact ⟨hsaves, rfl, h.wellFormed.saved hsaves,
      lookup_insert_byName hrows value.id ⟨value, .available, true⟩⟩

end RegistryRows

end AgentBridge
